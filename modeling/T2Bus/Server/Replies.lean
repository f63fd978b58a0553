import T2Bus.Lib.Sublist
import T2Bus.Server.Departed
import T2Bus.Server.Publish
import T2Bus.Server.Subscribers

/-!
# The replies to a message

What the channel of a client carries for one of its messages: the Ack that the core made when it
processed the message, and behind it, if the message was a request, the response.

* `System.Reachable.reach_earlier`: a channel that can be reached could be reached before;
* **`Record.count_of_pub`**: the Ack of a publication;
* **`System.Reachable.ack_of_outOn`**, **`System.Reachable.rsp_of_outOn`**: where a reply comes from;
  **`System.Reachable.ack_before_rsp`**.
-/

namespace T2Bus

namespace System

variable {s s' : System} {act : Act} {conn : Conn} {c : ClientId}

/-- The sender of a message that was processed could be reached then if it can be reached now. -/
def Lasting (s : System) : Prop :=
  ∀ r ∈ s.log, ∀ c msg, r.task = .message c msg → ∀ conn,
    s.core.protocolServerSenders c = some conn → s.isOpen conn = true →
      r.core.reach r.env c = some conn

theorem Lasting.step (hi : Lasting s) (hs : Reachable s) (hreg : registrations s'.log < 2 ^ 32)
    (h : s.step act = some s') : Lasting s' := by
  obtain ⟨-, hq | ⟨order, task, tasks, ht, rfl⟩⟩ := quiet_or_processed h
  · intro r hr c msg hm conn hc ho
    exact hi r (hq.log ▸ hr) c msg hm conn (hq.core ▸ hc) (hq.isOpen conn ho)
  · intro r hr c msg hm conn hc ho
    have hold : s.core.protocolServerSenders c = some conn ∧ s.isOpen conn = true := by
      have hsettled := (s.record order task).exec_senders hc
      rcases Core.settledSenders_cases hsettled with ⟨htask, hnew⟩ | hc
      · -- a client that is being registered has sent nothing
        have htask : task = .register conn := htask
        rw [processed, registrations_append, registrations_singleton] at hreg
        rw [show (s.record order task).task = _ from htask] at hreg
        rcases List.mem_append.mp hr with hr | hr
        · obtain ⟨conn', hc'⟩ := hs.counted.processed r hr c msg hm
          exact absurd hnew (hs.client_ne_next hreg hc')
        · cases List.mem_singleton.mp hr
          rw [show task = _ from hm] at htask
          cases htask
      · refine ⟨hc, ?_⟩
        rw [isOpen, processed_stubs] at ho
        split_ifs at ho with hreg'
        · -- a connection that is being registered has no client yet
          have hm : conn ∈ registers s.tasks := by
            rw [ht, show task = _ from hreg']
            exact List.mem_cons_self
          have hclient := hs.conns.registered c conn hc
          rw [hs.conns.queued conn hm] at hclient
          cases hclient
        · exact ho
    rcases List.mem_append.mp hr with hr | hr
    · exact hi r hr c msg hm conn hold.1 hold.2
    · cases List.mem_singleton.mp hr
      exact Core.reach_eq_some.mpr hold

theorem Reachable.lasting (h : Reachable s) : registrations s.log < 2 ^ 32 → Lasting s :=
  Lts.Reachable.induct (I := fun s => registrations s.log < 2 ^ 32 → Lasting s)
    (fun _ _ hr => absurd hr List.not_mem_nil) (fun _ _ _ hs hi hstep hreg =>
      (hi ((registrations_le hstep).trans_lt hreg)).step hs hreg hstep) h

/-- **A channel that a task can reach could be reached by the earlier tasks of its client.** -/
theorem Reachable.reach_earlier (h : Reachable s) : registrations s.log < 2 ^ 32 →
    ∀ (i j : ℕ) (r r' : Record), s.log[i]? = some r → s.log[j]? = some r' → i < j →
      ∀ c msg, r.task = .message c msg → ∀ conn, r'.core.reach r'.env c = some conn →
        r.core.reach r.env c = some conn := by
  refine Lts.Reachable.induct (I := fun s => registrations s.log < 2 ^ 32 →
    ∀ (i j : ℕ) (r r' : Record), s.log[i]? = some r → s.log[j]? = some r' → i < j →
      ∀ c msg, r.task = .message c msg → ∀ conn, r'.core.reach r'.env c = some conn →
        r.core.reach r.env c = some conn) (fun _ i j r r' hi => by simp [init] at hi)
    (fun s act s' hs hind hstep hreg i j r r' hi hj hlt c msg ht conn hreach => ?_) h
  have hreg₀ := (registrations_le hstep).trans_lt hreg
  obtain ⟨-, hq | ⟨order, task, tasks, -, rfl⟩⟩ := quiet_or_processed hstep
  · rw [hq.log] at hi hj
    exact hind hreg₀ i j r r' hi hj hlt c msg ht conn hreach
  · rcases getElem?_concat_iff.mp hi with hi | ⟨rfl, -⟩
    · rcases getElem?_concat_iff.mp hj with hj | ⟨-, rfl⟩
      · exact hind hreg₀ i j r r' hi hj hlt c msg ht conn hreach
      · obtain ⟨hc, ho⟩ := Core.reach_eq_some.mp hreach
        exact Reachable.lasting hs hreg₀ r (List.mem_of_getElem? hi) c msg ht conn hc ho
    · have hj := lt_of_getElem? hj
      rw [processed, List.length_append, List.length_singleton] at hj
      omega

end System

/-! ## Acks -/

namespace Record

variable {r : Record} {conn : Conn} {c : ClientId} {msg : Msg ProtocolClient}

theorem mem_acks {out : List Delivery} {a : AckMsg} :
    a ∈ acks out c ↔ ∃ d ∈ out, d.msg.content = .ack a ∧ d.clientId = c := by
  rw [acks, List.mem_filterMap]
  refine exists_congr fun d => and_congr_right fun _ => ?_
  obtain ⟨c', ⟨id, content⟩, conn⟩ := d
  cases content <;> simp [and_comm]

theorem msgId_of (id : MsgId) (res : BusResult (Option ℕ)) : (AckMsg.of id res).msgId = id := by
  cases res <;> rfl

/-- A message has one Ack, or none if the core panics. -/
theorem acks_cases (ht : r.task = .message c msg) : acks r.exec.2.out c = [] ∨
    ∃ res, acks r.exec.2.out c = [.of msg.id res] := by
  rcases Exec.processContent_fst r.env (.start r.core) c msg with hp | ⟨res, hres⟩
  · left
    rw [exec, ht]
    exact Exec.acks_message_panic hp
  · right
    refine ⟨res, ?_⟩
    rw [exec, ht]
    exact Exec.acks_message hres

/-- **The Ack of a publication that has no error has a count.** -/
theorem count_of_pub {id : MsgId} {params : PubMsg} {a : AckMsg}
    (ht : r.task = .message c ⟨id, .pub params⟩) (ha : acks r.exec.2.out c = [a])
    (herr : a.err = none) : a.numRecipients.isSome := by
  have hres := Core.processContent_pub r.core r.env c id params
  rw [exec, ht] at ha
  cases hl : (r.core.pubLoop r.env params).1 with
  | ok u =>
    rw [hl] at hres
    rw [Exec.acks_message (r := .ok (some _)) hres] at ha
    cases ha
    rfl
  | error fault =>
    rw [hl] at hres
    cases fault with
    | err e =>
      rw [Exec.acks_message (r := .error e) hres] at ha
      cases ha
      cases herr
    | panic =>
      rw [Exec.acks_message_panic hres] at ha
      cases ha

end Record

namespace System

variable {s : System} {conn : Conn} {c : ClientId}

/-- **An Ack in the channel of a client** is the one that the core made when it processed a message of
the client. -/
theorem Reachable.ack_of_outOn (h : Reachable s) {m : Msg ProtocolServer} {a : AckMsg}
    (hm : m ∈ outOn s.log conn) (ha : m.content = .ack a) : ∃ c msg, ∃ r ∈ s.log,
      (s.stubs conn).client? = some c ∧ r.task = .message c msg ∧ a.msgId = msg.id ∧
        acks r.exec.2.out c = [a] := by
  obtain ⟨r, hr, hm⟩ := List.mem_flatMap.mp hm
  obtain ⟨d, hd, hon⟩ := List.mem_filterMap.mp hm
  rw [Delivery.on?] at hon
  split_ifs at hon with hconn
  cases hon
  obtain ⟨msg, ht, res, rfl⟩ := Record.ack_mem_out hd ha
  refine ⟨d.clientId, msg, r, hr, ?_, ht, Record.msgId_of _ _, ?_⟩
  · have hreach := (Record.mem_out hd).2.symm.trans hconn
    exact h.conns.logged r hr d.clientId conn (Core.reach_eq_some.mp hreach).1
  · have hmem := Record.mem_acks.mpr ⟨d, hd, ha, rfl⟩
    rcases Record.acks_cases ht with hnil | ⟨res', hres⟩
    · rw [hnil] at hmem
      cases hmem
    · rw [hres] at hmem ⊢
      rw [List.mem_singleton.mp hmem]

/-- **A response in the channel of a client** is the one that the core made for a request of the
client. -/
theorem Reachable.rsp_of_outOn (h : Reachable s) {m : Msg ProtocolServer} {payload : RspMsg}
    (hm : m ∈ outOn s.log conn) (hp : m.content = .rsp payload) : ∃ c i j p params msg,
      ∃ r₀ : Record, (s.stubs conn).client? = some c ∧ s.log[i]? = some r₀ ∧
        r₀.task = .message c ⟨payload.reqId, .req msg⟩ ∧ Serves s.log i j p params ∧
        payload = ⟨p.requestId, params.status, params.payload⟩ := by
  obtain ⟨c, hc⟩ := h.client_of_mem_outOn hm
  obtain ⟨r, hr, hm⟩ := List.mem_flatMap.mp hm
  obtain ⟨j, hj⟩ := List.mem_iff_getElem?.mp hr
  have hq : payload.reqId ∈ rspIds (r.outOn conn) :=
    List.mem_filterMap.mpr ⟨m, hm, by rw [hp]; rfl⟩
  obtain ⟨i, p, params, msg, hs, r₀, hi, ht⟩ := h.serves_of_rspIds hc hj hq
  refine ⟨c, i, j, p, params, msg, r₀, hc, hi, ht, hs, ?_⟩
  -- the task at `j` gives one response, to the request that it answers
  obtain ⟨d, hd, hon⟩ := List.mem_filterMap.mp hm
  rw [Delivery.on?] at hon
  split_ifs at hon
  cases hon
  have hmem : d ∈ r.exec.2.out.filter (·.msg.content.isRsp) :=
    List.mem_filter.mpr ⟨hd, by rw [hp]; rfl⟩
  obtain ⟨r', hj', hans⟩ := hs.answers
  cases hj.symm.trans hj'
  rw [Record.exec, Core.rsps_processTask, show r.core.answers r.task = _ from hans] at hmem
  cases List.mem_singleton.mp hmem
  exact (ProtocolServer.rsp.inj hp).symm

/-- **The Ack of a request comes before the response to it.** -/
theorem Reachable.ack_before_rsp (h : Reachable s) (hreg : registrations s.log < 2 ^ 32)
    {l₁ l₂ : List (Msg ProtocolServer)} {m : Msg ProtocolServer} {payload : RspMsg}
    (hout : outOn s.log conn = l₁ ++ m :: l₂) (hm : m.content = .rsp payload) :
    ∃ m' ∈ l₁, ∃ a, m'.content = .ack a ∧ a.msgId = payload.reqId ∧ a.err = none := by
  obtain ⟨j, r, hj, hmj, hbefore⟩ := List.flatMap_eq_append_cons hout
  have hmem : m ∈ outOn s.log conn := by
    rw [hout]
    exact List.mem_append_right _ List.mem_cons_self
  obtain ⟨c, hc⟩ := h.client_of_mem_outOn hmem
  have hq : payload.reqId ∈ rspIds (r.outOn conn) :=
    List.mem_filterMap.mpr ⟨m, hmj, by rw [hm]; rfl⟩
  obtain ⟨i, p, params, msg, hs, r₀, hi, ht⟩ := h.serves_of_rspIds hc hj hq
  -- the request was accepted, so its Ack has no error
  obtain ⟨r₀', hi', hacc, -⟩ := hs.accepts
  cases hi.symm.trans hi'
  obtain ⟨a, hack, herr⟩ : ∃ a, acks r₀.exec.2.out c = [a] ∧ a.err = none := by
    rw [Record.exec, ht]
    exact Exec.acks_req.mpr (by rw [← ht]; exact Option.isSome_of_eq_some hacc)
  obtain ⟨d, hd, hda, hdc⟩ := Record.mem_acks.mp (hack ▸ List.mem_singleton_self a)
  have hreach : r₀.core.reach r₀.env c = some conn := by
    obtain ⟨c', hc', -⟩ := Record.mem_outOn hmj
    have hclient := h.conns.logged r (List.mem_of_getElem? hj) c' conn (Core.reach_eq_some.mp hc').1
    cases hc.symm.trans hclient
    exact h.reach_earlier hreg i j r₀ r hi hj hs.lt c _ ht conn hc'
  have hon : d.msg ∈ r₀.outOn conn := by
    refine List.mem_filterMap.mpr ⟨d, hd, if_pos ?_⟩
    rw [(Record.mem_out hd).2, hdc, hreach]
  refine ⟨d.msg, hbefore.subset (List.mem_flatMap.mpr ⟨r₀, ?_, hon⟩), a, hda, ?_, herr⟩
  · exact List.mem_of_getElem? ((List.getElem?_take_of_lt hs.lt).trans hi)
  · rcases Record.acks_cases ht with hnil | ⟨res, hres⟩
    · rw [hnil] at hack
      cases hack
    · rw [hres] at hack
      rw [← List.cons.inj hack |>.1]
      exact Record.msgId_of _ _

end System

end T2Bus
