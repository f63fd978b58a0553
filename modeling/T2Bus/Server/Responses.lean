import T2Bus.Server.Requests
import T2Bus.Server.Survival

/-!
# Responses are genuine

Every response that the server hands out belongs to a request that it accepted earlier, no two of them
to the same one, and was caused by the client that the request was delivered to, or by the request's
own timeout.

* `Record.Accepted`: a request accepted under a message id, as its parties see it;
* `Record.Causes`: what makes the server respond; `Genuine`: the responses of a log;
* **`System.responses_genuine`**.
-/

namespace T2Bus

namespace Record

variable (r : Record)

/-- The task is a Req of `p.requesterId` with message id `p.requestId`, on a topic that
`p.responderId` owned; it was delivered to the owner under `k`, and acknowledged without error. -/
def Accepted (k : MsgId) (p : PendingResponse) : Prop :=
  ∃ params conn, r.task = .message p.requesterId ⟨p.requestId, .req params⟩ ∧
    r.core.directory.getOwner params.topic = some p.responderId ∧
    ⟨p.responderId, ⟨k, .req params⟩, some conn⟩ ∈ r.exec.2.out ∧
    ∃ a, acks r.exec.2.out p.requesterId = [a] ∧ a.err = none

/-- The task is a Rsp of the responder that names `k` and has the status and payload of `rsp`, or the
timeout of `k`. -/
def Causes (k : MsgId) (p : PendingResponse) (rsp : RspMsg) : Prop :=
  (∃ id, r.task = .message p.responderId ⟨id, .rsp ⟨k, rsp.status, rsp.payload⟩⟩) ∨
    r.task = .requestTimeout k ∧ rsp.status = .timeout ∧ rsp.payload = ⟨[], false⟩

/-- The responses among what a task delivers. -/
def rsps : List Delivery := r.exec.2.out.filter (·.msg.content.isRsp)

variable {r}

/-- What is delivered when a request is accepted. -/
theorem out_of_accepts {p : PendingResponse} (h : r.accepts = some p) :
    ∃ params conn rest, r.task = .message p.requesterId ⟨p.requestId, .req params⟩ ∧
      r.core.directory.getOwner params.topic = some p.responderId ∧
      r.exec.2.out = ⟨p.responderId, ⟨r.core.nextMsgId, .req params⟩, some conn⟩ :: rest ∧
      ∀ d ∈ rest, ∃ a, d.msg.content = .ack a := by
  obtain ⟨params, ht, ho, hr⟩ := Core.accepts_eq_some.mp h
  obtain ⟨conn, hconn⟩ := Option.isSome_iff_exists.mp hr
  obtain ⟨as, heq, -⟩ := Exec.processTask_eq r.env r.task r.core
  refine ⟨params, conn, ((r.core.ownTask r.env r.task).afterDeliver r.env p.responderId).deliveries
    r.env (as.map fun a => (a.1, .ack a.2)), ht, ho, ?_, fun d hd => ?_⟩
  · rw [exec, heq, Exec.deliverList, Exec.ownExec, List.nil_append, ht]
    simp only [Core.taskSends, Core.sends, ho, Option.map_some, Option.toList_some,
      List.singleton_append, Core.deliveries, Core.ownTask, Core.own_nextMsgId, Core.own_reach,
      hconn]
  · obtain ⟨a, -, ha⟩ := List.mem_map.mp (Core.mem_deliveries hd).1
    exact ⟨a.2, (Prod.mk.inj ha).2.symm⟩

theorem out_ne_nil_of_accepts {p : PendingResponse} (h : r.accepts = some p) :
    r.exec.2.out ≠ [] := by
  obtain ⟨_, _, _, _, _, hout, _⟩ := out_of_accepts h
  rw [hout]
  exact List.cons_ne_nil _ _

/-- **The accepted requests** are those that get a pending entry, under the next message id. -/
theorem accepted_iff {k : MsgId} {p : PendingResponse} :
    r.Accepted k p ↔ r.accepts = some p ∧ r.core.nextMsgId = k := by
  constructor
  · rintro ⟨params, conn, ht, ho, hd, hack⟩
    have hsome : (r.core.accepts r.env r.task).isSome := by
      rw [exec, ht] at hack
      rw [ht]
      exact Exec.acks_req.mp hack
    obtain ⟨p', hp'⟩ := Option.isSome_iff_exists.mp hsome
    obtain ⟨params', conn', rest, ht', ho', hout, hrest⟩ := out_of_accepts hp'
    obtain ⟨req, resp, requester⟩ := p
    obtain ⟨req', resp', requester'⟩ := p'
    simp only [ht, Task.message.injEq, Msg.mk.injEq, ProtocolClient.req.injEq] at ht'
    obtain ⟨rfl, rfl, rfl⟩ := ht'
    cases ho.symm.trans ho'
    refine ⟨hp', ?_⟩
    rw [hout, List.mem_cons] at hd
    rcases hd with hd | hd
    · simp only [Delivery.mk.injEq, Msg.mk.injEq] at hd
      exact hd.2.1.1.symm
    · obtain ⟨a, ha⟩ := hrest _ hd
      cases ha
  · rintro ⟨hp, rfl⟩
    obtain ⟨params, conn, rest, ht, ho, hout, -⟩ := out_of_accepts hp
    refine ⟨params, conn, ht, ho, by rw [hout]; exact List.mem_cons_self, ?_⟩
    have hack := Exec.acks_req.mpr (by rw [← ht]; exact Option.isSome_of_eq_some hp)
    rwa [← ht] at hack

end Record

/-- **The responses of a log are genuine**: `origin` leads each of them back to the request it belongs
to. -/
structure Genuine (log : List Record) (origin : ℕ → ℕ) : Prop where
  /-- It answers an earlier request of the client it goes to, and was caused by the client that the
  request was delivered to, or by a timeout. -/
  traced : ∀ (j : ℕ) (r : Record) d rsp, log[j]? = some r → d ∈ r.exec.2.out →
    d.msg.content = .rsp rsp → origin j < j ∧ ∃ (r₀ : Record) (k : MsgId) (p : PendingResponse),
      log[origin j]? = some r₀ ∧ r₀.Accepted k p ∧ p.requesterId = d.clientId ∧
        p.requestId = rsp.reqId ∧ r.Causes k p rsp ∧
        -- no other request was delivered under this id, so the timeout is the request's own
        ∀ (i : ℕ) (r' : Record) p', log[i]? = some r' → r'.Accepted k p' → i = origin j
  /-- Two responses belong to two requests. -/
  distinct : ∀ (j j' : ℕ) (r r' : Record), log[j]? = some r → log[j']? = some r' →
    r.rsps ≠ [] → r'.rsps ≠ [] → origin j = origin j' → j = j'
  /-- A task gives one response at most. -/
  single : ∀ r ∈ log, r.rsps.length ≤ 1
  /-- What is not a response of the client that a pending request was delivered to is refused. -/
  refused : ∀ r ∈ log, ∀ c id params, r.task = .message c ⟨id, .rsp params⟩ →
    (¬ ∃ p, r.core.pendingResponses params.reqId = some p ∧ p.responderId = c) →
    ∃ k conn, r.exec.2.out = [⟨c, ⟨k, .ack ⟨id, some .invalidRequestId, none⟩⟩, conn⟩]

namespace System

variable {s : System}

/-- A client that sends a message has an id other than 0. -/
theorem Reachable.message_ne_zero (h : Reachable s) (hreg : registrations s.log < 2 ^ 32)
    {r : Record} (hr : r ∈ s.log) {c : ClientId} {msg : Msg ProtocolClient}
    (ht : r.task = .message c msg) : c ≠ 0 := by
  obtain ⟨conn, hc⟩ := h.counted.processed r hr c msg ht
  exact h.client_ne_zero hreg hc

theorem rsps_eq (r : Record) :
    r.rsps = (r.answers.map (r.core.rspDelivery r.env)).toList := Core.rsps_processTask

/-- The request that each task serves with its response, if it has one. -/
theorem Reachable.exists_origin (h : Reachable s) : ∃ origin : ℕ → ℕ, ∀ j p params,
    AnswersAt s.log j p params → Serves s.log (origin j) j p params := by
  classical
  have horigin : ∀ j, ∃ i, ∀ p params, AnswersAt s.log j p params → Serves s.log i j p params := by
    intro j
    by_cases hans : ∃ p params, AnswersAt s.log j p params
    · obtain ⟨p, params, hans⟩ := hans
      obtain ⟨i, hs⟩ := h.traced.answers j p params hans
      refine ⟨i, fun p' params' hans' => ?_⟩
      obtain ⟨r, hr, ha⟩ := hans
      obtain ⟨r', hr', ha'⟩ := hans'
      cases hr.symm.trans hr'
      cases ha.symm.trans ha'
      exact hs
    · exact ⟨0, fun p params hp => absurd ⟨p, params, hp⟩ hans⟩
  choose origin horigin using horigin
  exact ⟨origin, horigin⟩

/-- A response to a request that is not pending at its sender answers nothing. -/
theorem Reachable.answered_eq_none (h : Reachable s) (hreg : registrations s.log < 2 ^ 32)
    {r : Record} (hr : r ∈ s.log) {c : ClientId} {id : MsgId} {params : RspMsg}
    (ht : r.task = .message c ⟨id, .rsp params⟩)
    (hno : ¬ ∃ p, r.core.pendingResponses params.reqId = some p ∧ p.responderId = c) :
    r.core.answered c params = none := by
  have hne := h.message_ne_zero hreg hr ht
  rw [Core.answered]
  cases hp : r.core.pendingResponses params.reqId with
  | none => rfl
  | some p =>
    have hc : ¬ (c = 0 ∨ p.responderId = c) :=
      not_or.mpr ⟨hne, fun hc => hno ⟨p, hp, hc⟩⟩
    exact if_neg (by simpa using hc)

/-- **No response is forged, misrouted or duplicated**, in any run that hands out fewer than `2 ^ 32`
message ids and client ids. -/
theorem responses_genuine (h : Reachable s) (hids : idsTaken s.log < 2 ^ 32)
    (hreg : registrations s.log < 2 ^ 32) : ∃ origin, Genuine s.log origin := by
  obtain ⟨origin, horigin⟩ := h.exists_origin
  refine ⟨origin, fun j r d rsp hj hd hrsp => ?_, fun j j' r r' hj hj' hr hr' heq => ?_,
    fun r _ => ?_, fun r hr c id params ht hno => ?_⟩
  · have hmem : d ∈ r.rsps := List.mem_filter.mpr ⟨hd, by rw [hrsp]; rfl⟩
    rw [rsps_eq, Option.mem_toList] at hmem
    obtain ⟨⟨p, params⟩, hans, rfl⟩ := Option.map_eq_some_iff.mp hmem
    cases hrsp
    have hs := horigin j p params ⟨r, hj, hans⟩
    obtain ⟨r₀, h₀, hacc, hk⟩ := hs.accepts
    refine ⟨hs.lt, r₀, params.reqId, p, h₀, Record.accepted_iff.mpr ⟨hacc, hk⟩, rfl, rfl, ?_,
      fun i r' p' hi hacc' => ?_⟩
    · obtain ⟨-, ⟨c, id, ht, hc⟩ | ⟨ht, hparams⟩⟩ := Core.answers_eq_some.mp hans
      · have hne := h.message_ne_zero hreg (List.mem_of_getElem? hj) ht
        exact Or.inl ⟨id, by rw [ht, hc.resolve_left hne]⟩
      · exact Or.inr ⟨ht, by rw [hparams]; exact ⟨rfl, rfl⟩⟩
    · obtain ⟨hacc', hk'⟩ := Record.accepted_iff.mp hacc'
      exact h.nextMsgId_inj hids hi h₀ (Record.out_ne_nil_of_accepts hacc')
        (Record.out_ne_nil_of_accepts hacc) (hk'.trans hk.symm)
  · have hans : ∀ {j : ℕ} {r : Record}, s.log[j]? = some r → r.rsps ≠ [] →
        ∃ p params, Serves s.log (origin j) j p params := by
      intro j r hj hr
      rw [rsps_eq] at hr
      cases ha : r.answers with
      | none => exact absurd (by rw [ha]; rfl) hr
      | some a => exact ⟨a.1, a.2, horigin j _ _ ⟨r, hj, ha⟩⟩
    obtain ⟨p, params, hs⟩ := hans hj hr
    obtain ⟨p', params', hs'⟩ := hans hj' hr'
    exact hs.unique (heq ▸ hs')
  · rw [rsps_eq]
    cases r.answers <;> simp
  · have hans := h.answered_eq_none hreg hr ht hno
    refine ⟨r.core.nextMsgId, r.core.reach r.env c, ?_⟩
    rw [Record.exec, ht]
    exact Exec.out_rsp_refused hans

/-- A request that is answered, and a second response to it. -/
theorem responses_genuine_answered :
    ∃ s, Lts.run step init (answered ++ [.receive 0 ⟨3, .rsp ⟨1, .ok, ⟨[3], false⟩⟩⟩ (by decide),
      .process .given]) = some s ∧ ∃ origin, Genuine s.log origin := by
  have hrun : (Lts.run step init (answered ++
      [.receive 0 ⟨3, .rsp ⟨1, .ok, ⟨[3], false⟩⟩⟩ (by decide), .process .given])).map
      (fun s => (idsTaken s.log, registrations s.log)) = some (6, 2) := by decide +kernel
  obtain ⟨s, hs, he⟩ := Option.map_eq_some_iff.mp hrun
  obtain ⟨hids, hreg⟩ := Prod.mk.inj he
  exact ⟨s, hs, responses_genuine ⟨_, hs⟩ (by rw [hids]; decide) (by rw [hreg]; decide)⟩

end System

end T2Bus
