import T2Bus.Client.Posts
import T2Bus.Client.Standing
import T2Bus.Server.Assigned

/-!
# What goes into the callback of a service

A request goes into the callback of the Srv that owns its topic. So the callback of a service gets the
requests on its topic that are received after its Srv, as long as no Unsrv is sent.

* `Turn.reqsTo`, `Turn.reqsTo_eq`: what a turn puts into the callback of a call;
* `Session.Reachable.sent_eq`: what was sent, turn by turn;
* `Session.Reachable.req_linked`: a callback in `callbacks_req` is that of a Srv that was sent;
* **`Session.Reachable.reqs_of_call`**.
-/

namespace T2Bus

def Call.reqTo? (n : Callback) : Call → Option (MsgId × ReqMsg)
  | .req callback id payload => if callback = n then some (id, payload) else none
  | .ack _ _ | .rsp _ _ | .pub _ _ => none

namespace Turn

variable {r : Turn} {n : Callback}

/-- The requests that the turn puts into the callback of a call. -/
def reqsTo (r : Turn) (n : Callback) : List (MsgId × ReqMsg) := r.exec.2.calls.filterMap (Call.reqTo? n)

variable (r n) in
/-- A request goes into the callback of the owner of its topic, if the receiver is there. -/
theorem reqsTo_eq : r.reqsTo n = match r.received? with
    | some ⟨id, .req payload⟩ =>
      if (r.core.subscriptions.getOwner payload.topic).bind r.core.callbacksReq = some n ∧
          r.env.isOpen n = true then [(id, payload)] else []
    | _ => [] := by
  rw [reqsTo]
  cases hm : r.received? with
  | none => rw [calls_none hm, List.filterMap_nil]
  | some msg =>
    have he := received_eq_some.mp hm
    obtain ⟨id, content⟩ := msg
    cases content with
    | req payload =>
      have hcalls : r.exec.2.calls =
          (ClientExec.afterReceive r.env ⟨id, .req payload⟩ (.start r.core)).2.calls := by
        rw [exec_msg he]
        rfl
      rw [hcalls]
      simp only [ClientExec.afterReceive, ClientExec.start]
      cases ho : r.core.subscriptions.getOwner payload.topic with
      | none => rfl
      | some k =>
        cases hc : r.core.callbacksReq k with
        | none => simp [hc]
        | some c =>
          by_cases hcn : c = n
          · subst hcn
            cases hopen : r.env.isOpen c <;> simp [hc, hopen, ClientExec.call, Call.reqTo?]
          · cases hopen : r.env.isOpen c <;> simp [hc, hopen, ClientExec.call, Call.reqTo?, hcn]
    | ack payload =>
      rw [calls_ack he]
      exact filterMap_map_none _ fun _ => rfl
    | rsp payload =>
      rw [calls_rsp he]
      exact filterMap_map_none _ fun _ => rfl
    | pub payload =>
      obtain ⟨l, -, hl, -⟩ := calls_pub he
      rw [hl]
      exact filterMap_map_none _ fun _ => rfl

/-- A request that finds an owner ends the loop unless the receiver is there. -/
theorem isOpen_of_ok (hok : r.exec.1 = .ok false) {id : MsgId} {payload : ReqMsg}
    (he : r.event = .msg ⟨id, .req payload⟩)
    (hc : (r.core.subscriptions.getOwner payload.topic).bind r.core.callbacksReq = some n) :
    r.env.isOpen n = true := by
  obtain ⟨k, ho, hk⟩ := Option.bind_eq_some_iff.mp hc
  rw [exec_msg he] at hok
  change (ClientExec.goesOn (ClientExec.afterReceive r.env ⟨id, .req payload⟩ (.start r.core))).1 = _
    at hok
  simp only [ClientExec.afterReceive, ClientExec.start, ho, hk] at hok
  by_contra hopen
  rw [if_neg hopen] at hok
  cases hok

end Turn

/-! ## Callbacks of services -/

/-- What `before_send` enters for a Srv. -/
theorem ClientCore.callbacksReq_beforeSend (core : ClientCore) (task : ClientTask) :
    (core.beforeSend task).2.callbacksReq = match task with
      | .srv params => core.callbacksReq.insert (core.nextMsgId + 1) params.callbackReq
      | _ => core.callbacksReq := by
  rw [beforeSend]
  cases task with
  | srv params =>
    rw [message_srv core.bump rfl]
    rfl
  | unsrv params =>
    cases ho : core.subscriptions.getOwner params.msg.topic with
    | none =>
      simp only [message, bump_subscriptions, ho]
      rfl
    | some callbackId =>
      rw [message_unsrv core.bump ho]
      rfl
  | _ => rfl

/-- What a message leaves of `callbacks_req`. -/
theorem ClientExec.callbacksReq_afterReceive {env : ClientEnv} {msg : Msg ProtocolServer}
    {core : ClientCore} {s : ClientExec} (h : afterReceive env msg (.start core) = (.ok (), s)) :
    s.core.callbacksReq = core.callbacksReq := by
  rcases afterReceive_ok h with ⟨-, ⟨acks, hcore⟩, -⟩ | ⟨-, payload, -, hcore⟩ | ⟨payload, -, hloop⟩
  · rw [hcore]
    rfl
  · rw [hcore]
    rfl
  · exact (Session.pubLoop_keeps hloop).2.2.1

namespace Session

variable {s s' : Session} {act : Act} {n : Callback}

/-- The callbacks of a Srv have the number of its call. -/
theorem Reachable.srv_own (h : Reachable s) :
    ∀ params, .srv params ∈ s.tasks → params.callbackReq = params.callbackAck := by
  refine Lts.invariant (I := fun s => ∀ params, ClientTask.srv params ∈ s.tasks →
    params.callbackReq = params.callbackAck) (fun params hm => by cases hm)
    (fun s act s' hi hstep params hm => ?_) h
  rcases queues_step hstep with ⟨-, -, -, -, htasks, -⟩ | ⟨event, valid, order, transport, tasks, -, ht, rfl⟩
  · rw [htasks] at hm
    rcases List.mem_append.mp hm with hm | hm
    · exact hi params hm
    · cases act with
      | dropHandle call =>
        obtain ⟨handle, -, hne⟩ := List.mem_map.mp hm
        cases hne
      | acked _ | giveUp _ | close _ | turn _ _ _ _ => cases hm
      | serve topic valid =>
        cases List.mem_singleton.mp hm
        rfl
      | _ => cases List.mem_singleton.mp hm
  · exact hi params (tasksAfter_subset ht hm)

theorem Reachable.posts_srv (h : Reachable s) {params : TaskSrv} {msg : Msg ProtocolClient}
    (hx : (.srv params, msg) ∈ posts s.log) : params.callbackReq = params.callbackAck := by
  obtain ⟨r, hr, hx⟩ := List.mem_flatMap.mp hx
  obtain ⟨s₀, h₀⟩ := h.at_mem hr
  obtain ⟨tasks, ht⟩ := h₀.tasks
  have hsends := Turn.sends_of_post hx
  rw [h₀.turn] at hsends
  exact h₀.reachable.srv_own params ((mem_of_sends ht hsends).resolve_right (by simp))

/-- A callback in `callbacks_req` is that of a Srv that was sent under its key. -/
def ReqLinked (s : Session) : Prop :=
  ∀ k n, s.core.callbacksReq k = some n →
    ∃ params msg, (.srv params, msg) ∈ posts s.log ∧ params.callbackReq = n ∧ msg.id = k

/-- **The callbacks of services are those of the Srvs that were sent.** -/
theorem Reachable.req_linked (h : Reachable s) : s.status = .running → s.ReqLinked := by
  refine Lts.invariant (I := fun s => s.status = .running → s.ReqLinked)
    (fun _ k n hk => by cases hk) (fun s act s' hi hstep hrun' => ?_) h
  have hrun := (step_eq_some.mp hstep).1
  rcases queues_step hstep with ⟨hcore, -, -, hlog, -⟩ | ⟨event, valid, order, transport, tasks, -, -, rfl⟩
  · intro k n
    rw [hcore, hlog]
    exact hi hrun k n
  · intro k n hk
    change ∃ params msg, (.srv params, msg) ∈ posts (s.log ++ [s.turn event order transport]) ∧ _
    rw [posts_concat]
    have hold : s.core.callbacksReq k = some n → ∃ params msg, (.srv params, msg) ∈
        posts s.log ++ (s.turn event order transport).posts ∧ params.callbackReq = n ∧ msg.id = k := by
      intro hk
      obtain ⟨params, msg, hx, h⟩ := hi hrun k n hk
      exact ⟨params, msg, List.mem_append_left _ hx, h⟩
    have hok := turned_running.mp hrun'
    rcases Turn.exec_ok hok with ⟨task, msg, hsends, hb, -⟩ | ⟨msg, -, hrecv⟩
    · have hreqs := ClientCore.callbacksReq_beforeSend (s.turn event order transport).core task
      rw [hb] at hreqs
      replace hk : (s.turn event order transport).exec.2.core.callbacksReq k = some n := hk
      rw [show (s.turn event order transport).exec.2.core.callbacksReq = _ from hreqs] at hk
      cases task with
      | srv params =>
        change Table.insert _ _ _ k = some n at hk
        rw [Table.insert_apply] at hk
        split_ifs at hk with hid
        · cases hk
          obtain ⟨msg', hpost, hid'⟩ := Turn.posts_of_ok hok hsends
          refine ⟨params, msg', List.mem_append_right _ ?_, rfl, hid'.trans hid.symm⟩
          rw [hpost]
          exact List.mem_singleton_self _
        · exact hold hk
      | _ => exact hold hk
    · refine hold ?_
      rw [← hk]
      exact congrFun (ClientExec.callbacksReq_afterReceive hrecv).symm k

/-- A callback of a service is entered under the id of its Srv, and under no other. -/
theorem Reachable.req_key (h : Reachable s) (hrun : s.status = .running) {params : TaskSrv}
    {msg : Msg ProtocolClient} (hx : (.srv params, msg) ∈ posts s.log) {k : MsgId}
    (hk : s.core.callbacksReq k = some params.callbackReq) : k = msg.id := by
  obtain ⟨params', msg', hx', hn, rfl⟩ := h.req_linked hrun k _ hk
  have hcall : params'.callbackAck = params.callbackAck := by
    rw [← h.posts_srv hx, ← h.posts_srv hx', hn]
  cases h.posted.once _ hx' _ hx params.callbackAck (congrArg some hcall) rfl
  rfl

/-! ## What was sent, turn by turn -/

/-- What the turns have sent. -/
def sentBy (log : List Turn) : List (Msg ProtocolClient) := log.flatMap fun r => r.exec.2.sent

theorem sentBy_append (log log' : List Turn) : sentBy (log ++ log') = sentBy log ++ sentBy log' :=
  List.flatMap_append

theorem Reachable.sent_eq (h : Reachable s) : s.sent = sentBy s.log := by
  refine Lts.invariant (I := fun s => s.sent = sentBy s.log) rfl (fun s act s' hi hstep => ?_) h
  rcases queues_step hstep with ⟨-, -, hsent, hlog, -⟩ | ⟨event, valid, order, transport, tasks, -, -, rfl⟩
  · rw [hsent, hlog, hi]
  · rw [turned, sentBy_append, ← hi]
    exact congrArg (s.sent ++ ·) (List.flatMap_singleton _ _).symm

/-! ## What goes into the callback of a service -/

theorem reqsTo_of_not_received {r : Turn} (h : r.received? = none) (n : Callback) : r.reqsTo n = [] := by
  rw [Turn.reqsTo, Turn.calls_none h, List.filterMap_nil]

/-- **Before the Srv of a call is sent, nothing goes into its callback.** -/
theorem Reachable.reqsTo_before (h : Reachable s) {la lb : List Turn} {r : Turn}
    (hlog : s.log = la ++ r :: lb) {params : TaskSrv} {msg : Msg ProtocolClient}
    (hx : (.srv params, msg) ∈ r.posts) : ∀ r' ∈ la ++ [r], r'.reqsTo params.callbackReq = [] := by
  obtain ⟨s₁, h₁, hla⟩ := h.at_turn la r lb hlog
  refine List.forall_mem_append.mpr ⟨fun r' hr' => ?_,
    List.forall_mem_singleton.mpr (reqsTo_of_not_received (received_of_post hx) _)⟩
  obtain ⟨s₀, h₀⟩ := h₁.reachable.at_mem (hla ▸ hr')
  obtain ⟨tasks, ht⟩ := h₁.tasks
  have hsends := Turn.sends_of_post hx
  rw [h₁.turn] at hsends
  have hsrv := h₁.reachable.srv_own params ((mem_of_sends ht hsends).resolve_right (by simp))
  rw [Turn.reqsTo_eq]
  split
  · rename_i id payload hm
    refine if_neg fun hc => ?_
    -- the callback would be that of a Srv that was sent before
    obtain ⟨k, -, hk⟩ := Option.bind_eq_some_iff.mp hc.1
    rw [h₀.core] at hk
    obtain ⟨params', msg', hx', hn, -⟩ := h₀.reachable.req_linked h₀.running k _ hk
    have hcall : params'.callbackAck = params.callbackAck := by
      rw [← h₀.reachable.posts_srv hx', hn, hsrv]
    have hspent := h₀.reachable.posted.spent _ hx' params.callbackAck (congrArg some hcall)
    exact (h₁.reachable.numbered.spent_turned ht hsends rfl).2.1 (hspent.run h₀.later)
  · rfl

/-- The Srv of a call owns its topic as long as no Unsrv is sent. -/
theorem Reachable.owner_of_post (h : Reachable s) (hrun : s.status = .running)
    (hlen : s.sent.length < 2 ^ 32) {la lb : List Turn} {r : Turn} (hlog : s.log = la ++ r :: lb)
    {params : TaskSrv} {msg : Msg ProtocolClient} (hx : (.srv params, msg) ∈ r.posts)
    (hno : ∀ m ∈ sentBy lb, m.content ≠ .unsrv ⟨params.msg.topic⟩) :
    s.core.subscriptions.getOwner params.msg.topic = some msg.id := by
  obtain ⟨s₁, h₁, hla⟩ := h.at_turn la r lb hlog
  have hr : r ∈ s.log := by
    rw [hlog]
    exact List.mem_append_right _ List.mem_cons_self
  rcases Turn.exec_ok (h.turns_ok hrun r hr) with ⟨task, msg', hsends, hb, hsent⟩ | ⟨m, hevent, -⟩
  · have hpost : r.posts = [(task, msg')] := by
      rw [Turn.posts, hsends]
      simp only [hsent, List.map_singleton]
    rw [hpost] at hx
    cases List.mem_singleton.mp hx
    have hcontent : msg.content = .srv ⟨params.msg.topic⟩ :=
      (Option.some.inj (ClientCore.sends_of_beforeSend hb).2).symm
    rw [h₁.core] at hb
    have hstands := h₁.reachable.stands h₁.running ((sent_length_run h₁.later).trans_lt hlen)
    rw [(h.stands hrun hlen).owner, h.sent_eq, hlog, List.append_cons, sentBy_append]
    refine claimant_append ?_ hno
    rw [sentBy_append, ← hla, ← h₁.reachable.sent_eq,
      show sentBy [r] = [msg] from (List.flatMap_singleton _ _).trans hsent, claimant_concat,
      ownerAfter_srv hcontent, ← hstands.owner]
    rcases ClientCore.owner_of_beforeSend hb hcontent with hnone | hown
    · rw [hnone, Option.none_or]
    · rw [hown, Option.some_or]
  · have hrec := received_of_post hx
    rw [Turn.received_eq_some.mpr hevent] at hrec
    cases hrec

/-- **After the Srv of a call is sent, every request that is received on its topic goes into its
callback**, as long as no Unsrv is sent. -/
theorem Reachable.reqsTo_after (h : Reachable s) (hrun : s.status = .running)
    (hlen : s.sent.length < 2 ^ 32) {la lb : List Turn} {r : Turn} (hlog : s.log = la ++ r :: lb)
    {params : TaskSrv} {msg : Msg ProtocolClient} (hx : (.srv params, msg) ∈ r.posts)
    (hno : ∀ m ∈ sentBy lb, m.content ≠ .unsrv ⟨params.msg.topic⟩) : ∀ r' ∈ lb,
      r'.reqsTo params.callbackReq = reqsOn params.msg.topic (r'.received?.bind reqOf?).toList := by
  intro r' hr'
  obtain ⟨l, l', rfl⟩ := List.append_of_mem hr'
  obtain ⟨s₀, h₀, hla⟩ := h.at_turn (la ++ r :: l) r' l' (by rw [hlog, List.append_assoc]; rfl)
  have hmem : r' ∈ s.log := by
    rw [hlog]
    exact List.mem_append_right _ (List.mem_cons_of_mem _ hr')
  have hlen₀ := (sent_length_run h₀.later).trans_lt hlen
  have hx₀ : (.srv params, msg) ∈ posts s₀.log := by
    rw [hla]
    exact List.mem_flatMap.mpr ⟨r, List.mem_append_right _ List.mem_cons_self, hx⟩
  have howner := h₀.reachable.owner_of_post h₀.running hlen₀ hla hx fun m hm => hno m (by
    rw [sentBy_append]
    exact List.mem_append_left _ hm)
  have htables := h₀.reachable.tables h₀.running
  obtain ⟨hsome, hsent⟩ := htables.reqs _ _ howner
  obtain ⟨n, hn⟩ := Option.isSome_iff_exists.mp hsome
  -- the callback under the id of the Srv is that of its call
  obtain ⟨params', msg', hx', rfl, hid⟩ := h₀.reachable.req_linked h₀.running _ _ hn
  cases h₀.reachable.posts_inj hlen₀ hx' hx₀ hid
  rw [Turn.reqsTo_eq]
  split
  · rename_i id payload hm
    have hreq : (r'.received?.bind reqOf?).toList = [(id, payload)] := by
      rw [hm]
      rfl
    rw [hreq]
    have hok := h.turns_ok hrun r' hmem
    by_cases ht : payload.topic = params.msg.topic
    · have hc : (r'.core.subscriptions.getOwner payload.topic).bind r'.core.callbacksReq =
          some params.callbackReq := by
        rw [h₀.core, ht, howner]
        exact hn
      rw [if_pos ⟨hc, Turn.isOpen_of_ok hok (Turn.received_eq_some.mp hm) hc⟩]
      simp [reqsOn, ht]
    · rw [if_neg fun hc => ht ?_]
      · simp [reqsOn, ht]
      · -- an owner with this callback is the Srv, and that is for one topic
        obtain ⟨k, hk, hcall⟩ := Option.bind_eq_some_iff.mp hc.1
        rw [h₀.core] at hk hcall
        cases h₀.reachable.req_key h₀.running hx₀ hcall
        have heq := htables.id_inj hlen₀ (htables.reqs _ _ hk).2 hsent rfl
        exact congrArg SrvMsg.topic (ProtocolClient.srv.inj (congrArg Msg.content heq))
  · rename_i hm
    have hnone : r'.received?.bind reqOf? = none := by
      refine Option.bind_eq_none_iff.mpr fun m hm' => ?_
      obtain ⟨id, content⟩ := m
      cases content with
      | req payload => exact absurd hm' (hm id payload)
      | _ => rfl
    rw [hnone]
    rfl

/-- **What goes into the callback of a service**: the requests on its topic, of all that is received
after its Srv was sent, as long as no Unsrv is sent. -/
theorem Reachable.reqs_of_call (h : Reachable s) (hrun : s.status = .running)
    (hlen : s.sent.length < 2 ^ 32) {la lb : List Turn} {r : Turn} (hlog : s.log = la ++ r :: lb)
    {params : TaskSrv} {msg : Msg ProtocolClient} (hx : (.srv params, msg) ∈ r.posts)
    (hno : ∀ m ∈ sentBy lb, m.content ≠ .unsrv ⟨params.msg.topic⟩) :
    (s.log.flatMap fun r => r.reqsTo params.callbackReq) =
      reqsOn params.msg.topic ((received lb).filterMap reqOf?) := by
  rw [hlog, List.append_cons, List.flatMap_append,
    List.flatMap_eq_nil_iff.mpr (h.reqsTo_before hlog hx), List.nil_append,
    List.flatMap_congr (h.reqsTo_after hrun hlen hlog hx hno), received, List.filterMap_filterMap,
    List.filterMap_eq_flatMap_toList]
  rw [reqsOn, List.filter_flatMap]
  rfl

end Session

end T2Bus
