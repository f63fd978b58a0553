import T2Bus.Server.Deliver

/-!
# What a task does

Every task is a change of the core of its own, and then messages delivered one after the other.

* `Core.accepted`, `Core.answered`: the request that a message accepts, the one that it answers;
* `Core.own`, `Core.sends`: a message's own change and its deliveries, the Ack apart;
  **`Exec.processMsg_eq`**, **`Exec.processTask_timeout_ok`**;
* `Core.Departs`, `Core.settled`: the clients that a task deregisters, and the pending entries it
  leaves; **`Core.pending_processTask`**, **`Core.senders_processTask`**.
-/

namespace T2Bus

/-- The Ack of a result. -/
def AckMsg.of (msgId : MsgId) : Except BusError (Option ℕ) → AckMsg
  | .ok numRecipients => ⟨msgId, none, numRecipients⟩
  | .error e => ⟨msgId, some e, none⟩

namespace Core

variable (core : Core) (env : Env)

/-- The pending entry of a request that is accepted; its id is the next message id. -/
def accepted (c : ClientId) (msg : Msg ProtocolClient) : Option PendingResponse :=
  match msg.content with
  | .req params =>
    ((core.directory.getOwner params.topic).filter fun o => (core.reach env o).isSome).map fun o =>
      ⟨msg.id, o, c⟩
  | _ => none

/-- The pending entry that a response of `c` answers. -/
def answered (c : ClientId) (params : RspMsg) : Option PendingResponse :=
  (core.pendingResponses params.reqId).filter fun p => c = 0 ∨ p.responderId = c

/-- What a message changes before anything is delivered. -/
def own (c : ClientId) (msg : Msg ProtocolClient) : Core :=
  match msg.content with
  | .sub params => { core with directory := core.directory.subscribe c params.topic }
  | .unsub params => { core with directory := (core.directory.unsubscribe c params.topic).2 }
  | .srv params => { core with directory := (core.directory.claim c params.topic).2 }
  | .unsrv params => { core with directory := (core.directory.unclaim c params.topic).2 }
  | .req _ =>
    match core.accepted env c msg with
    | some p => { core with pendingResponses := core.pendingResponses.insert core.nextMsgId p }
    | none => core
  | .rsp params =>
    match core.answered c params with
    | some _ => { core with pendingResponses := core.pendingResponses.remove params.reqId }
    | none => core
  | .pub _ | .stop | .keepAlive => core

/-- The response that answers a pending request. -/
def rspTo (p : PendingResponse) (params : RspMsg) : ClientId × ProtocolServer :=
  (p.requesterId, .rsp { reqId := p.requestId, status := params.status, payload := params.payload })

/-- What a message makes the core deliver, the Ack apart. -/
def sends (c : ClientId) (msg : Msg ProtocolClient) : List (ClientId × ProtocolServer) :=
  match msg.content with
  | .pub params =>
    (core.attempts env (env.order.arrange (core.directory.getSubscribers params.topic))).map
      fun d => (d, .pub params)
  | .req params => ((core.directory.getOwner params.topic).map fun o => (o, .req params)).toList
  | .rsp params => ((core.answered c params).map fun p => rspTo p params).toList
  | _ => []

end Core

namespace Exec

variable {env : Env} {s : Exec} {c : ClientId} {msg : Msg ProtocolClient}

/-! ## Messages and timeouts -/

/-- The state after a message's own change. -/
def withOwn (env : Env) (c : ClientId) (msg : Msg ProtocolClient) (s : Exec) : Exec :=
  { s with
    core := s.core.own env c msg
    timers := s.timers ++ ((s.core.accepted env c msg).map fun _ => s.core.nextMsgId).toList }

theorem noCount_snd (r : BusResult Unit × Exec) : (noCount r).2 = r.2 := by
  obtain ⟨r | r, s⟩ := r <;> rfl

theorem noCount_fst (r : BusResult Unit × Exec) :
    (noCount r).1 = ((r.1.map fun _ => none : BusResult (Option ℕ))).mapError .err := by
  obtain ⟨r | r, s⟩ := r <;> rfl

theorem request_snd (params : ReqMsg) (hmsg : msg.content = .req params) :
    (request env c msg.id params s).2 = (s.withOwn env c msg).deliverList env
      (s.core.sends env c msg) := by
  rw [request, withOwn, Core.own, Core.sends, hmsg]
  cases ho : s.core.directory.getOwner params.topic with
  | none => simp [Core.accepted, hmsg, ho]
  | some o =>
    cases hr : s.core.reach env o with
    | none =>
      obtain ⟨e, he⟩ := deliverResult_error hr
      simp [Core.accepted, hmsg, ho, hr, deliver_eq, he, Option.filter]
    | some conn =>
      have hacc : s.core.accepted env c msg = some ⟨msg.id, o, c⟩ := by
        simp [Core.accepted, hmsg, ho, hr, Option.filter]
      -- the delivery only takes an id, so it commutes with the new entry
      have hown : ∀ pending : Table MsgId PendingResponse,
          ({ s.core with pendingResponses := pending } : Core).afterDeliver env o =
            { s.core.bump with pendingResponses := pending } :=
        fun pending => Core.afterDeliver_of_reach hr
      simp only [hacc, ho, deliver_eq, deliverResult_ok hr, deliverList, Core.deliverAll,
        List.foldl_cons, List.foldl_nil, List.map_cons, List.map_nil, Option.map_some,
        Option.toList_some, hown]
      rfl

theorem respond_snd (params : RspMsg) :
    (respond env c params s).2 =
      ({ s with core := s.core.own env c ⟨0, .rsp params⟩ } : Exec).deliverList env
        (s.core.sends env c ⟨0, .rsp params⟩) := by
  rw [respond, Core.own, Core.sends]
  cases hp : s.core.pendingResponses params.reqId with
  | none => simp [Core.answered, hp]
  | some p =>
    by_cases hc : c = 0 ∨ p.responderId = c
    · have hans : s.core.answered c params = some p := by simp [Core.answered, hp, hc]
      have hne : ¬ (c ≠ 0 ∧ p.responderId ≠ c) := by tauto
      simp only [if_neg hne, hans, deliver_eq, Option.map_some, Option.toList_some, Core.rspTo]
      cases (Core.deliverResult _ env p.requesterId) <;> rfl
    · have hans : s.core.answered c params = none := by
        rw [Core.answered, hp]
        simpa [not_or] using hc
      have hne : c ≠ 0 ∧ p.responderId ≠ c := by tauto
      simp [if_pos hne, hans]

variable (env s c msg) in
/-- **What a message does, its Ack apart**: its own change, and deliveries. -/
theorem processContent_snd :
    (processContent env c msg s).2 = (s.withOwn env c msg).deliverList env
      (s.core.sends env c msg) := by
  obtain ⟨id, content⟩ := msg
  cases content with
  | pub params =>
    have hloop := publishLoop_snd env s (.pub params)
      (env.order.arrange (s.core.directory.getSubscribers params.topic))
    simp only [processContent, publish, withOwn, Core.own, Core.sends, Core.accepted,
      Option.map_none, Option.toList_none, List.append_nil]
    rw [← hloop]
    cases hl : publishLoop env (.pub params)
      (env.order.arrange (s.core.directory.getSubscribers params.topic)) s with
    | mk r s' => cases r <;> rfl
  | req params =>
    rw [processContent, noCount_snd]
    exact request_snd params rfl
  | rsp params =>
    rw [processContent, noCount_snd, respond_snd]
    simp [withOwn, Core.own, Core.sends, Core.accepted]
  | sub params | unsub params | srv params | unsrv params =>
    simp only [processContent, noCount_snd]
    simp [withOwn, Core.own, Core.sends, Core.accepted, subscribe, unsubscribe, serve, unserve,
      onDirectory]
  | stop | keepAlive => simp [processContent, withOwn, Core.own, Core.sends, Core.accepted]

/-- Only a publication panics, and only at id 0. -/
theorem processContent_panic :
    (processContent env c msg s).1 = .error .panic ↔ ∃ params, msg.content = .pub params ∧
      s.core.reachesZero env
        (env.order.arrange (s.core.directory.getSubscribers params.topic)) = true := by
  have hno : ∀ r : BusResult Unit × Exec, (noCount r).1 ≠ .error .panic := by
    rintro ⟨r | r, s⟩ h <;> simp [noCount] at h
  obtain ⟨id, content⟩ := msg
  cases content with
  | pub params =>
    have hloop := publishLoop_panic env s (.pub params)
      (env.order.arrange (s.core.directory.getSubscribers params.topic))
    simp only [processContent, publish, ProtocolClient.pub.injEq, exists_eq_left', ← hloop]
    cases publishLoop env (.pub params)
      (env.order.arrange (s.core.directory.getSubscribers params.topic)) s with
    | mk r s' => cases r <;> simp
  | req params | rsp params | sub params | unsub params | srv params | unsrv params =>
    exact iff_of_false (hno _) (by simp)
  | stop | keepAlive => exact iff_of_false (by simp [processContent]) (by simp)

/-- **What a message does**: its own change, deliveries, and the Ack. -/
theorem processMsg_eq {r : BusResult (Option ℕ)}
    (hr : (processContent env c msg s).1 = r.mapError .err) :
    processMsg env c msg s = (.ok (decide (msg.content = .stop)),
      (s.withOwn env c msg).deliverList env
        (s.core.sends env c msg ++ [(c, .ack (.of msg.id r))])) := by
  have hsnd := processContent_snd env s c msg
  rw [processMsg, deliverList_append, ← hsnd]
  cases hp : processContent env c msg s with
  | mk r' s' =>
    rw [hp] at hr
    cases r with
    | ok n =>
      cases hr
      simp [deliver_eq, AckMsg.of]
    | error e =>
      cases hr
      simp [deliver_eq, AckMsg.of]

variable (env s c msg) in
/-- A message's result is that of the bus, unless it panics. -/
theorem processContent_fst :
    (processContent env c msg s).1 = .error .panic ∨
      ∃ r : BusResult (Option ℕ), (processContent env c msg s).1 = r.mapError .err := by
  cases h : (processContent env c msg s).1 with
  | ok n => exact Or.inr ⟨.ok n, rfl⟩
  | error e =>
    cases e with
    | err e => exact Or.inr ⟨.error e, rfl⟩
    | panic => exact Or.inl rfl

variable (env s c) in
theorem respond_fst (params : RspMsg) :
    (respond env c params s).1 =
      match s.core.answered c params with
      | some p => (s.core.deliverResult env p.requesterId).map fun _ => ()
      | none => .error .invalidRequestId := by
  rw [respond]
  cases hp : s.core.pendingResponses params.reqId with
  | none => simp [Core.answered, hp]
  | some p =>
    by_cases hc : c = 0 ∨ p.responderId = c
    · have hans : s.core.answered c params = some p := by simp [Core.answered, hp, hc]
      have hne : ¬ (c ≠ 0 ∧ p.responderId ≠ c) := by tauto
      simp only [if_neg hne, hans, deliver_eq, Core.deliverResult]
      cases s.core.protocolServerSenders p.requesterId with
      | none => rfl
      | some conn => by_cases ho : env.isOpen conn <;> simp [ho, Except.map]
    · have hans : s.core.answered c params = none := by
        rw [Core.answered, hp]
        simpa [not_or] using hc
      have hne : c ≠ 0 ∧ p.responderId ≠ c := by tauto
      simp [if_pos hne, hans]

theorem processTask_timeout_snd (k : MsgId) :
    (processTask env (.requestTimeout k) s).2 =
      ({ s with core := s.core.own env 0 ⟨0, .rsp (timeoutRsp k)⟩ } : Exec).deliverList env
        (s.core.sends env 0 ⟨0, .rsp (timeoutRsp k)⟩) := by
  rw [← respond_snd, processTask]
  cases respond env 0 (timeoutRsp k) s with
  | mk r s' => cases r <;> rfl

/-- **A timeout succeeds exactly when it answers a pending request of a client it can reach.** -/
theorem processTask_timeout_ok (k : MsgId) :
    (processTask env (.requestTimeout k) s).1 = .ok false ↔
      ∃ p conn, s.core.pendingResponses k = some p ∧
        s.core.reach env p.requesterId = some conn := by
  have hfst := respond_fst env s 0 (timeoutRsp k)
  have hans : s.core.answered 0 (timeoutRsp k) = s.core.pendingResponses k := by
    rw [Core.answered, timeoutRsp]
    cases s.core.pendingResponses k <;> simp [Option.filter]
  rw [hans] at hfst
  have hok : (processTask env (.requestTimeout k) s).1 = .ok false ↔
      (respond env 0 (timeoutRsp k) s).1 = .ok () := by
    rw [processTask]
    cases respond env 0 (timeoutRsp k) s with
    | mk r s' => cases r <;> simp
  rw [hok, hfst]
  cases s.core.pendingResponses k with
  | none => simp
  | some p =>
    cases hr : s.core.reach env p.requesterId with
    | none =>
      obtain ⟨e, he⟩ := deliverResult_error hr
      simp [he, hr, Except.map]
    | some conn => simp [deliverResult_ok hr, hr, Except.map]

end Exec

/-! ## All tasks -/

/-- The client that gets an Ack. -/
def Task.ackTo : Task → List ClientId
  | .message c _ => [c]
  | .register _ | .deregister _ | .requestTimeout _ => []

/-- The client stub that a task spawns. -/
def Task.stubs (core : Core) : Task → List (ClientId × Conn)
  | .register transport => [(core.nextClientId, transport)]
  | .message _ _ | .deregister _ | .requestTimeout _ => []

namespace Core

variable (core : Core) (env : Env)

/-- What a task changes before anything is delivered. -/
def ownTask : Task → Core
  | .register transport =>
    { core with
      nextClientId := core.nextClientId + 1
      protocolServerSenders := core.protocolServerSenders.insert core.nextClientId transport }
  | .deregister d => core.deregisterClient d
  | .message c msg => core.own env c msg
  | .requestTimeout k => core.own env 0 ⟨0, .rsp (Exec.timeoutRsp k)⟩

/-- What a task makes the core deliver, the Ack apart. -/
def taskSends : Task → List (ClientId × ProtocolServer)
  | .message c msg => core.sends env c msg
  | .requestTimeout k => core.sends env 0 ⟨0, .rsp (Exec.timeoutRsp k)⟩
  | .register _ | .deregister _ => []

/-- The clients that a task delivers to. -/
def recipients (task : Task) : List ClientId :=
  (core.taskSends env task).map Prod.fst ++ task.ackTo

@[simp] theorem recipients_register (transport : Conn) :
    core.recipients env (.register transport) = [] := rfl

@[simp] theorem recipients_deregister (d : ClientId) :
    core.recipients env (.deregister d) = [] := rfl

/-- The request that a task answers, and the response. -/
def answers : Task → Option (PendingResponse × RspMsg)
  | .message c msg =>
    match msg.content with
    | .rsp params => (core.answered c params).map fun p => (p, params)
    | _ => none
  | .requestTimeout k => (core.pendingResponses k).map fun p => (p, Exec.timeoutRsp k)
  | .register _ | .deregister _ => none

/-- The request that a task accepts. -/
def accepts : Task → Option PendingResponse
  | .message c msg => core.accepted env c msg
  | _ => none

end Core

namespace Exec

variable {env : Env} {s : Exec} {task : Task} {stop : Bool}

/-- What a task has done before anything is delivered. -/
def ownExec (env : Env) (task : Task) (core : Core) : Exec where
  core := core.ownTask env task
  out := []
  timers := ((core.accepts env task).map fun _ => core.nextMsgId).toList
  stubs := task.stubs core

/-- **What a task does**: its own change, and deliveries, at last that of its Ack. -/
theorem processTask_eq (env : Env) (task : Task) (core : Core) :
    ∃ acks : List (ClientId × AckMsg),
      (processTask env task (.start core)).2 = (ownExec env task core).deliverList env
        (core.taskSends env task ++ acks.map fun a => (a.1, .ack a.2)) ∧
      (acks = [] ∨ ∃ c msg r, task = .message c msg ∧ acks = [(c, .of msg.id r)]) ∧
      ((∃ stop, (processTask env task (.start core)).1 = .ok stop) →
        acks.map Prod.fst = task.ackTo) := by
  cases task with
  | register conn =>
    refine ⟨[], ?_, .inl rfl, fun _ => rfl⟩
    simp [Core.taskSends, ownExec, processTask, registerClient, Core.ownTask, Core.accepts,
      Task.stubs, Exec.start]
  | deregister d =>
    refine ⟨[], ?_, .inl rfl, fun _ => rfl⟩
    simp [Core.taskSends, ownExec, processTask, Core.ownTask, Core.accepts, Task.stubs, Exec.start]
  | requestTimeout k =>
    refine ⟨[], ?_, .inl rfl, fun _ => rfl⟩
    rw [processTask_timeout_snd]
    simp [Core.taskSends, ownExec, Core.ownTask, Core.accepts, Task.stubs, Exec.start]
  | message c msg =>
    rw [processTask]
    rcases processContent_fst env (.start core) c msg
      with hp | ⟨r, hr⟩
    · refine ⟨[], ?_, .inl rfl, ?_⟩
      · have hsnd := processContent_snd env (.start core) c msg
        rw [processMsg]
        cases hc : processContent env c msg (.start core) with
        | mk r' s' =>
          rw [hc] at hp hsnd
          cases hp
          simpa [withOwn, Exec.start, ownExec, Core.taskSends, Core.ownTask, Core.accepts,
            Task.stubs] using hsnd
      · rintro ⟨stop, h⟩
        rw [processMsg] at h
        cases hc : processContent env c msg (.start core) with
        | mk r' s' =>
          rw [hc] at hp h
          cases hp
          simp at h
    · refine ⟨[(c, .of msg.id r)], ?_, .inr ⟨c, msg, r, rfl, rfl⟩, fun _ => rfl⟩
      rw [processMsg_eq hr]
      simp [withOwn, Exec.start, ownExec, Core.taskSends, Core.ownTask, Core.accepts, Task.stubs]

/-- **The core after a task**: the task's own change, and its deliveries. -/
theorem processTask_core {core : Core} (h : (processTask env task (.start core)).1 = .ok stop) :
    (processTask env task (.start core)).2.core =
      (core.ownTask env task).deliverAll env (core.recipients env task) := by
  obtain ⟨acks, heq, -, hacks⟩ := processTask_eq env task core
  rw [heq, Core.recipients, ← hacks ⟨stop, h⟩]
  simp [deliverList, ownExec, Function.comp_def]

end Exec

namespace Core

variable {core : Core} {env : Env} {task : Task} {stop : Bool}

/-- Nothing but a registration or a deregistration touches the senders before the deliveries. -/
theorem own_senders (c : ClientId) (msg : Msg ProtocolClient) :
    (core.own env c msg).protocolServerSenders = core.protocolServerSenders := by
  rw [own]
  split <;> first | rfl | (split <;> rfl)

theorem own_nextMsgId (c : ClientId) (msg : Msg ProtocolClient) :
    (core.own env c msg).nextMsgId = core.nextMsgId := by
  rw [own]
  split <;> first | rfl | (split <;> rfl)

theorem own_nextClientId (c : ClientId) (msg : Msg ProtocolClient) :
    (core.own env c msg).nextClientId = core.nextClientId := by
  rw [own]
  split <;> first | rfl | (split <;> rfl)

theorem own_sound (h : core.directory.Sound) (c : ClientId) {msg : Msg ProtocolClient}
    (hmsg : msg.content.Valid) : (core.own env c msg).directory.Sound := by
  obtain ⟨id, content⟩ := msg
  cases content with
  | sub params => exact h.apply (.subscribe c params.topic) (hmsg _ rfl)
  | unsub params => exact h.apply (.unsubscribe c params.topic) (hmsg _ rfl)
  | srv params => exact h.apply (.claim c params.topic) (hmsg _ rfl)
  | unsrv params => exact h.apply (.unclaim c params.topic) (hmsg _ rfl)
  | req params | rsp params =>
    simp only [own]
    split <;> exact h
  | pub params | stop | keepAlive => exact h

variable (core env task) in
/-- The task deregisters the client. -/
def Departs (d : ClientId) : Prop :=
  task = .deregister d ∨ core.Drops env (core.recipients env task) d

variable (core env task) in
/-- The pending entries with the accepted request and without the answered one. -/
def settled : Table MsgId PendingResponse :=
  match core.accepts env task, core.answers task with
  | some p, _ => core.pendingResponses.insert core.nextMsgId p
  | none, some (_, params) => core.pendingResponses.remove params.reqId
  | none, none => core.pendingResponses

theorem own_pending (c : ClientId) (msg : Msg ProtocolClient) :
    (core.own env c msg).pendingResponses = core.settled env (.message c msg) := by
  obtain ⟨id, content⟩ := msg
  cases content with
  | req params =>
    simp only [own, settled, accepts, answers]
    cases core.accepted env c ⟨id, .req params⟩ <;> rfl
  | rsp params =>
    simp only [own, settled, accepts, answers, accepted]
    cases core.answered c params <;> rfl
  | _ => rfl

theorem own_pending_timeout (k : MsgId) :
    (core.own env 0 ⟨0, .rsp (Exec.timeoutRsp k)⟩).pendingResponses =
      core.settled env (.requestTimeout k) := by
  simp only [own, settled, accepts, answers, answered, Exec.timeoutRsp]
  cases core.pendingResponses k <;> simp [Option.filter]

/-- **The pending entries after a task** are those it settles, without the clients it deregisters. -/
theorem pending_processTask (h : (Exec.processTask env task (.start core)).1 = .ok stop)
    {k : MsgId} {p : PendingResponse} :
    (Exec.processTask env task (.start core)).2.core.pendingResponses k = some p ↔
      core.settled env task k = some p ∧ ¬ core.Departs env task p.requesterId ∧
        ¬ core.Departs env task p.responderId := by
  rw [Exec.processTask_core h, deliverAll_pending]
  cases task with
  | register conn => simp [ownTask, settled, accepts, answers, Departs]
  | deregister d =>
    simp only [ownTask, settled, accepts, answers, Departs, recipients_deregister, not_drops_nil,
      deregisterClient, Table.retain_eq_some, Task.deregister.injEq, Bool.and_eq_true, bne_iff_ne,
      or_false, not_false_eq_true, and_true, ne_eq, @eq_comm _ d]
  | message c msg =>
    simp [ownTask, own_pending, Departs, Drops, Closed, own_senders]
  | requestTimeout k' =>
    simp [ownTask, own_pending_timeout, Departs, Drops, Closed, own_senders]

variable (core task) in
/-- The senders with the client that the task registers. -/
def settledSenders : Table ClientId Conn :=
  match task with
  | .register conn => core.protocolServerSenders.insert core.nextClientId conn
  | _ => core.protocolServerSenders

theorem settledSenders_cases {c : ClientId} {conn : Conn}
    (h : core.settledSenders task c = some conn) :
    (task = .register conn ∧ c = core.nextClientId) ∨ core.protocolServerSenders c = some conn := by
  cases task with
  | register conn' =>
    rw [settledSenders, Table.insert_apply] at h
    split_ifs at h with hc
    · cases h
      exact Or.inl ⟨rfl, hc⟩
    · exact Or.inr h
  | _ => exact Or.inr h

/-- **The senders after a task**. -/
theorem senders_processTask (h : (Exec.processTask env task (.start core)).1 = .ok stop)
    {d : ClientId} {conn : Conn} :
    (Exec.processTask env task (.start core)).2.core.protocolServerSenders d = some conn ↔
      core.settledSenders task d = some conn ∧ ¬ core.Departs env task d := by
  rw [Exec.processTask_core h, deliverAll_senders]
  cases task with
  | register conn' => simp [ownTask, settledSenders, Departs]
  | deregister d' =>
    simp only [ownTask, settledSenders, Departs, recipients_deregister, not_drops_nil, if_false,
      deregisterClient, Table.remove_eq_some, Task.deregister.injEq, or_false, @eq_comm _ d',
      and_comm, ne_eq]
  | message c msg =>
    simp [ownTask, settledSenders, Departs, Drops, Closed, own_senders, and_comm]
  | requestTimeout k' =>
    simp [ownTask, settledSenders, Departs, Drops, Closed, own_senders, and_comm]

end Core

/-! ## Responses and requests in the output -/

def ProtocolServer.isRsp : ProtocolServer → Bool
  | .rsp _ => true
  | .pub _ | .req _ | .ack _ => false

namespace Core

variable {core : Core} {env : Env} {task : Task}

theorem own_reach (c d : ClientId) (msg : Msg ProtocolClient) :
    (core.own env c msg).reach env d = core.reach env d := by
  rw [reach, own_senders, reach]

theorem filter_isRsp_deliveries {l : List (ClientId × ProtocolServer)}
    (h : ∀ x ∈ l, x.2.isRsp = false) :
    (core.deliveries env l).filter (·.msg.content.isRsp) = [] := by
  refine List.filter_eq_nil_iff.mpr fun d hd => ?_
  rw [h _ (mem_deliveries hd).1]
  exact Bool.false_ne_true

/-- The delivery of the response that a task gives. -/
def rspDelivery (core : Core) (env : Env) (a : PendingResponse × RspMsg) : Delivery :=
  ⟨a.1.requesterId, ⟨core.nextMsgId, (rspTo a.1 a.2).2⟩, core.reach env a.1.requesterId⟩

theorem filter_isRsp_own (c : ClientId) (params : RspMsg) (id : MsgId) :
    ((core.own env c ⟨id, .rsp params⟩).deliveries env
      (core.sends env c ⟨id, .rsp params⟩)).filter (·.msg.content.isRsp) =
      ((core.answered c params).map fun p => core.rspDelivery env (p, params)).toList := by
  simp only [sends]
  cases core.answered c params with
  | none => rfl
  | some p =>
    simp [deliveries, rspTo, ProtocolServer.isRsp, rspDelivery, own_nextMsgId, own_reach]

/-- **The responses that a task delivers**: the one to the request it answers. -/
theorem rsps_processTask :
    (Exec.processTask env task (.start core)).2.out.filter (·.msg.content.isRsp) =
      ((core.answers task).map (core.rspDelivery env)).toList := by
  obtain ⟨acks, heq, -⟩ := Exec.processTask_eq env task core
  have hacks : ∀ x ∈ acks.map fun a : ClientId × AckMsg => (a.1, ProtocolServer.ack a.2),
      x.2.isRsp = false := by
    intro x hx
    obtain ⟨a, -, rfl⟩ := List.mem_map.mp hx
    rfl
  rw [heq, Exec.deliverList, Exec.ownExec, List.nil_append, deliveries_append, List.filter_append,
    filter_isRsp_deliveries hacks, List.append_nil]
  cases task with
  | register conn => rfl
  | deregister d => rfl
  | requestTimeout k =>
    have hans : core.answered 0 (Exec.timeoutRsp k) = core.pendingResponses k := by
      rw [answered, Exec.timeoutRsp]
      cases core.pendingResponses k <;> simp [Option.filter]
    rw [taskSends, ownTask, filter_isRsp_own, hans, answers, Option.map_map]
    rfl
  | message c msg =>
    obtain ⟨id, content⟩ := msg
    rw [taskSends, ownTask]
    cases content with
    | rsp params =>
      rw [filter_isRsp_own, answers, Option.map_map]
      rfl
    | pub params => exact filter_isRsp_deliveries (by simp [sends, ProtocolServer.isRsp])
    | req params => exact filter_isRsp_deliveries (by simp [sends, ProtocolServer.isRsp])
    | _ => rfl

/-- What it means that a task accepts a request. -/
theorem accepts_eq_some {p : PendingResponse} :
    core.accepts env task = some p ↔
      ∃ params, task = .message p.requesterId ⟨p.requestId, .req params⟩ ∧
        core.directory.getOwner params.topic = some p.responderId ∧
        (core.reach env p.responderId).isSome := by
  constructor
  · intro h
    obtain _ | _ | ⟨c, id, content⟩ | _ := task
    case message =>
      cases content with
      | req params =>
        obtain ⟨o, ho, rfl⟩ := Option.map_eq_some_iff.mp h
        obtain ⟨ho, hr⟩ := Option.filter_eq_some_iff.mp ho
        exact ⟨params, rfl, ho, hr⟩
      | _ => cases h
    all_goals cases h
  · rintro ⟨params, rfl, ho, hr⟩
    simp [accepts, accepted, ho, hr, Option.filter]

/-- What it means that a task answers a request. -/
theorem answers_eq_some {p : PendingResponse} {params : RspMsg} :
    core.answers task = some (p, params) ↔
      core.pendingResponses params.reqId = some p ∧
        ((∃ c id, task = .message c ⟨id, .rsp params⟩ ∧ (c = 0 ∨ c = p.responderId)) ∨
          task = .requestTimeout params.reqId ∧ params = Exec.timeoutRsp params.reqId) := by
  constructor
  · intro h
    obtain _ | _ | ⟨c, id, content⟩ | k := task
    case message =>
      cases content with
      | rsp params' =>
        obtain ⟨p', hp, he⟩ := Option.map_eq_some_iff.mp h
        cases he
        obtain ⟨hp, hc⟩ := Option.filter_eq_some_iff.mp hp
        exact ⟨hp, Or.inl ⟨c, id, rfl, (of_decide_eq_true hc).imp_right Eq.symm⟩⟩
      | _ => cases h
    case requestTimeout =>
      obtain ⟨p', hp, he⟩ := Option.map_eq_some_iff.mp h
      cases he
      exact ⟨hp, Or.inr ⟨rfl, rfl⟩⟩
    all_goals cases h
  · rintro ⟨hp, ⟨c, id, rfl, hc⟩ | ⟨rfl, hparams⟩⟩
    · have hc : c = 0 ∨ p.responderId = c := hc.imp_right Eq.symm
      simp [answers, answered, hp, hc, Option.filter]
    · rw [answers, hp, hparams]
      rfl

end Core

end T2Bus
