import T2Bus.Client.Turn
import T2Bus.Server.Run

/-!
# Runs of a client

The client core with its task queue, and the application that calls the API and holds the handles.

* `Handle`: what becomes of a `subscribe` call; the `RequestSubscription` objects are the list of
  their topics;
* `Session`, `Session.Act`, `Session.step`; `Turn`: a turn of the loop with what it found;
* `Session.quiet_or_turned`: an action is one of the application, or a turn;
  `Turn.exec_ok`: a turn that goes on has sent a task, or received a message;
* `Session.handles_step`: how the handles change;
* **`Session.Reachable.at_turn`**: a turn was taken in a state of the session.
-/

namespace T2Bus

/-- How far a `subscribe` call has come. -/
inductive Hold where
  /-- for its Ack -/
  | waiting
  | held
  /-- The handle was dropped, or the call returned without one. -/
  | released
  deriving DecidableEq

/-- A `subscribe` call, and the `SubscriptionInto` that it returned. -/
structure Handle where
  topic : Topic
  /-- The message id of the Sub, once it is sent. -/
  id : Option MsgId
  hold : Hold
  deriving DecidableEq

/-- The handles of the application, by API call. -/
abbrev Handles := Table Callback Handle

namespace Handles

/-- The Sub of the call is sent. -/
def markSent (handles : Handles) (call : Callback) (id : MsgId) : Handles :=
  match handles call with
  | some handle => handles.insert call { handle with id := some id }
  | none => handles

/-- A call whose Sub was sent under `k` for `t`, and whose handle was not released. -/
def Live (handles : Handles) (k : MsgId) (t : Topic) : Prop :=
  ∃ call handle, handles call = some handle ∧ handle.topic = t ∧ handle.id = some k ∧
    handle.hold ≠ .released

end Handles

/-- The topic of a message is valid: the wire decoder has checked it. -/
def Event.Valid : Event → Prop
  | .msg ⟨_, .pub payload⟩ => payload.topic.Valid
  | .msg ⟨_, .req payload⟩ => payload.topic.Valid
  | .msg ⟨_, .rsp _⟩ | .msg ⟨_, .ack _⟩ | .lost _ | .task _ | .closed | .tick => True

instance : (event : Event) → Decidable event.Valid
  | .msg ⟨_, .pub payload⟩ => inferInstanceAs (Decidable payload.topic.Valid)
  | .msg ⟨_, .req payload⟩ => inferInstanceAs (Decidable payload.topic.Valid)
  | .msg ⟨_, .rsp _⟩ | .msg ⟨_, .ack _⟩ | .lost _ | .task _ | .closed | .tick =>
    inferInstanceAs (Decidable True)

/-- A turn of the loop, with what it found. -/
structure Turn where
  core : ClientCore
  handles : Handles
  env : ClientEnv
  event : Event

namespace Turn

variable (r : Turn)

/-- The result of the turn, the core afterwards, and what left it. -/
def exec : Except Fault Bool × ClientExec := ClientExec.turn r.env r.event (.start r.core)

/-- The task that the turn sends. -/
def sends? : Option ClientTask :=
  match r.event with
  | .task .stop => none
  | .task task => some task
  | .tick => some .keepAlive
  | .msg _ | .lost _ | .closed => none

/-- The handles after the turn. -/
def handlesAfter : Handles :=
  match r.event with
  | .task (.sub params) => r.handles.markSent params.callbackPub (r.core.nextMsgId + 1)
  | _ => r.handles

/-- The message that the turn received. -/
def received? : Option (Msg ProtocolServer) :=
  match r.event with
  | .msg msg => some msg
  | .lost _ | .task _ | .closed | .tick => none

/-- The Ack without error that the turn put into the callback of a call. -/
def acks (call : Callback) : Bool :=
  r.exec.2.calls.any fun
    | .ack callback payload => decide (callback = call) && payload.err.isNone
    | .rsp _ _ | .pub _ _ | .req _ _ _ => false

end Turn

structure Session where
  core : ClientCore
  tasks : List ClientTask
  /-- The number of API calls so far. -/
  calls : ℕ
  handles : Handles
  /-- The topics of the `RequestSubscription` objects that are not dropped. -/
  serves : List Topic
  /-- The callbacks whose receiver is gone. -/
  closed : List Callback
  status : Status
  /-- The messages that went into the transport, oldest first. -/
  sent : List (Msg ProtocolClient)
  /-- The turns, oldest first. -/
  log : List Turn

namespace Session

inductive Act where
  | publish (msg : PubMsg) (valid : msg.topic.Valid)
  | subscribe (topic : Topic) (valid : topic.Valid)
  | request (msg : ReqMsg) (valid : msg.topic.Valid)
  | respond (msg : RspMsg)
  | serve (topic : Topic) (valid : topic.Valid)
  | stopBus
  | stop
  /-- A `subscribe` call gets its Ack, and returns the handle. -/
  | acked (call : Callback)
  /-- A `subscribe` call returns an error, or is dropped. -/
  | giveUp (call : Callback)
  /-- The application drops the handle of a subscription. -/
  | dropHandle (call : Callback)
  /-- A `RequestSubscription` is dropped, by the application or by a `serve` call that fails. -/
  | dropServe (topic : Topic)
  /-- The receiver of a callback goes: it was dropped, or its forwarding task has ended. -/
  | close (callback : Callback)
  | turn (event : Event) (valid : event.Valid) (order : Order)
      (transport : Msg ProtocolClient → BusResult Unit)

def init : Session where
  core := .new
  tasks := []
  calls := 0
  handles := .empty
  serves := []
  closed := []
  status := .running
  sent := []
  log := []

def enqueue (s : Session) (task : ClientTask) : Session := { s with tasks := s.tasks ++ [task] }

/-- An API call: its callbacks have the call's number. -/
def call (s : Session) (task : Callback → ClientTask) : Session :=
  { s.enqueue (task s.calls) with calls := s.calls + 1 }

/-- The tasks that are left when a turn begins; a turn begins with the first one. -/
def tasksAfter (tasks : List ClientTask) : Event → Option (List ClientTask)
  | .task task => if tasks.head? = some task then some tasks.tail else none
  | .closed => if tasks = [] then some [] else none
  | .msg _ | .lost _ | .tick => some tasks

/-- What a turn would find. -/
def turn (s : Session) (event : Event) (order : Order)
    (transport : Msg ProtocolClient → BusResult Unit) : Turn :=
  ⟨s.core, s.handles, ⟨fun callback => decide (callback ∉ s.closed), order, transport⟩, event⟩

/-- The session after a turn. -/
def turned (s : Session) (tasks : List ClientTask) (r : Turn) : Session :=
  { s with
    core := r.exec.2.core
    tasks := tasks
    handles := r.handlesAfter
    status := .of r.exec.1
    sent := s.sent ++ r.exec.2.sent
    log := s.log ++ [r] }

/-- An action of a running session. -/
def stepRunning (s : Session) : Act → Option Session
  | .publish msg _ => some (s.call fun call => .pub ⟨msg, call⟩)
  | .subscribe topic _ =>
    some { s.call fun call => .sub ⟨⟨topic⟩, call, call⟩ with
      handles := s.handles.insert s.calls ⟨topic, none, .waiting⟩ }
  | .request msg _ => some (s.call fun call => .req ⟨msg, call, call⟩)
  | .respond msg => some (s.call fun call => .rsp ⟨msg, call⟩)
  | .serve topic _ =>
    some { s.call fun call => .srv ⟨⟨topic⟩, call, call⟩ with serves := topic :: s.serves }
  | .stopBus => some (s.call fun call => .stopBus ⟨call⟩)
  | .stop => some (s.enqueue .stop)
  | .acked call =>
    match s.handles call with
    | some ⟨topic, some id, .waiting⟩ =>
      if s.log.any fun r => r.acks call then
        some { s with handles := s.handles.insert call ⟨topic, some id, .held⟩ }
      else none
    | _ => none
  | .giveUp call =>
    match s.handles call with
    | some ⟨topic, id, .waiting⟩ =>
      some { s with handles := s.handles.insert call ⟨topic, id, .released⟩ }
    | _ => none
  | .dropHandle call =>
    match s.handles call with
    | some ⟨topic, id, .held⟩ =>
      some { s.enqueue (.unsub ⟨⟨topic⟩⟩) with
        handles := s.handles.insert call ⟨topic, id, .released⟩ }
    | _ => none
  | .dropServe topic =>
    if topic ∈ s.serves then
      some { s.enqueue (.unsrv ⟨⟨topic⟩⟩) with serves := s.serves.erase topic }
    else none
  | .close callback => some { s with closed := callback :: s.closed }
  | .turn event _ order transport =>
    (tasksAfter s.tasks event).map fun tasks => s.turned tasks (s.turn event order transport)

def step (s : Session) (act : Act) : Option Session :=
  if s.status = .running then s.stepRunning act else none

/-- The states of a client. -/
def Reachable (s : Session) : Prop := Lts.Reachable step init s

/-! ## What an action does -/

variable {s s' : Session} {act : Act}

theorem step_eq_some : s.step act = some s' ↔ s.status = .running ∧ s.stepRunning act = some s' := by
  rw [step]
  split_ifs with h <;> simp [h]

/-- How the `RequestSubscription` objects change with the task that is queued. -/
def ServesAfter (serves serves' : List Topic) : ClientTask → Prop
  | .srv params => serves' = params.msg.topic :: serves
  | .unsrv params => params.msg.topic ∈ serves ∧ serves' = serves.erase params.msg.topic
  | _ => serves' = serves

/-- What the API calls have left: all topics are valid, and a queued Sub belongs to a call on its
topic. -/
structure Calls (s : Session) : Prop where
  subs : ∀ params, .sub params ∈ s.tasks → params.callbackPub < s.calls ∧
    ∃ handle, s.handles params.callbackPub = some handle ∧ handle.topic = params.msg.topic
  handles : ∀ call handle, s.handles call = some handle → handle.topic.Valid
  serves : ∀ t ∈ s.serves, t.Valid
  tasks : ∀ task ∈ s.tasks, task.Valid

/-- What the application does: it queues at most one task, and makes no handle of its own. -/
structure Quiet (s s' : Session) : Prop where
  core : s'.core = s.core
  status : s'.status = s.status
  sent : s'.sent = s.sent
  log : s'.log = s.log
  tasks : (s'.tasks = s.tasks ∧ s'.serves = s.serves) ∨
    ∃ task, s'.tasks = s.tasks ++ [task] ∧ ServesAfter s.serves s'.serves task
  live : ∀ k t, s'.handles.Live k t → s.handles.Live k t
  calls : s.Calls → s'.Calls

end Session

namespace Handles

variable {handles : Handles} {call : Callback} {handle : Handle} {k id : MsgId} {t : Topic}

theorem live_insert (h : Live (Table.insert handles call handle) k t) :
    (handle.topic = t ∧ handle.id = some k ∧ handle.hold ≠ .released) ∨ handles.Live k t := by
  obtain ⟨call', handle', hc, h⟩ := h
  rw [Table.insert_apply] at hc
  split_ifs at hc
  · cases hc
    exact Or.inl h
  · exact Or.inr ⟨call', handle', hc, h⟩

theorem live_markSent (h : (handles.markSent call id).Live k t) :
    (k = id ∧ ∃ handle, handles call = some handle ∧ handle.topic = t) ∨ handles.Live k t := by
  rw [markSent] at h
  cases hc : handles call with
  | none =>
    rw [hc] at h
    exact Or.inr h
  | some handle =>
    rw [hc] at h
    rcases live_insert h with ⟨ht, hk, -⟩ | h
    · exact Or.inl ⟨(Option.some.inj hk).symm, handle, rfl, ht⟩
    · exact Or.inr h

/-- The topic of a call stays. -/
theorem topic_markSent {call' : Callback} (h : ∃ handle, handles call' = some handle ∧
    handle.topic = t) : ∃ handle, handles.markSent call id call' = some handle ∧
      handle.topic = t := by
  obtain ⟨handle, hc, ht⟩ := h
  rw [markSent]
  cases hcall : handles call with
  | none => exact ⟨handle, hc, ht⟩
  | some handle' =>
    simp only [Table.insert_apply]
    split_ifs with he
    · rw [he, hcall] at hc
      cases hc
      exact ⟨_, rfl, ht⟩
    · exact ⟨handle, hc, ht⟩

theorem topic_of_markSent {call' : Callback} (h : handles.markSent call id call' = some handle) :
    ∃ old, handles call' = some old ∧ old.topic = handle.topic := by
  rw [markSent] at h
  cases hcall : handles call with
  | none =>
    rw [hcall] at h
    exact ⟨handle, h, rfl⟩
  | some old =>
    simp only [hcall, Table.insert_apply] at h
    split_ifs at h with he
    · cases h
      exact ⟨old, he ▸ hcall, rfl⟩
    · exact ⟨handle, h, rfl⟩

end Handles

namespace Session

variable {s s' : Session} {act : Act}

/-- An API call that queues a task other than a Sub. -/
theorem quiet_call (task : ClientTask) (hv : task.Valid) (ht : ∀ params, task ≠ .sub params)
    {serves : List Topic} (hs : ServesAfter s.serves serves task)
    (hvs : (∀ t ∈ s.serves, t.Valid) → ∀ t ∈ serves, t.Valid) {calls : ℕ} (hc : s.calls ≤ calls) :
    Quiet s { s.enqueue task with calls := calls, serves := serves } where
  core := rfl
  status := rfl
  sent := rfl
  log := rfl
  tasks := Or.inr ⟨_, rfl, hs⟩
  live _ _ h := h
  calls h := by
    refine ⟨fun params hm => ?_, h.handles, hvs h.serves, fun task' hm => ?_⟩
    · rcases List.mem_append.mp hm with hm | hm
      · obtain ⟨hlt, hh⟩ := h.subs params hm
        exact ⟨hlt.trans_le hc, hh⟩
      · exact absurd (List.mem_singleton.mp hm).symm (ht params)
    · rcases List.mem_append.mp hm with hm | hm
      · exact h.tasks task' hm
      · rw [List.mem_singleton.mp hm]
        exact hv

/-- A handle moves on; if it is dropped, an Unsub is queued. -/
theorem quiet_handle {call : Callback} {handle : Handle} (hold : Hold)
    (hc : s.handles call = some handle) (hh : hold ≠ .released → handle.hold ≠ .released)
    {tasks : List ClientTask}
    (htasks : tasks = s.tasks ∨ tasks = s.tasks ++ [.unsub ⟨⟨handle.topic⟩⟩]) :
    Quiet s { s with
      handles := s.handles.insert call { handle with hold := hold }, tasks := tasks } where
  core := rfl
  status := rfl
  sent := rfl
  log := rfl
  tasks := htasks.imp (fun h => ⟨h, rfl⟩) fun h => ⟨.unsub ⟨⟨handle.topic⟩⟩, h, rfl⟩
  live k t h := by
    rcases Handles.live_insert h with ⟨h₁, h₂, h₃⟩ | h
    · exact ⟨call, handle, hc, h₁, h₂, hh h₃⟩
    · exact h
  calls h := by
    have hmem : ∀ task, task ∈ tasks → task ∈ s.tasks ∨ task = .unsub ⟨⟨handle.topic⟩⟩ := by
      intro task hm
      rcases htasks with rfl | rfl
      · exact Or.inl hm
      · exact (List.mem_append.mp hm).imp_right List.mem_singleton.mp
    refine ⟨fun params hm => ?_, fun call' handle' hh' => ?_, h.serves, fun task hm => ?_⟩
    · obtain ⟨hlt, old, hold, htopic⟩ := h.subs params ((hmem _ hm).resolve_right (by simp))
      refine ⟨hlt, ?_⟩
      simp only [Table.insert_apply]
      split_ifs with he
      · rw [he, hc] at hold
        cases hold
        exact ⟨_, rfl, htopic⟩
      · exact ⟨old, hold, htopic⟩
    · simp only [Table.insert_apply] at hh'
      split_ifs at hh'
      · cases hh'
        exact h.handles call handle hc
      · exact h.handles call' handle' hh'
    · rcases hmem _ hm with hm | rfl
      · exact h.tasks task hm
      · rintro content ⟨rfl⟩ t ⟨rfl⟩
        exact h.handles call handle hc

/-- A `subscribe` call. -/
theorem quiet_subscribe {topic : Topic} (hv : topic.Valid) :
    Quiet s { s.call fun call => .sub ⟨⟨topic⟩, call, call⟩ with
      handles := s.handles.insert s.calls ⟨topic, none, .waiting⟩ } where
  core := rfl
  status := rfl
  sent := rfl
  log := rfl
  tasks := Or.inr ⟨_, rfl, rfl⟩
  live k t h := (Handles.live_insert h).resolve_left (by simp)
  calls h := by
    refine ⟨fun params hm => ?_, fun call handle hh => ?_, h.serves, fun task hm => ?_⟩
    · rcases List.mem_append.mp hm with hm | hm
      · obtain ⟨hlt, hh⟩ := h.subs params hm
        refine ⟨hlt.trans (Nat.lt_succ_self _), ?_⟩
        -- the new call has a number of its own
        simp only [Table.insert_of_ne hlt.ne]
        exact hh
      · cases List.mem_singleton.mp hm
        exact ⟨Nat.lt_succ_self _, _, Table.insert_self _ _ _, rfl⟩
    · simp only [Table.insert_apply] at hh
      split_ifs at hh
      · cases hh
        exact hv
      · exact h.handles call handle hh
    · rcases List.mem_append.mp hm with hm | hm
      · exact h.tasks task hm
      · rw [List.mem_singleton.mp hm]
        rintro content ⟨rfl⟩ t ⟨rfl⟩
        exact hv

/-! ### The actions that a session may refuse -/

theorem step_acked {call : Callback} (h : s.step (.acked call) = some s') :
    ∃ topic id, s.handles call = some ⟨topic, some id, .waiting⟩ ∧
      (s.log.any fun r => r.acks call) = true ∧
      s' = { s with handles := s.handles.insert call ⟨topic, some id, .held⟩ } := by
  obtain ⟨-, h⟩ := step_eq_some.mp h
  rw [stepRunning] at h
  split at h
  · rename_i topic id hc
    split_ifs at h with hack
    cases h
    exact ⟨topic, id, hc, hack, rfl⟩
  · cases h

theorem step_giveUp {call : Callback} (h : s.step (.giveUp call) = some s') :
    ∃ topic id, s.handles call = some ⟨topic, id, .waiting⟩ ∧
      s' = { s with handles := s.handles.insert call ⟨topic, id, .released⟩ } := by
  obtain ⟨-, h⟩ := step_eq_some.mp h
  rw [stepRunning] at h
  split at h
  · rename_i topic id hc
    cases h
    exact ⟨topic, id, hc, rfl⟩
  · cases h

theorem step_dropHandle {call : Callback} (h : s.step (.dropHandle call) = some s') :
    ∃ topic id, s.handles call = some ⟨topic, id, .held⟩ ∧
      s' = { s.enqueue (.unsub ⟨⟨topic⟩⟩) with
        handles := s.handles.insert call ⟨topic, id, .released⟩ } := by
  obtain ⟨-, h⟩ := step_eq_some.mp h
  rw [stepRunning] at h
  split at h
  · rename_i topic id hc
    cases h
    exact ⟨topic, id, hc, rfl⟩
  · cases h

theorem step_dropServe {topic : Topic} (h : s.step (.dropServe topic) = some s') : topic ∈ s.serves ∧
    s' = { s.enqueue (.unsrv ⟨⟨topic⟩⟩) with serves := s.serves.erase topic } := by
  obtain ⟨-, h⟩ := step_eq_some.mp h
  rw [stepRunning] at h
  split_ifs at h with hm
  cases h
  exact ⟨hm, rfl⟩

theorem step_turn {event : Event} {valid : event.Valid} {order : Order}
    {transport : Msg ProtocolClient → BusResult Unit}
    (h : s.step (.turn event valid order transport) = some s') :
    ∃ tasks, tasksAfter s.tasks event = some tasks ∧
      s' = s.turned tasks (s.turn event order transport) := by
  obtain ⟨tasks, ht, rfl⟩ := Option.map_eq_some_iff.mp (step_eq_some.mp h).2
  exact ⟨tasks, ht, rfl⟩

/-- **An action is one of the application, or a turn of the loop.** -/
theorem quiet_or_turned (h : s.step act = some s') : s.status = .running ∧
    (Quiet s s' ∨ ∃ event order transport tasks, tasksAfter s.tasks event = some tasks ∧
      event.Valid ∧ s' = s.turned tasks (s.turn event order transport)) := by
  have hstep := h
  obtain ⟨hrun, h⟩ := step_eq_some.mp h
  refine ⟨hrun, ?_⟩
  cases act with
  | publish msg valid =>
    cases h
    refine Or.inl (quiet_call (.pub ⟨msg, s.calls⟩) ?_ (by simp) rfl id (Nat.le_succ _))
    rintro content ⟨rfl⟩ t ⟨rfl⟩
    exact valid
  | subscribe topic valid =>
    cases h
    exact Or.inl (quiet_subscribe valid)
  | request msg valid =>
    cases h
    refine Or.inl (quiet_call (.req ⟨msg, s.calls, s.calls⟩) ?_ (by simp) rfl id (Nat.le_succ _))
    rintro content ⟨rfl⟩ t ⟨rfl⟩
    exact valid
  | respond msg =>
    cases h
    refine Or.inl (quiet_call (.rsp ⟨msg, s.calls⟩) ?_ (by simp) rfl id (Nat.le_succ _))
    rintro content ⟨rfl⟩ t ⟨⟩
  | serve topic valid =>
    cases h
    refine Or.inl (quiet_call (.srv ⟨⟨topic⟩, s.calls, s.calls⟩) ?_ (by simp) rfl (fun hs => ?_)
      (Nat.le_succ _))
    · rintro content ⟨rfl⟩ t ⟨rfl⟩
      exact valid
    · exact List.forall_mem_cons.mpr ⟨valid, hs⟩
  | stopBus =>
    cases h
    refine Or.inl (quiet_call (.stopBus ⟨s.calls⟩) ?_ (by simp) rfl id (Nat.le_succ _))
    rintro content ⟨rfl⟩ t ⟨⟩
  | stop =>
    cases h
    refine Or.inl (quiet_call .stop ?_ (by simp) rfl id le_rfl)
    rintro content ⟨⟩
  | acked call =>
    obtain ⟨topic, id, hc, -, rfl⟩ := step_acked hstep
    exact Or.inl (quiet_handle .held hc (by simp) (Or.inl rfl))
  | giveUp call =>
    obtain ⟨topic, id, hc, rfl⟩ := step_giveUp hstep
    exact Or.inl (quiet_handle .released hc (by simp) (Or.inl rfl))
  | dropHandle call =>
    obtain ⟨topic, id, hc, rfl⟩ := step_dropHandle hstep
    exact Or.inl (quiet_handle .released hc (by simp) (Or.inr rfl))
  | dropServe topic =>
    obtain ⟨hm, rfl⟩ := step_dropServe hstep
    refine Or.inl ⟨rfl, rfl, rfl, rfl, Or.inr ⟨_, rfl, hm, rfl⟩, fun _ _ h => h, fun h => ?_⟩
    refine (quiet_call (s := s) (.unsrv ⟨⟨topic⟩⟩) ?_ (by simp) ⟨hm, rfl⟩ ?_ le_rfl).calls h
    · rintro content ⟨rfl⟩ t ⟨rfl⟩
      exact h.serves _ hm
    · exact fun hs t ht => hs t (List.mem_of_mem_erase ht)
  | close callback =>
    cases h
    exact Or.inl ⟨rfl, rfl, rfl, rfl, Or.inl ⟨rfl, rfl⟩, fun _ _ h => h,
      fun h => ⟨h.subs, h.handles, h.serves, h.tasks⟩⟩
  | turn event valid order transport =>
    obtain ⟨tasks, ht, rfl⟩ := step_turn hstep
    exact Or.inr ⟨event, order, transport, tasks, ht, valid, rfl⟩

end Session

/-! ## What a turn does -/

namespace ClientExec

variable {env : ClientEnv} {s s' : ClientExec} {msg : Msg ProtocolServer}

/-- **What a message does** that is received: it takes a callback, or it is a publication. -/
theorem afterReceive_ok (h : afterReceive env msg s = (.ok (), s')) :
    (s'.sent = s.sent ∧ (∃ acks, s'.core = { s.core with callbacksAck := acks }) ∧
      ∀ payload, msg.content ≠ .rsp payload) ∨
    (s'.sent = s.sent ∧ ∃ payload, msg.content = .rsp payload ∧
      s'.core = { s.core with callbacksRsp := s.core.callbacksRsp.remove payload.reqId }) ∨
    ∃ payload, msg.content = .pub payload ∧ pubLoop env payload
      (env.order.arrange (s.core.subscriptions.getSubscribers payload.topic)) s = (.ok (), s') := by
  obtain ⟨id, content⟩ := msg
  cases content with
  | ack payload =>
    simp only [afterReceive] at h
    split at h <;> cases h <;> exact Or.inl ⟨rfl, ⟨_, rfl⟩, by simp⟩
  | rsp payload =>
    simp only [afterReceive] at h
    split at h
    · cases h
      exact Or.inr (Or.inl ⟨rfl, payload, rfl, rfl⟩)
    · cases h
  | pub payload => exact Or.inr (Or.inr ⟨payload, rfl, h⟩)
  | req payload =>
    simp only [afterReceive] at h
    split at h
    · split at h
      · split_ifs at h <;> cases h
        exact Or.inl ⟨rfl, ⟨_, rfl⟩, by simp⟩
      · cases h
    · cases h
      exact Or.inl ⟨rfl, ⟨_, rfl⟩, by simp⟩

theorem goesOn_ok {x : Except Fault Unit × ClientExec} (h : (goesOn x).1 = .ok false) :
    x = (.ok (), (goesOn x).2) := by
  obtain ⟨result | u, s⟩ := x
  · cases h
  · rfl

end ClientExec

namespace Turn

variable {r : Turn}

theorem handlesAfter_cases (r : Turn) :
    (∃ params, r.event = .task (.sub params) ∧
      r.handlesAfter = r.handles.markSent params.callbackPub (r.core.nextMsgId + 1)) ∨
    (∀ params, r.event ≠ .task (.sub params)) ∧ r.handlesAfter = r.handles := by
  obtain ⟨core, handles, env, event⟩ := r
  cases event with
  | task task =>
    cases task with
    | sub params => exact Or.inl ⟨params, rfl, rfl⟩
    | _ => exact Or.inr ⟨by simp, rfl⟩
  | _ => exact Or.inr ⟨by simp, rfl⟩

/-- **A turn panics** only when a lookup fails: the owner of an Unsrv, or a callback of a message. -/
theorem exec_ne_panic (htask : ∀ task, r.event = .task task → task.UnsrvOwned r.core)
    (hmsg : ∀ msg, r.event = .msg msg → r.core.Registered msg.content) :
    r.exec.1 ≠ .error .panic := by
  obtain ⟨core, handles, env, event⟩ := r
  have hgoes : ∀ x : Except Fault Unit × ClientExec, x.1 ≠ .error .panic →
      (ClientExec.goesOn x).1 ≠ .error .panic := by
    rintro ⟨e | u, s⟩ h
    · exact fun he => h (congrArg _ (Except.error.inj he))
    · simp [ClientExec.goesOn, Except.map]
  have hsend : ∀ task : ClientTask, task ≠ .stop → task.UnsrvOwned core →
      (ClientExec.goesOn (ClientExec.send env task (.start core))).1 ≠ .error .panic :=
    fun task ht ho => hgoes _ (ClientExec.send_ne_panic ht ho)
  cases event with
  | msg msg => exact hgoes _ (ClientExec.afterReceive_ne_panic (hmsg msg rfl))
  | lost e => simp [exec, ClientExec.turn]
  | closed => simp [exec, ClientExec.turn]
  | tick => exact hsend .keepAlive (by simp) trivial
  | task task =>
    have ho : task.UnsrvOwned core := htask task rfl
    cases task with
    | stop => simp [exec, ClientExec.turn]
    | _ => exact hsend _ (by simp) ho

/-- **A turn after which the loop goes on** has sent a task, or received a message. -/
theorem exec_ok (h : r.exec.1 = .ok false) :
    (∃ task msg, r.sends? = some task ∧ r.core.beforeSend task = (.ok msg, r.exec.2.core) ∧
      r.exec.2.sent = [msg]) ∨
    ∃ msg, r.event = .msg msg ∧
      ClientExec.afterReceive r.env msg (.start r.core) = (.ok (), r.exec.2) := by
  obtain ⟨core, handles, env, event⟩ := r
  have hsend : ∀ task, (ClientExec.goesOn (ClientExec.send env task (.start core))).1 = .ok false →
      ∃ msg, core.beforeSend task =
          (.ok msg, (ClientExec.goesOn (ClientExec.send env task (.start core))).2.core) ∧
        (ClientExec.goesOn (ClientExec.send env task (.start core))).2.sent = [msg] := by
    intro task hok
    obtain ⟨msg, core', hb, hs⟩ := ClientExec.send_ok (ClientExec.goesOn_ok hok)
    rw [hs]
    exact ⟨msg, hb, rfl⟩
  cases event with
  | msg msg => exact Or.inr ⟨msg, rfl, ClientExec.goesOn_ok h⟩
  | lost e => cases h
  | closed => cases h
  | tick =>
    obtain ⟨msg, hb, hs⟩ := hsend .keepAlive h
    exact Or.inl ⟨_, msg, rfl, hb, hs⟩
  | task task =>
    cases task with
    | stop => cases h
    | _ =>
      obtain ⟨msg, hb, hs⟩ := hsend _ h
      exact Or.inl ⟨_, msg, rfl, hb, hs⟩

end Turn

namespace Session

variable {s s' : Session}

/-- The loop goes on after a turn exactly when the turn returns no error and does not stop it. -/
theorem turned_running {tasks : List ClientTask} {r : Turn} :
    (s.turned tasks r).status = .running ↔ r.exec.1 = .ok false := by
  rw [turned]
  cases r.exec.1 with
  | ok stop => cases stop <;> simp [Status.of]
  | error fault => simp [Status.of]

theorem tasksAfter_subset {tasks tasks' : List ClientTask} {event : Event}
    (h : tasksAfter tasks event = some tasks') : tasks' ⊆ tasks := by
  cases event with
  | task task =>
    rw [tasksAfter] at h
    split_ifs at h
    cases h
    exact List.tail_subset tasks
  | closed =>
    rw [tasksAfter] at h
    split_ifs at h
    cases h
    exact List.nil_subset _
  | msg msg | lost e | tick =>
    cases h
    exact List.Subset.refl _

theorem tasksAfter_task {tasks tasks' : List ClientTask} {task : ClientTask} :
    tasksAfter tasks (.task task) = some tasks' ↔ tasks = task :: tasks' := by
  rw [tasksAfter]
  cases tasks with
  | nil => simp
  | cons head tail => simp

/-! ## What the API calls have left -/

theorem calls_init : Calls init :=
  ⟨by simp [init], by simp [init], by simp [init], by simp [init]⟩

theorem Calls.turned (h : s.Calls) {event : Event} {order : Order}
    {transport : Msg ProtocolClient → BusResult Unit} {tasks : List ClientTask}
    (ht : tasksAfter s.tasks event = some tasks) :
    (s.turned tasks (s.turn event order transport)).Calls := by
  have hsub := tasksAfter_subset ht
  rcases (s.turn event order transport).handlesAfter_cases with ⟨sent, -, he⟩ | ⟨-, he⟩
  · refine ⟨fun params hm => ?_, fun call handle hh => ?_, h.serves,
      fun task hm => h.tasks task (hsub hm)⟩
    · obtain ⟨hlt, hc⟩ := h.subs params (hsub hm)
      refine ⟨hlt, ?_⟩
      rw [Session.turned, he]
      exact Handles.topic_markSent hc
    · rw [Session.turned, he] at hh
      obtain ⟨old, hc, htopic⟩ := Handles.topic_of_markSent hh
      exact htopic ▸ h.handles call old hc
  · refine ⟨fun params hm => ?_, fun call handle hh => ?_, h.serves,
      fun task hm => h.tasks task (hsub hm)⟩
    · rw [Session.turned, he]
      exact h.subs params (hsub hm)
    · rw [Session.turned, he] at hh
      exact h.handles call handle hh

theorem Reachable.calls (h : Reachable s) : s.Calls := by
  refine Lts.invariant calls_init (fun s act s' hi hstep => ?_) h
  obtain ⟨-, hq | ⟨event, order, transport, tasks, ht, -, rfl⟩⟩ := quiet_or_turned hstep
  · exact hq.calls hi
  · exact hi.turned ht

/-- A task that is sent was queued, or it is a KeepAlive. -/
theorem mem_of_sends {event : Event} {order : Order} {transport : Msg ProtocolClient → BusResult Unit}
    {tasks : List ClientTask} {task : ClientTask} (ht : tasksAfter s.tasks event = some tasks)
    (htask : (s.turn event order transport).sends? = some task) :
    task ∈ s.tasks ∨ task = .keepAlive := by
  cases event with
  | task task' =>
    left
    rw [tasksAfter_task.mp ht]
    cases task' <;> cases htask <;> exact List.mem_cons_self
  | tick => exact Or.inr (Option.some.inj htask).symm
  | msg msg | lost e | closed => cases htask

/-- A task that is sent is valid. -/
theorem Reachable.sends_valid (h : Reachable s) {event : Event} {order : Order}
    {transport : Msg ProtocolClient → BusResult Unit} {tasks : List ClientTask} {task : ClientTask}
    (ht : tasksAfter s.tasks event = some tasks)
    (htask : (s.turn event order transport).sends? = some task) : task.Valid := by
  rcases mem_of_sends ht htask with hmem | rfl
  · exact h.calls.tasks task hmem
  · rintro content ⟨rfl⟩ t ⟨⟩

/-- **How the handles change**: a call makes one, it moves on, or its Sub is sent. -/
theorem handles_step (h : s.step act = some s') : s'.handles = s.handles ∨
    (∃ topic valid, act = .subscribe topic valid ∧
      s'.handles = s.handles.insert s.calls ⟨topic, none, .waiting⟩) ∨
    (∃ call handle hold, s.handles call = some handle ∧ (hold = .held → handle.id.isSome) ∧
      s'.handles = s.handles.insert call { handle with hold := hold }) ∨
    ∃ params valid order transport, act = .turn (.task (.sub params)) valid order transport ∧
      s'.handles = s.handles.markSent params.callbackPub (s.core.nextMsgId + 1) := by
  have hstep := h
  obtain ⟨-, h⟩ := step_eq_some.mp h
  cases act with
  | subscribe topic valid =>
    cases h
    exact Or.inr (Or.inl ⟨topic, valid, rfl, rfl⟩)
  | acked call =>
    obtain ⟨topic, id, hc, -, rfl⟩ := step_acked hstep
    exact Or.inr (Or.inr (Or.inl ⟨call, _, .held, hc, fun _ => rfl, rfl⟩))
  | giveUp call =>
    obtain ⟨topic, id, hc, rfl⟩ := step_giveUp hstep
    exact Or.inr (Or.inr (Or.inl ⟨call, _, .released, hc, by simp, rfl⟩))
  | dropHandle call =>
    obtain ⟨topic, id, hc, rfl⟩ := step_dropHandle hstep
    exact Or.inr (Or.inr (Or.inl ⟨call, _, .released, hc, by simp, rfl⟩))
  | dropServe topic =>
    obtain ⟨-, rfl⟩ := step_dropServe hstep
    exact Or.inl rfl
  | turn event valid order transport =>
    obtain ⟨tasks, -, rfl⟩ := step_turn hstep
    rcases (s.turn event order transport).handlesAfter_cases with ⟨params, hev, he⟩ | ⟨-, he⟩
    · have hev : event = .task (.sub params) := hev
      subst hev
      exact Or.inr (Or.inr (Or.inr ⟨params, valid, order, transport, rfl, he⟩))
    · exact Or.inl he
  | _ =>
    cases h
    exact Or.inl rfl

/-! ## Along a run -/

/-- The log only grows. -/
theorem log_run (h : Lts.Reachable Session.step s s') : s.log <+: s'.log := by
  refine Lts.invariant (I := fun s' => s.log <+: s'.log) (List.prefix_refl _)
    (fun s' act s'' hi hstep => ?_) h
  obtain ⟨-, hq | ⟨event, order, transport, tasks, -, -, rfl⟩⟩ := quiet_or_turned hstep
  · rw [hq.log]
    exact hi
  · exact hi.trans (List.prefix_append ..)

/-- What is sent stays sent. -/
theorem sent_step (h : s.step act = some s') : s.sent <+: s'.sent := by
  obtain ⟨-, hq | ⟨event, order, transport, tasks, -, -, rfl⟩⟩ := quiet_or_turned h
  · rw [hq.sent]
  · exact List.prefix_append ..

theorem sent_length_le (h : s.step act = some s') : s.sent.length ≤ s'.sent.length :=
  (sent_step h).length_le

theorem sent_length_run (h : Lts.Reachable Session.step s s') : s.sent.length ≤ s'.sent.length :=
  Lts.invariant (I := fun s' => s.sent.length ≤ s'.sent.length) le_rfl
    (fun _ _ _ hi hstep => hi.trans (sent_length_le hstep)) h

/-- The turn was taken in `s₀`, and `s` is a later state. -/
structure TakesTurn (s₀ : Session) (r : Turn) (s : Session) : Prop where
  reachable : Reachable s₀
  running : s₀.status = .running
  valid : r.event.Valid
  tasks : ∃ tasks, tasksAfter s₀.tasks r.event = some tasks
  turn : r = s₀.turn r.event r.env.order r.env.transport
  later : Lts.Reachable Session.step s₀ s

theorem TakesTurn.core {s₀ : Session} {r : Turn} (h : TakesTurn s₀ r s) : r.core = s₀.core := by
  rw [h.turn]
  rfl

/-- **A turn was taken in a state of the session**, whose log was what is before it. -/
theorem Reachable.at_turn (h : Reachable s) : ∀ l₁ r l₂, s.log = l₁ ++ r :: l₂ →
    ∃ s₀, TakesTurn s₀ r s ∧ s₀.log = l₁ := by
  refine Lts.Reachable.induct (I := fun s => ∀ l₁ r l₂, s.log = l₁ ++ r :: l₂ →
    ∃ s₀, TakesTurn s₀ r s ∧ s₀.log = l₁) (fun l₁ r l₂ hlog => by simp [init] at hlog)
    (fun s act s' hs hi hstep l₁ r l₂ hlog => ?_) h
  have hold : ∀ l₂, s.log = l₁ ++ r :: l₂ → ∃ s₀, TakesTurn s₀ r s' ∧ s₀.log = l₁ := by
    intro l₂ hlog
    obtain ⟨s₀, h₀, hl⟩ := hi l₁ r l₂ hlog
    exact ⟨s₀, { h₀ with later := h₀.later.tail hstep }, hl⟩
  obtain ⟨hrun, hq | ⟨event, order, transport, tasks, ht, hv, rfl⟩⟩ := quiet_or_turned hstep
  · exact hold l₂ (hq.log ▸ hlog)
  · change s.log ++ [s.turn event order transport] = _ at hlog
    rcases List.eq_nil_or_concat l₂ with rfl | ⟨l, x, rfl⟩
    · obtain ⟨hl, hr⟩ := List.append_inj' hlog rfl
      cases hr
      exact ⟨s, ⟨hs, hrun, hv, ⟨tasks, ht⟩, rfl, (Lts.Reachable.refl s).tail hstep⟩, hl⟩
    · rw [List.concat_eq_append, ← List.cons_append, ← List.append_assoc] at hlog
      exact hold l (List.append_inj' hlog rfl).1

theorem Reachable.at_mem (h : Reachable s) {r : Turn} (hr : r ∈ s.log) : ∃ s₀, TakesTurn s₀ r s := by
  obtain ⟨l₁, l₂, hlog⟩ := List.append_of_mem hr
  obtain ⟨s₀, h₀, -⟩ := h.at_turn l₁ r l₂ hlog
  exact ⟨s₀, h₀⟩

/-- The loop has gone on after every turn of a session that is running. -/
theorem Reachable.turns_ok (h : Reachable s) : s.status = .running →
    ∀ r ∈ s.log, r.exec.1 = .ok false := by
  refine Lts.invariant (I := fun s => s.status = .running → ∀ r ∈ s.log, r.exec.1 = .ok false)
    (fun _ r hr => by cases hr) (fun s act s' hi hstep hrun' => ?_) h
  obtain ⟨hrun, hq | ⟨event, order, transport, tasks, -, -, rfl⟩⟩ := quiet_or_turned hstep
  · rw [hq.log]
    exact hi hrun
  · exact List.forall_mem_append.mpr ⟨hi hrun, List.forall_mem_singleton.mpr (turned_running.mp hrun')⟩

end Session

end T2Bus
