import T2Bus.Client.Tables

/-!
# API calls

The callbacks of an API call have the number of the call, and its task is queued once. So the queue and
the tables of the core hold a number at most once.

* `ClientTask.call?`, `ClientTask.callback?`: the call that a task belongs to, and its callbacks;
* **`ClientCore.callbacks_beforeSend`**, `Turn.callbacks_exec`: what a turn enters into the tables;
* `Session.queues`, **`Session.queues_step`**: the tasks that an action queues;
* `Session.Numbered`; **`Session.Reachable.numbered`**.
-/

namespace T2Bus

namespace ClientTask

/-- The API call that waits for the Ack of the task. -/
def call? : ClientTask → Option Callback
  | .pub params => some params.callbackAck
  | .sub params => some params.callbackAck
  | .req params => some params.callbackAck
  | .rsp params => some params.callbackAck
  | .srv params => some params.callbackAck
  | .stopBus params => some params.callbackAck
  | .unsub _ | .unsrv _ | .stop | .keepAlive => none

end ClientTask

/-- The callbacks that a message from the server is for. -/
inductive Kind where
  | ack
  | rsp
  | pub

/-- The callback of a kind that the task passes in. -/
def ClientTask.callback? : Kind → ClientTask → Option Callback
  | .ack, task => task.call?
  | .rsp, .req params => some params.callbackRsp
  | .pub, .sub params => some params.callbackPub
  | .rsp, _ => none
  | .pub, _ => none

def ClientCore.callbacks (core : ClientCore) : Kind → Table MsgId Callback
  | .ack => core.callbacksAck
  | .rsp => core.callbacksRsp
  | .pub => core.callbacksPub

/-! ## The tables in a turn -/

namespace ClientCore

/-- **What `before_send` enters**, whether or not it succeeds: the callbacks of the task, under the next
message id. -/
theorem callbacks_beforeSend (core : ClientCore) (task : ClientTask) (kind : Kind) :
    (core.beforeSend task).2.callbacks kind =
      (core.callbacks kind).enter (core.nextMsgId + 1) (task.callback? kind) := by
  rw [beforeSend]
  cases task with
  | srv params =>
    rw [message_srv core.bump rfl]
    cases kind <;> rfl
  | unsrv params =>
    cases ho : core.subscriptions.getOwner params.msg.topic with
    | none =>
      simp only [message, bump_subscriptions, ho]
      cases kind <;> rfl
    | some callbackId =>
      rw [message_unsrv core.bump ho]
      cases kind <;> rfl
  | _ => cases kind <;> rfl

end ClientCore

namespace ClientExec

variable {env : ClientEnv}

variable (env) in
theorem send_core (task : ClientTask) (s : ClientExec) :
    (send env task s).2.core = (s.core.beforeSend task).2 ∧ (send env task s).2.calls = s.calls := by
  rw [send]
  cases hb : s.core.beforeSend task with
  | mk result core =>
    cases result with
    | error e => exact ⟨rfl, rfl⟩
    | ok msg =>
      simp only
      cases env.transport msg <;> exact ⟨rfl, rfl⟩

/-- A send puts at most one message into the transport. -/
theorem send_sent (task : ClientTask) (s : ClientExec) :
    (send env task s).2.sent = s.sent ∨ ∃ msg, (s.core.beforeSend task).1 = .ok msg ∧
      (send env task s).2.sent = s.sent ++ [msg] := by
  rw [send]
  cases hb : s.core.beforeSend task with
  | mk result core =>
    cases result with
    | error e => exact Or.inl rfl
    | ok msg =>
      simp only
      cases env.transport msg with
      | error e => exact Or.inl rfl
      | ok u => exact Or.inr ⟨msg, rfl, rfl⟩

variable (env) in
/-- A message that is received enters no callback. -/
theorem callbacks_afterReceive (msg : Msg ProtocolServer) (s : ClientExec) (kind : Kind) :
    ∀ k n, (afterReceive env msg s).2.core.callbacks kind k = some n →
      s.core.callbacks kind k = some n := by
  refine (afterReceive_ends (P := fun s' => ∀ k n, s'.core.callbacks kind k = some n →
    s.core.callbacks kind k = some n) (fun s' c h => h) (fun s' k' h k n hk => h k n ?_)
    (fun s' k' h k n hk => h k n ?_) (fun s' k' h k n hk => h k n ?_) (fun s' t h => h) msg
    fun _ _ h => h).elim id ?_
  · cases kind with
    | ack => exact (Table.remove_eq_some.mp hk).2
    | _ => exact hk
  · cases kind with
    | rsp => exact (Table.remove_eq_some.mp hk).2
    | _ => exact hk
  · cases kind with
    | pub => exact (Table.remove_eq_some.mp hk).2
    | _ => exact hk
  · rintro ⟨s', h, he⟩
    rw [he]
    exact h

end ClientExec

namespace Turn

variable {r : Turn} {task : ClientTask} {msg : Msg ProtocolServer}

theorem exec_sends (h : r.sends? = some task) :
    r.exec = ClientExec.goesOn (ClientExec.send r.env task (.start r.core)) := by
  obtain ⟨core, handles, env, event⟩ := r
  cases event with
  | task task' => cases task' <;> cases h <;> rfl
  | tick =>
    cases h
    rfl
  | msg msg | lost e | closed => cases h

theorem exec_msg (h : r.event = .msg msg) :
    r.exec = ClientExec.goesOn (ClientExec.afterReceive r.env msg (.start r.core)) := by
  rw [exec, h]
  rfl

/-- **A turn** sends a task, receives a message, or leaves the core alone. -/
theorem exec_cases (r : Turn) : (∃ task, r.sends? = some task) ∨ (∃ msg, r.event = .msg msg) ∨
    r.exec.2 = .start r.core := by
  obtain ⟨core, handles, env, event⟩ := r
  cases event with
  | task task =>
    cases task with
    | stop => exact Or.inr (Or.inr rfl)
    | _ => exact Or.inl ⟨_, rfl⟩
  | tick => exact Or.inl ⟨_, rfl⟩
  | msg msg => exact Or.inr (Or.inl ⟨msg, rfl⟩)
  | lost e | closed => exact Or.inr (Or.inr rfl)

/-- A callback that is in a table after a turn is that of the task, or it was there before. -/
theorem callbacks_exec {kind : Kind} {k : MsgId} {n : Callback}
    (h : r.exec.2.core.callbacks kind k = some n) :
    (∃ task, r.sends? = some task ∧ task.callback? kind = some n ∧ k = r.core.nextMsgId + 1) ∨
      r.core.callbacks kind k = some n := by
  rcases r.exec_cases with ⟨task, ht⟩ | ⟨msg, hm⟩ | hs
  · rw [exec_sends ht] at h
    change (ClientExec.send r.env task (.start r.core)).2.core.callbacks kind k = some n at h
    rw [(ClientExec.send_core _ _ _).1, ClientCore.callbacks_beforeSend] at h
    rcases Table.enter_eq_some h with ⟨hk, hn⟩ | h
    · exact Or.inl ⟨task, ht, hn, hk⟩
    · exact Or.inr h
  · rw [exec_msg hm] at h
    exact Or.inr (ClientExec.callbacks_afterReceive _ msg _ kind k n h)
  · rw [hs] at h
    exact Or.inr h

end Turn

/-! ## The queue -/

/-- The calls whose tasks are queued. -/
def queuedCalls (tasks : List ClientTask) : List Callback := tasks.filterMap ClientTask.call?

namespace Session

variable {s s' : Session} {act : Act} {n : Callback}

/-- The tasks that an action of the application queues. -/
def queues (s : Session) : Act → List ClientTask
  | .publish msg _ => [.pub ⟨msg, s.calls⟩]
  | .subscribe topic _ => [.sub ⟨⟨topic⟩, s.calls, s.calls⟩]
  | .request msg _ => [.req ⟨msg, s.calls, s.calls⟩]
  | .respond msg => [.rsp ⟨msg, s.calls⟩]
  | .serve topic _ => [.srv ⟨⟨topic⟩, s.calls, s.calls⟩]
  | .stopBus => [.stopBus ⟨s.calls⟩]
  | .stop => [.stop]
  | .dropHandle call => (s.handles call).toList.map fun handle => .unsub ⟨⟨handle.topic⟩⟩
  | .dropServe topic => [.unsrv ⟨⟨topic⟩⟩]
  | .acked _ | .giveUp _ | .close _ | .turn _ _ _ _ => []

/-- A call has the next number. -/
theorem queuedCalls_queues (s : Session) (act : Act) :
    queuedCalls (s.queues act) = [] ∨ queuedCalls (s.queues act) = [s.calls] := by
  cases act with
  | publish _ _ | subscribe _ _ | request _ _ | respond _ | serve _ _ | stopBus => exact Or.inr rfl
  | dropHandle call =>
    left
    rw [queues]
    cases s.handles call <;> rfl
  | _ => exact Or.inl rfl

/-- All callbacks of a task are those of its call. -/
theorem callback_queues {task : ClientTask} (h : task ∈ s.queues act) {kind : Kind}
    (hn : task.callback? kind = some n) : task.call? = some n := by
  cases act with
  | dropHandle call =>
    obtain ⟨handle, -, rfl⟩ := List.mem_map.mp h
    cases kind <;> cases hn
  | acked _ | giveUp _ | close _ | turn _ _ _ _ => cases h
  | _ =>
    cases List.mem_singleton.mp h
    cases kind <;> cases hn <;> rfl

/-- **An action queues tasks**, or it is a turn of the loop. -/
theorem queues_step (h : s.step act = some s') :
    (s'.core = s.core ∧ s'.status = s.status ∧ s'.sent = s.sent ∧ s'.log = s.log ∧
      s'.tasks = s.tasks ++ s.queues act ∧
      s'.calls = s.calls + (queuedCalls (s.queues act)).length) ∨
    ∃ event valid order transport tasks, act = .turn event valid order transport ∧
      tasksAfter s.tasks event = some tasks ∧ s' = s.turned tasks (s.turn event order transport) := by
  have hstep := h
  obtain ⟨-, h⟩ := step_eq_some.mp h
  cases act with
  | turn event valid order transport =>
    obtain ⟨tasks, ht, rfl⟩ := step_turn hstep
    exact Or.inr ⟨event, valid, order, transport, tasks, rfl, ht, rfl⟩
  | acked call =>
    obtain ⟨topic, id, -, -, rfl⟩ := step_acked hstep
    exact Or.inl ⟨rfl, rfl, rfl, rfl, (List.append_nil _).symm, rfl⟩
  | giveUp call =>
    obtain ⟨topic, id, -, rfl⟩ := step_giveUp hstep
    exact Or.inl ⟨rfl, rfl, rfl, rfl, (List.append_nil _).symm, rfl⟩
  | dropHandle call =>
    obtain ⟨topic, id, hc, rfl⟩ := step_dropHandle hstep
    simp only [queues, hc]
    exact Or.inl ⟨rfl, rfl, rfl, rfl, rfl, rfl⟩
  | dropServe topic =>
    obtain ⟨-, rfl⟩ := step_dropServe hstep
    exact Or.inl ⟨rfl, rfl, rfl, rfl, rfl, rfl⟩
  | close callback =>
    cases h
    exact Or.inl ⟨rfl, rfl, rfl, rfl, (List.append_nil _).symm, rfl⟩
  | _ =>
    cases h
    exact Or.inl ⟨rfl, rfl, rfl, rfl, rfl, rfl⟩

/-- A turn takes the first task, or none. -/
theorem tasksAfter_cases {tasks tasks' : List ClientTask} {event : Event}
    (h : tasksAfter tasks event = some tasks') :
    (∃ task, event = .task task ∧ tasks = task :: tasks') ∨
      (∀ task, event ≠ .task task) ∧ tasks' = tasks := by
  cases event with
  | task task => exact Or.inl ⟨task, rfl, tasksAfter_task.mp h⟩
  | closed =>
    rw [tasksAfter] at h
    split_ifs at h with hnil
    exact Or.inr ⟨by simp, by rw [← Option.some.inj h, hnil]⟩
  | msg msg | lost e | tick =>
    cases h
    exact Or.inr ⟨by simp, rfl⟩

/-! ## The numbers of the calls -/

/-- The task of the call has left the queue. -/
def Spent (s : Session) (n : Callback) : Prop := n < s.calls ∧ n ∉ queuedCalls s.tasks

/-- A call has its task in the queue at most once, and then none of its callbacks is in a table; and no
table has a callback twice. -/
structure Numbered (s : Session) : Prop where
  nodup : (queuedCalls s.tasks).Nodup
  lt : ∀ n ∈ queuedCalls s.tasks, n < s.calls
  own : ∀ task ∈ s.tasks, ∀ kind n, task.callback? kind = some n → task.call? = some n
  spent : ∀ kind k n, s.core.callbacks kind k = some n → s.Spent n
  injective : ∀ kind k k' n, s.core.callbacks kind k = some n → s.core.callbacks kind k' = some n →
    k = k'

theorem numbered_init : Numbered init where
  nodup := List.nodup_nil
  lt n h := by cases h
  own task h := by cases h
  spent kind k n h := by cases kind <;> cases h
  injective kind k k' n h := by cases kind <;> cases h

/-- A call that is spent stays so. -/
theorem Spent.step (hs : s.Spent n) (h : s.step act = some s') : s'.Spent n := by
  obtain ⟨hlt, hnot⟩ := hs
  rcases queues_step h with ⟨-, -, -, -, ht, hc⟩ |
    ⟨event, valid, order, transport, tasks, rfl, ht, rfl⟩
  · refine ⟨hlt.trans_le (hc ▸ Nat.le_add_right _ _), ?_⟩
    rw [ht, queuedCalls, List.filterMap_append]
    refine fun hm => (List.mem_append.mp hm).elim hnot fun hm => ?_
    rcases s.queuedCalls_queues act with he | he
    · rw [queuedCalls] at he
      rw [he] at hm
      cases hm
    · rw [queuedCalls] at he
      rw [he] at hm
      exact absurd (List.mem_singleton.mp hm) hlt.ne
  · refine ⟨hlt, fun hm => hnot ?_⟩
    obtain ⟨task, hmem, hcall⟩ := List.mem_filterMap.mp hm
    exact List.mem_filterMap.mpr ⟨task, tasksAfter_subset ht hmem, hcall⟩

/-- The call of the task that a turn sends is not spent before, and is afterwards. -/
theorem Numbered.spent_turned (hi : Numbered s) {event : Event} {order : Order}
    {transport : Msg ProtocolClient → BusResult Unit} {tasks : List ClientTask} {task : ClientTask}
    (ht : tasksAfter s.tasks event = some tasks)
    (htask : (s.turn event order transport).sends? = some task) (hn : task.call? = some n) :
    task ∈ s.tasks ∧ ¬ s.Spent n ∧ (s.turned tasks (s.turn event order transport)).Spent n := by
  rcases tasksAfter_cases ht with ⟨task', rfl, htasks⟩ | ⟨hevent, -⟩
  · have heq : task' = task := by cases task' <;> cases htask <;> rfl
    subst heq
    have hnodup := hi.nodup
    have hqueue : queuedCalls s.tasks = n :: queuedCalls tasks := by
      rw [htasks, queuedCalls, List.filterMap_cons_some hn]
      rfl
    have hmem : n ∈ queuedCalls s.tasks := by
      rw [hqueue]
      exact List.mem_cons_self
    rw [hqueue] at hnodup
    refine ⟨by rw [htasks]; exact List.mem_cons_self, fun h => h.2 hmem, hi.lt n hmem, ?_⟩
    exact (List.nodup_cons.mp hnodup).1
  · cases event with
    | task task' => exact absurd rfl (hevent task')
    | tick =>
      cases htask
      cases hn
    | msg msg | lost e | closed => cases htask

/-- What the application queues has a new number, if it has one. -/
theorem Numbered.queued (hi : Numbered s) (h : s.step act = some s') (hcore : s'.core = s.core)
    (ht : s'.tasks = s.tasks ++ s.queues act)
    (hc : s'.calls = s.calls + (queuedCalls (s.queues act)).length) : Numbered s' := by
  have hqueue : queuedCalls s'.tasks = queuedCalls s.tasks ++ queuedCalls (s.queues act) := by
    rw [ht]
    exact List.filterMap_append
  refine ⟨?_, fun n hn => ?_, fun task hm kind n hn => ?_, fun kind k n hk => ?_, ?_⟩
  · rw [hqueue]
    rcases s.queuedCalls_queues act with he | he
    · rw [he, List.append_nil]
      exact hi.nodup
    · -- the number of the new call is fresh
      rw [he]
      refine hi.nodup.append (List.nodup_singleton _) (List.disjoint_singleton.mpr fun hm => ?_)
      exact absurd (hi.lt _ hm) (lt_irrefl _)
  · rw [hqueue, List.mem_append] at hn
    rcases hn with hn | hn
    · exact (hi.lt n hn).trans_le (hc ▸ Nat.le_add_right _ _)
    · rcases s.queuedCalls_queues act with he | he
      · rw [he] at hn
        cases hn
      · rw [he] at hn hc
        rw [List.mem_singleton.mp hn, hc]
        exact Nat.lt_succ_self _
  · rw [ht] at hm
    exact (List.mem_append.mp hm).elim (fun hm => hi.own task hm kind n hn)
      fun hm => callback_queues hm hn
  · exact (hi.spent kind k n (hcore ▸ hk)).step h
  · rw [hcore]
    exact hi.injective

/-- A turn enters the callback of the task that it sends, which was in no table before. -/
theorem Numbered.turned (hi : Numbered s) {event : Event} {order : Order}
    {transport : Msg ProtocolClient → BusResult Unit} {tasks : List ClientTask}
    (h : s.step act = some (s.turned tasks (s.turn event order transport)))
    (ht : tasksAfter s.tasks event = some tasks) :
    Numbered (s.turned tasks (s.turn event order transport)) := by
  have hsub := tasksAfter_subset ht
  have hsublist : tasks.Sublist s.tasks := by
    rcases tasksAfter_cases ht with ⟨task, -, he⟩ | ⟨-, he⟩
    · rw [he]
      exact List.sublist_cons_self _ _
    · rw [he]
  have hold : ∀ kind k n, (s.turn event order transport).exec.2.core.callbacks kind k = some n →
      ((s.turned tasks (s.turn event order transport)).Spent n) ∧
        ((¬ s.Spent n ∧ k = s.core.nextMsgId + 1) ∨ s.core.callbacks kind k = some n) := by
    intro kind k n hk
    rcases Turn.callbacks_exec hk with ⟨task, htask, hn, hid⟩ | hk
    · rcases mem_of_sends ht htask with hmem | rfl
      · obtain ⟨-, hnot, hspent⟩ := hi.spent_turned ht htask (hi.own task hmem kind n hn)
        exact ⟨hspent, Or.inl ⟨hnot, hid⟩⟩
      · cases kind <;> cases hn
    · exact ⟨(hi.spent kind k n hk).step h, Or.inr hk⟩
  refine ⟨hi.nodup.sublist (hsublist.filterMap _), fun n hn => hi.lt n ?_,
    fun task hm => hi.own task (hsub hm), fun kind k n hk => (hold kind k n hk).1,
    fun kind k k' n hk hk' => ?_⟩
  · exact (hsublist.filterMap _).subset hn
  · rcases (hold kind k n hk).2 with ⟨hnot, hid⟩ | hk <;>
      rcases (hold kind k' n hk').2 with ⟨hnot', hid'⟩ | hk'
    · rw [hid, hid']
    · exact absurd (hi.spent kind k' n hk') hnot
    · exact absurd (hi.spent kind k n hk) hnot'
    · exact hi.injective kind k k' n hk hk'

theorem Numbered.step (hi : Numbered s) (h : s.step act = some s') : Numbered s' := by
  rcases queues_step h with ⟨hcore, -, -, -, ht, hc⟩ |
    ⟨event, valid, order, transport, tasks, rfl, ht, rfl⟩
  · exact hi.queued h hcore ht hc
  · exact hi.turned h ht

/-- **The queue and the tables of a client hold the number of a call at most once.** -/
theorem Reachable.numbered (h : Reachable s) : Numbered s :=
  Lts.invariant numbered_init (fun _ _ _ hi hstep => hi.step hstep) h

end Session

end T2Bus
