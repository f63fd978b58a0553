import T2Bus.Client.Posts
import T2Bus.Client.Tables

/-!
# API calls on the way to their Ack

A call that was made is queued until its task is sent, then its callback is entered under the id of the
message, and it stays there until the Ack for this id comes.

* `Turn.callbacksAck_of_not_ack`: only an Ack takes a callback out of `callbacks_ack`;
* `Session.Issues`: a call is queued or has its message; **`Session.Reachable.called`**;
* `Session.Waits`: a call with a message waits for its Ack, or has got it;
  **`Session.Reachable.waits`**.
-/

namespace T2Bus

namespace Turn

variable {r : Turn} {msg : Msg ProtocolServer}

/-- A message other than an Ack takes no callback of an Ack. -/
theorem callbacksAck_of_not_ack (h : r.event = .msg msg) (hno : ∀ a, msg.content ≠ .ack a) :
    r.exec.2.core.callbacksAck = r.core.callbacksAck := by
  obtain ⟨id, content⟩ := msg
  rw [exec_msg h]
  change (ClientExec.afterReceive r.env ⟨id, content⟩ (.start r.core)).2.core.callbacksAck = _
  cases content with
  | ack payload => exact absurd rfl (hno payload)
  | rsp payload =>
    simp only [ClientExec.afterReceive]
    split <;> rfl
  | pub payload =>
    have hends : ClientExec.Ends (fun s => s.core.callbacksAck = r.core.callbacksAck)
        (ClientExec.pubLoop r.env payload (r.env.order.arrange
          (r.core.subscriptions.getSubscribers payload.topic)) (.start r.core)).2 :=
      ClientExec.pubLoop_ends (fun _ _ h => h) (fun _ _ h => h) (fun _ _ h => h) _ rfl
    rcases hends with h | ⟨s, hs, he⟩
    · exact h
    · exact (congrArg (fun s => s.core.callbacksAck) he).trans hs
  | req payload =>
    simp only [ClientExec.afterReceive]
    split
    · split
      · split <;> rfl
      · rfl
    · rfl

/-- A task that is sent enters the callback of its call, and no other. -/
theorem callbacksAck_sends {task : ClientTask} (h : r.sends? = some task) :
    r.exec.2.core.callbacksAck =
      r.core.callbacksAck.enter (r.core.nextMsgId + 1) task.call? := by
  rw [exec_sends h]
  change (ClientExec.send r.env task (.start r.core)).2.core.callbacks .ack = _
  rw [(ClientExec.send_core _ _ _).1, ClientCore.callbacks_beforeSend]
  rfl

end Turn

namespace Session

variable {s s' : Session} {act : Act} {n : Callback}

/-! ## The tasks of the calls -/

/-- A call that was made is queued, or its message was sent. -/
def Called (s : Session) : Prop :=
  ∀ n < s.calls, n ∈ queuedCalls s.tasks ∨ ∃ x ∈ posts s.log, x.1.call? = some n

/-- A turn sends the call that it takes off the queue. -/
theorem Called.turned (hi : s.Called) {event : Event} {order : Order}
    {transport : Msg ProtocolClient → BusResult Unit} {tasks : List ClientTask}
    (ht : tasksAfter s.tasks event = some tasks)
    (hok : (s.turn event order transport).exec.1 = .ok false) :
    (s.turned tasks (s.turn event order transport)).Called := by
  intro n hn
  change n ∈ queuedCalls tasks ∨ ∃ x ∈ posts (s.log ++ [s.turn event order transport]), _
  rw [posts_concat]
  have hold : (∃ x ∈ posts s.log, x.1.call? = some n) →
      ∃ x ∈ posts s.log ++ (s.turn event order transport).posts, x.1.call? = some n :=
    fun ⟨x, hx, hc⟩ => ⟨x, List.mem_append_left _ hx, hc⟩
  rcases hi n hn with hq | hp
  · obtain ⟨task, hmem, hc⟩ := List.mem_filterMap.mp hq
    rcases tasksAfter_cases ht with ⟨head, rfl, htasks⟩ | ⟨-, rfl⟩
    · rw [htasks] at hmem
      rcases List.mem_cons.mp hmem with rfl | hmem
      · -- the task of the call is the one that this turn takes
        have hsends : (s.turn (.task task) order transport).sends? = some task := by
          cases task with
          | stop => cases hc
          | _ => rfl
        obtain ⟨msg, hpost, -⟩ := Turn.posts_of_ok hok hsends
        refine Or.inr ⟨(task, msg), List.mem_append_right _ ?_, hc⟩
        rw [hpost]
        exact List.mem_singleton_self _
      · exact Or.inl (List.mem_filterMap.mpr ⟨task, hmem, hc⟩)
    · exact Or.inl hq
  · exact Or.inr (hold hp)

theorem Called.step (hi : s.Called) (h : s.step act = some s') (hrun : s'.status = .running) :
    s'.Called := by
  rcases queues_step h with ⟨-, -, -, hlog, htasks, hcalls⟩ |
    ⟨event, valid, order, transport, tasks, -, ht, rfl⟩
  · intro n hn
    rw [hlog, htasks, queuedCalls, List.filterMap_append, List.mem_append]
    by_cases hlt : n < s.calls
    · exact (hi n hlt).imp_left Or.inl
    · -- the call is the one that this action makes
      left; right
      rcases s.queuedCalls_queues act with he | he
      · rw [he, List.length_nil] at hcalls
        omega
      · rw [he, List.length_singleton] at hcalls
        have : n = s.calls := by omega
        rw [← queuedCalls, he, this]
        exact List.mem_singleton_self _
  · exact hi.turned ht (turned_running.mp hrun)

/-- **Every call that was made is queued, or has its message.** -/
theorem Reachable.called (h : Reachable s) : s.status = .running → s.Called := by
  refine Lts.Reachable.induct (I := fun s => s.status = .running → s.Called)
    (fun _ n hn => absurd hn (Nat.not_lt_zero n)) (fun s act s' _ hi hstep hrun => ?_) h
  exact (hi (step_eq_some.mp hstep).1).step hstep hrun

/-! ## The callbacks of the calls -/

/-- A call whose message was sent waits for the Ack, or has got it. -/
def Waits (s : Session) : Prop :=
  ∀ x ∈ posts s.log, ∀ n, x.1.call? = some n →
    s.core.callbacksAck x.2.id = some n ∨ acked s.log n ≠ []

/-- The callback of a message that was sent before is there, or the Ack has gone into it. -/
theorem Waits.kept {r : Turn} {x : ClientTask × Msg ProtocolClient}
    (h : r.core.callbacksAck x.2.id = some n ∨ acked s.log n ≠ [])
    (hfresh : ∀ task, r.sends? = some task → x.2.id ≠ r.core.nextMsgId + 1) :
    r.exec.2.core.callbacksAck x.2.id = some n ∨ acked (s.log ++ [r]) n ≠ [] := by
  rw [acked_concat]
  rcases h with hc | hne
  · rcases r.exec_cases with ⟨task, htask⟩ | ⟨msg, hmsg⟩ | hstart
    · left
      rw [Turn.callbacksAck_sends htask]
      cases task.call? with
      | none => exact hc
      | some n' => exact (Table.insert_of_ne (hfresh task htask) n').trans hc
    · obtain ⟨id, content⟩ := msg
      by_cases hack : ∃ a, content = .ack a ∧ a.msgId = x.2.id
      · obtain ⟨a, rfl, ha⟩ := hack
        right
        rw [Turn.acksTo_eq, Turn.received_eq_some.mpr hmsg]
        simp only [ha, hc, if_true]
        simp
      · left
        cases content with
        | ack a =>
          rw [Turn.callbacksAck_ack hmsg, Table.remove_of_ne]
          · exact hc
          · exact fun he => hack ⟨a, rfl, he.symm⟩
        | _ =>
          rw [Turn.callbacksAck_of_not_ack hmsg (by simp)]
          exact hc
    · left
      rw [hstart]
      exact hc
  · right
    simp [hne]

/-- **A call whose message was sent waits for its Ack, or has got it**, as long as no message id is used
twice. -/
theorem Reachable.waits (h : Reachable s) :
    s.status = .running → s.sent.length < 2 ^ 32 → s.Waits := by
  refine Lts.Reachable.induct (I := fun s => s.status = .running → s.sent.length < 2 ^ 32 → s.Waits)
    (fun _ _ x hx => by cases hx) (fun s act s' hs hi hstep hrun' hlen => ?_) h
  have hrun := (step_eq_some.mp hstep).1
  have hlen₀ := (sent_length_le hstep).trans_lt hlen
  rcases queues_step hstep with ⟨hcore, -, -, hlog, -⟩ | ⟨event, valid, order, transport, tasks, -, ht, rfl⟩
  · intro x
    rw [hcore, hlog]
    exact hi hrun hlen₀ x
  · intro x hx n hn
    have hok := turned_running.mp hrun'
    change x ∈ posts (s.log ++ [s.turn event order transport]) at hx
    rw [posts_concat, List.mem_append] at hx
    rcases hx with hx | hx
    · refine Waits.kept (hi hrun hlen₀ x hx n hn) fun task htask => ?_
      obtain ⟨msg, hsent⟩ : ∃ msg, (s.turn event order transport).exec.2.sent = [msg] := by
        rcases Turn.exec_ok hok with ⟨-, msg, -, -, hsent⟩ | ⟨msg, hmsg, -⟩
        · exact ⟨msg, hsent⟩
        · rw [Turn.sends?, hmsg] at htask
          cases htask
      refine (Reachable.tables hs hrun).fresh ?_ ((Reachable.posted hs).sent x hx)
      change (s.sent ++ (s.turn event order transport).exec.2.sent).length < 2 ^ 32 at hlen
      rwa [hsent, List.length_append] at hlen
    · left
      have htask := Turn.sends_of_post hx
      obtain ⟨msg, hpost, hid⟩ := Turn.posts_of_ok hok htask
      rw [hpost] at hx
      have hxmsg : x.2 = msg := congrArg Prod.snd (List.mem_singleton.mp hx)
      change (s.turn event order transport).exec.2.core.callbacksAck x.2.id = some n
      rw [Turn.callbacksAck_sends htask, hn, hxmsg, hid]
      exact Table.insert_self _ _ _

end Session

end T2Bus
