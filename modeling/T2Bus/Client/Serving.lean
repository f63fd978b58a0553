import T2Bus.Client.Tables
import Mathlib.Algebra.BigOperators.Group.List.Basic
import Mathlib.Algebra.Ring.Int.Defs
import Mathlib.Data.List.Infix
import Mathlib.Data.Int.Order.Basic

/-!
# Serving

Every `RequestSubscription` queues one Srv and, when it is dropped, one Unsrv. So in the queue no
Unsrv comes before its Srv, and an Unsrv that is sent finds the local owner of its topic.

* `ClientTask.weight`, `Session.Balanced`: the owner of a topic, the tasks in the queue and the
  objects of the application go together;
* **`Session.Reachable.balanced`**; `Session.Balanced.unsrvOwned`: the Unsrv that is sent next.
-/

namespace T2Bus

/-- What a task adds to the number of owners of a topic. -/
def ClientTask.weight (t : Topic) : ClientTask → ℤ
  | .srv params => if params.msg.topic = t then 1 else 0
  | .unsrv params => if params.msg.topic = t then -1 else 0
  | _ => 0

/-- What tasks add to the number of owners of a topic. -/
def surplus (t : Topic) (tasks : List ClientTask) : ℤ := (tasks.map (ClientTask.weight t)).sum

theorem surplus_cons (t : Topic) (task : ClientTask) (tasks : List ClientTask) :
    surplus t (task :: tasks) = task.weight t + surplus t tasks := List.sum_cons

theorem surplus_concat (t : Topic) (tasks : List ClientTask) (task : ClientTask) :
    surplus t (tasks ++ [task]) = surplus t tasks + task.weight t := by
  rw [surplus, List.map_append, List.sum_append, List.map_singleton, List.sum_singleton, surplus]

namespace ClientCore

variable {core core' : ClientCore} {sent : List (Msg ProtocolClient)} {msg : Msg ProtocolClient}
  {task : ClientTask}

/-- The number of local owners of a topic. -/
def owners (core : ClientCore) (t : Topic) : ℤ :=
  if (core.subscriptions.getOwner t).isSome then 1 else 0

/-- A message that is sent changes the owners by the weight of its task. -/
theorem owners_sends (h : core.Tables sent) (hlen : sent.length + 1 < 2 ^ 32)
    (hb : core.beforeSend task = (.ok msg, core')) (t : Topic) :
    core'.owners t = core.owners t + task.weight t := by
  obtain ⟨hsends, hcontent⟩ := sends_of_beforeSend hb
  have hne : task ≠ .stop := by
    rintro rfl
    cases hcontent
  obtain ⟨hclaim, howned⟩ := (beforeSend_ok_iff hne).mp ⟨msg, by rw [hb]⟩
  rw [owners, owners, hsends.owner]
  cases task with
  | srv params =>
    have hmsg : msg.content = .srv params.msg := (Option.some.inj hcontent).symm
    -- the next id owns no topic yet
    have hfree : core.subscriptions.getOwner params.msg.topic = none := hclaim.2.resolve_right
      fun ho => h.fresh hlen (h.reqs _ _ ho).2 rfl
    have hsrv : msg.content = .srv ⟨t⟩ ↔ params.msg.topic = t := by
      rw [hmsg]
      exact ⟨fun e => congrArg SrvMsg.topic (ProtocolClient.srv.inj e), fun e => by rw [← e]⟩
    have hunsrv : msg.content ≠ .unsrv ⟨t⟩ := by simp [hmsg]
    simp only [hsrv, if_neg hunsrv, ClientTask.weight]
    by_cases ht : params.msg.topic = t
    · rw [ht] at hfree
      simp [ht, hfree]
    · simp [ht]
  | unsrv params =>
    have hmsg : msg.content = .unsrv params.msg := (Option.some.inj hcontent).symm
    have hsrv : msg.content ≠ .srv ⟨t⟩ := by simp [hmsg]
    have hunsrv : msg.content = .unsrv ⟨t⟩ ↔ params.msg.topic = t := by
      rw [hmsg]
      exact ⟨fun e => congrArg UnsrvMsg.topic (ProtocolClient.unsrv.inj e), fun e => by rw [← e]⟩
    simp only [hunsrv, if_neg hsrv, ClientTask.weight]
    by_cases ht : params.msg.topic = t
    · have howned : (core.subscriptions.getOwner t).isSome := ht ▸ howned
      simp [ht, howned]
    · simp [ht]
  | stop => exact absurd rfl hne
  | _ => simp [← Option.some.inj hcontent, ClientTask.weight]

/-- A publication changes no owner. -/
theorem getOwner_pubLoop (h : core.Tables sent) (hlen : sent.length < 2 ^ 32) {env : ClientEnv}
    {payload : PubMsg} (hv : payload.topic.Valid) {s' : ClientExec}
    (hok : ClientExec.pubLoop env payload
      (env.order.arrange (core.subscriptions.getSubscribers payload.topic)) (.start core) =
        (.ok (), s')) (t : Topic) :
    s'.core.subscriptions.getOwner t = core.subscriptions.getOwner t := by
  refine ClientExec.pubLoop_induct (P := fun s =>
    s.core.subscriptions.getOwner t = core.subscriptions.getOwner t) (fun s c h => h)
    (fun s s' k callback hk _ _ hcl hi => ?_) hok rfl
  refine ClientExec.unsubscribeAll_induct (P := fun s =>
    s.core.subscriptions.getOwner t = core.subscriptions.getOwner t) (fun s t _ h => h) hcl ?_
  -- the subscriber that is removed is no owner
  have hk := (env.order.perm _).mem_iff.mp hk
  obtain ⟨u, hu, -⟩ := (Directory.mem_getSubscribers h.sound hv).mp hk
  rw [ClientExec.forget_subscriptions, Directory.getOwner_dropClient, hi, if_neg]
  exact h.not_owner_of_subscribed hlen hu

end ClientCore

namespace Session

variable {s s' : Session}

/-- The owner of a topic, the tasks in the queue and the objects of the application go together; no
Unsrv comes before its Srv. -/
structure Balanced (s : Session) (t : Topic) : Prop where
  prefix_nonneg : ∀ l, l <+: s.tasks → 0 ≤ s.core.owners t + surplus t l
  total : s.core.owners t + surplus t s.tasks = (s.serves.count t : ℤ)

theorem count_servesAfter {serves serves' : List Topic} {task : ClientTask}
    (h : ServesAfter serves serves' task) (t : Topic) :
    (serves'.count t : ℤ) = serves.count t + task.weight t := by
  cases task with
  | srv params =>
    rw [show serves' = _ from h, List.count_cons, ClientTask.weight]
    by_cases ht : params.msg.topic = t <;> simp [ht]
  | unsrv params =>
    obtain ⟨hm, rfl⟩ := h
    rw [List.count_erase, ClientTask.weight]
    by_cases ht : params.msg.topic = t
    · have hpos := List.count_pos_iff.mpr hm
      rw [ht] at hpos
      simp [ht]
      omega
    · simp [ht]
  | _ =>
    rw [show serves' = serves from h]
    simp [ClientTask.weight]

theorem Balanced.quiet {t : Topic} (h : s.Balanced t) (hq : Quiet s s') : s'.Balanced t := by
  rcases hq.tasks with ⟨ht, hs⟩ | ⟨task, ht, hs⟩
  · refine ⟨?_, ?_⟩
    · rw [hq.core, ht]
      exact h.prefix_nonneg
    · rw [hq.core, ht, hs]
      exact h.total
  · have htotal : s'.core.owners t + surplus t s'.tasks = (s'.serves.count t : ℤ) := by
      rw [hq.core, ht, surplus_concat, count_servesAfter hs, ← h.total, add_assoc]
    refine ⟨fun l hl => ?_, htotal⟩
    rw [ht, List.prefix_concat_iff] at hl
    rcases hl with rfl | hl
    · rw [← ht, htotal]
      exact Int.natCast_nonneg _
    · rw [hq.core]
      exact h.prefix_nonneg l hl

/-- The first task leaves the queue. -/
theorem Balanced.dequeue {t : Topic} (h : s.Balanced t) {task : ClientTask}
    {tasks : List ClientTask} (ht : s.tasks = task :: tasks) {r : Turn}
    (ho : r.exec.2.core.owners t = s.core.owners t + task.weight t) :
    (s.turned tasks r).Balanced t where
  prefix_nonneg l hl := by
    have hl' : task :: l <+: s.tasks := by
      rw [ht]
      exact List.cons_prefix_cons.mpr ⟨rfl, hl⟩
    have hle := h.prefix_nonneg _ hl'
    rw [surplus_cons, ← add_assoc, ← ho] at hle
    exact hle
  total := by
    have htotal := h.total
    rw [ht, surplus_cons, ← add_assoc, ← ho] at htotal
    exact htotal

theorem Balanced.turned {t : Topic} (h : s.Balanced t) (htables : s.core.Tables s.sent)
    {event : Event} (hv : event.Valid) {order : Order}
    {transport : Msg ProtocolClient → BusResult Unit} {tasks : List ClientTask}
    (ht : tasksAfter s.tasks event = some tasks)
    (hok : (s.turn event order transport).exec.1 = .ok false)
    (hlen : (s.turned tasks (s.turn event order transport)).sent.length < 2 ^ 32) :
    (s.turned tasks (s.turn event order transport)).Balanced t := by
  rw [Session.turned, List.length_append] at hlen
  have hsame : tasks = s.tasks → (s.turn event order transport).exec.2.core.owners t =
      s.core.owners t → (s.turned tasks (s.turn event order transport)).Balanced t := by
    rintro rfl ho
    refine ⟨fun l hl => ?_, ?_⟩
    · rw [Session.turned, ho]
      exact h.prefix_nonneg l hl
    · rw [Session.turned, ho]
      exact h.total
  rcases Turn.exec_ok hok with ⟨task, msg, htask, hb, hsent⟩ | ⟨msg, hevent, hrecv⟩
  · rw [hsent, List.length_singleton] at hlen
    have ho := ClientCore.owners_sends htables hlen hb t
    cases event with
    | task task' =>
      have heq : task' = task := by cases task' <;> cases htask <;> rfl
      exact h.dequeue (heq ▸ tasksAfter_task.mp ht) ho
    | tick =>
      cases htask
      cases ht
      exact hsame rfl (ho.trans (add_zero _))
    | msg msg | lost e | closed => cases htask
  · have htasks : tasks = s.tasks := by
      rw [show event = .msg msg from hevent] at ht
      exact (Option.some.inj ht).symm
    refine hsame htasks ?_
    rw [ClientCore.owners, ClientCore.owners]
    rcases ClientExec.afterReceive_ok hrecv with ⟨-, ⟨acks, hacks⟩, -⟩ | ⟨-, payload, -, hcore⟩ |
      ⟨payload, hpub, hloop⟩
    · rw [hacks]
      rfl
    · rw [hcore]
      rfl
    · have hvalid : payload.topic.Valid := by
        obtain ⟨id, content⟩ := msg
        rw [show event = .msg ⟨id, content⟩ from hevent, show content = .pub payload from hpub] at hv
        exact hv
      rw [ClientCore.getOwner_pubLoop htables (by omega) hvalid hloop]

theorem balanced_init (t : Topic) : init.Balanced t where
  prefix_nonneg l hl := by
    rw [List.prefix_nil.mp hl]
    simp [surplus, ClientCore.owners, init, ClientCore.new, Directory.getOwner_new]
  total := by simp [surplus, ClientCore.owners, init, ClientCore.new, Directory.getOwner_new]

theorem Reachable.balanced (h : Reachable s) :
    s.status = .running → s.sent.length < 2 ^ 32 → ∀ t, s.Balanced t := by
  refine Lts.Reachable.induct (I := fun s => s.status = .running → s.sent.length < 2 ^ 32 →
    ∀ t, s.Balanced t) (fun _ _ => balanced_init)
    (fun s act s' hs hi hstep hrun' hlen t => ?_) h
  have hlen' := (sent_length_le hstep).trans_lt hlen
  obtain ⟨hrun, hq | ⟨event, order, transport, tasks, ht, hv, rfl⟩⟩ := quiet_or_turned hstep
  · exact (hi hrun hlen' t).quiet hq
  · exact (hi hrun hlen' t).turned (Reachable.tables hs hrun) hv ht (turned_running.mp hrun') hlen

/-- **An Unsrv that is sent finds the owner of its topic.** -/
theorem Balanced.unsrvOwned {task : ClientTask} {tasks : List ClientTask}
    (ht : s.tasks = task :: tasks) (h : ∀ t, s.Balanced t) : task.UnsrvOwned s.core := by
  cases task with
  | unsrv params =>
    have hle := (h params.msg.topic).prefix_nonneg [.unsrv params] (by
      rw [ht]
      exact List.cons_prefix_cons.mpr ⟨rfl, List.nil_prefix⟩)
    rw [ClientCore.owners] at hle
    rw [ClientTask.UnsrvOwned]
    by_contra hno
    rw [if_neg hno] at hle
    simp [surplus, ClientTask.weight] at hle
  | _ => trivial

end Session

end T2Bus
