import T2Bus.Directory.Lookups
import T2Bus.Server.Channels

/-!
# The subscriptions of a connected client

A client whose stub is serving is registered, and the directory has the subscriptions that its
processed messages leave.

* `Core.subscribed_deliverAll`, `Core.subscribed_own`, **`Core.subscribed_processTask`**: the
  subscriptions after a task;
* **`System.Reachable.served`**: a client that is being served has its sender;
* **`System.Reachable.subscribes`**.
-/

namespace T2Bus

namespace Core

variable {core : Core} {env : Env} {task : Task} {stop : Bool} {c : ClientId} {t : Topic}

/-! ## The subscriptions after a task -/

theorem subscribed_afterDeliver (d : ClientId) :
    (core.afterDeliver env d).directory.Subscribed c t ↔
      core.directory.Subscribed c t ∧ ¬ core.Drops env [d] c := by
  rw [afterDeliver, Drops, List.mem_singleton]
  by_cases hd : core.Closed env d
  · rw [if_pos hd]
    refine Directory.subscribed_dropClient.trans (and_congr_right fun _ => ?_)
    exact ⟨fun hne h => hne h.1, fun h e => h ⟨e, e ▸ hd⟩⟩
  · rw [if_neg hd]
    exact (and_iff_left fun (h : c = d ∧ core.Closed env c) => hd (h.1 ▸ h.2)).symm

theorem subscribed_deliverAll (ids : List ClientId) :
    (core.deliverAll env ids).directory.Subscribed c t ↔
      core.directory.Subscribed c t ∧ ¬ core.Drops env ids c := by
  induction ids generalizing core with
  | nil => simp [deliverAll]
  | cons d ids ih =>
    rw [deliverAll_cons, ih, subscribed_afterDeliver, drops_cons d ids c]
    tauto

/-- A message of `d` changes the subscriptions of `d` only. -/
theorem subscribed_own (d : ClientId) (msg : Msg ProtocolClient) :
    (core.own env d msg).directory.Subscribed c t ↔
      (core.directory.Subscribed c t ∧ ¬ (c = d ∧ msg.content = .unsub ⟨t⟩)) ∨
        (c = d ∧ msg.content = .sub ⟨t⟩) := by
  obtain ⟨id, content⟩ := msg
  cases content with
  | sub params =>
    obtain ⟨u⟩ := params
    refine Directory.subscribed_subscribe.trans ?_
    simp only [reduceCtorEq, and_false, not_false_eq_true, and_true, ProtocolClient.sub.injEq,
      SubMsg.mk.injEq, eq_comm (a := u)]
    exact or_comm
  | unsub params =>
    obtain ⟨u⟩ := params
    refine Directory.subscribed_unsubscribe.trans ?_
    simp only [reduceCtorEq, and_false, or_false, ProtocolClient.unsub.injEq, UnsubMsg.mk.injEq,
      eq_comm (a := u)]
  | srv params => simp [own, Directory.subscribed_claim]
  | unsrv params => simp [own, Directory.subscribed_unclaim]
  | req params =>
    simp only [own]
    split <;> simp
  | rsp params =>
    simp only [own]
    split <;> simp
  | pub params | stop | keepAlive => simp [own]

variable (core task) in
/-- The subscriptions with those of a Sub and without those of an Unsub. -/
def SettledSub (c : ClientId) (t : Topic) : Prop :=
  (core.directory.Subscribed c t ∧ ¬ ∃ id, task = .message c ⟨id, .unsub ⟨t⟩⟩) ∨
    ∃ id, task = .message c ⟨id, .sub ⟨t⟩⟩

/-- **The subscriptions after a task**: those it settles, without the clients it deregisters. -/
theorem subscribed_processTask (h : (Exec.processTask env task (.start core)).1 = .ok stop) :
    (Exec.processTask env task (.start core)).2.core.directory.Subscribed c t ↔
      core.SettledSub task c t ∧ ¬ core.Departs env task c := by
  rw [Exec.processTask_core h, subscribed_deliverAll]
  cases task with
  | register conn => simp [ownTask, SettledSub, Departs]
  | deregister d =>
    simp only [ownTask, recipients_deregister, not_drops_nil, not_false_eq_true, and_true, SettledSub,
      reduceCtorEq, exists_false, or_false, Departs, Task.deregister.injEq]
    refine Directory.subscribed_dropClient.trans (and_congr_right fun _ => ?_)
    exact not_congr eq_comm
  | message d msg =>
    have hsettled : core.SettledSub (.message d msg) c t ↔
        (core.own env d msg).directory.Subscribed c t := by
      rw [subscribed_own, SettledSub]
      obtain ⟨id, content⟩ := msg
      simp [eq_comm (a := d)]
    rw [hsettled]
    simp [ownTask, Departs, Drops, Closed, own_senders]
  | requestTimeout k =>
    have hsettled : core.SettledSub (.requestTimeout k) c t ↔
        (core.own env 0 ⟨0, .rsp (Exec.timeoutRsp k)⟩).directory.Subscribed c t := by
      rw [subscribed_own]
      simp [SettledSub]
    rw [hsettled]
    simp [ownTask, Departs, Drops, Closed, own_senders]

end Core

namespace System

variable {s s' : System} {act : Act} {conn : Conn} {c : ClientId} {t : Topic}

/-! ## Clients that are being served -/

theorem registrations_le (h : s.step act = some s') : registrations s.log ≤ registrations s'.log := by
  obtain ⟨-, hq | ⟨order, task, tasks, -, rfl⟩⟩ := quiet_or_processed h
  · rw [hq.log]
  · rw [processed, registrations_append]
    exact Nat.le_add_right _ _

/-- The next client id is not in use. -/
theorem Reachable.client_ne_next (h : Reachable s) (hreg : registrations s.log + 1 < 2 ^ 32)
    (hc : (s.stubs conn).client? = some c) : c ≠ s.core.nextClientId := by
  obtain ⟨i, r, hi, hr, rfl⟩ := h.counted.client conn c hc
  have hlt := registrations_take_lt hi hr (lt_of_getElem? hi)
  rw [List.take_length] at hlt
  rw [(h.counted.past i r hi).2, h.counted.clientId]
  intro heq
  have := ofNat_inj (by omega) hreg heq
  omega

/-- The client whose registration is processed has sent nothing yet. -/
theorem Reachable.messagesOf_next (h : Reachable s) (hreg : registrations s.log + 1 < 2 ^ 32) :
    messagesOf s.core.nextClientId s.log = [] ∧ queuedOf s.core.nextClientId s.tasks = [] := by
  constructor
  · refine List.eq_nil_iff_forall_not_mem.mpr fun msg hm => ?_
    obtain ⟨r, hr, ht⟩ := mem_messagesOf.mp hm
    obtain ⟨conn, hc⟩ := h.counted.processed r hr _ msg ht
    exact h.client_ne_next hreg hc rfl
  · refine List.eq_nil_iff_forall_not_mem.mpr fun msg hm => ?_
    obtain ⟨task, ht, hfrom⟩ := List.mem_filterMap.mp hm
    obtain ⟨conn, hc⟩ := h.counted.queued _ msg (from?_eq_some.mp hfrom ▸ ht)
    exact h.client_ne_next hreg hc rfl

/-- A client that is being served has its sender, and one whose Deregister task is queued is not
being served any more. -/
structure Served (s : System) : Prop where
  sender : ∀ conn c, s.stubs conn = .serving c → s.core.protocolServerSenders c = some conn
  leaving : ∀ c, .deregister c ∈ s.tasks →
    ∃ conn, (s.stubs conn).client? = some c ∧ ∀ c', s.stubs conn ≠ .serving c'

theorem registrations_processed {order : Order} {task : Task} {tasks : List Task} {conn : Conn}
    (ht : task = .register conn) :
    registrations (s.processed tasks (s.record order task)).log = registrations s.log + 1 := by
  rw [processed, registrations_append, registrations_singleton,
    show (s.record order task).task = .register conn from ht]
  rfl

theorem Served.quiet (hi : Served s) (hq : Quiet s s') : Served s' := by
  refine ⟨fun conn c hc => hq.core ▸ hi.sender conn c (hq.serving conn c hc), fun c hm => ?_⟩
  have hold : .deregister c ∈ s.tasks →
      ∃ conn, (s'.stubs conn).client? = some c ∧ ∀ c', s'.stubs conn ≠ .serving c' := by
    intro hm
    obtain ⟨conn, hc, hno⟩ := hi.leaving c hm
    exact ⟨conn, (hq.client conn).trans hc, fun c' h' => hno c' (hq.serving conn c' h')⟩
  rcases hq.tasks with ht | ⟨task, ht, htask⟩
  · exact hold (ht ▸ hm)
  · rw [ht, List.mem_append, List.mem_singleton] at hm
    rcases hm with hm | rfl
    · exact hold hm
    · obtain ⟨conn, -, hf⟩ := htask
      exact ⟨conn, by rw [hf]; rfl, by simp [hf]⟩

/-- A client that is served before a task keeps its sender, and is not the one that the task takes it
from. -/
theorem Served.sender_processed (hi : Served s) (hs : Reachable s) {order : Order} {task : Task}
    {tasks : List Task} (ht : s.tasks = task :: tasks) (hok : (s.record order task).exec.1 = .ok false)
    (hle : registrations s.log < 2 ^ 32)
    (hreg : registrations (s.processed tasks (s.record order task)).log < 2 ^ 32)
    (hc : s.stubs conn = .serving c) :
    (s.processed tasks (s.record order task)).core.protocolServerSenders c = some conn := by
  have hclient : (s.stubs conn).client? = some c := by rw [hc]; rfl
  have hsender := hi.sender conn c hc
  have hopen : s.isOpen conn = true := by
    rw [isOpen, hc]
    rfl
  refine (Core.senders_processTask hok).mpr ⟨?_, ?_⟩
  · cases task with
    | register conn' =>
      have hne : c ≠ s.core.nextClientId := by
        rw [registrations_processed rfl] at hreg
        exact hs.client_ne_next hreg hclient
      exact (Table.insert_of_ne hne conn').trans hsender
    | _ => exact hsender
  · rintro (hd | ⟨-, hclosed⟩)
    · -- the connection that is left would be this one
      obtain ⟨conn', hc', hno⟩ := hi.leaving c (by rw [ht, ← hd]; exact List.mem_cons_self)
      exact hno c (hs.client_inj hle hc' hclient ▸ hc)
    · obtain ⟨conn', hs', hno⟩ := hclosed
      cases hsender.symm.trans hs'
      exact absurd (hno.symm.trans hopen) (by decide)

theorem Served.processed (hi : Served s) (hs : Reachable s) {order : Order} {task : Task}
    {tasks : List Task} (ht : s.tasks = task :: tasks) (hok : (s.record order task).exec.1 = .ok false)
    (hle : registrations s.log < 2 ^ 32)
    (hreg : registrations (s.processed tasks (s.record order task)).log < 2 ^ 32) :
    Served (s.processed tasks (s.record order task)) := by
  refine ⟨fun conn c hc => ?_, fun c hm => ?_⟩
  · rw [processed_stubs] at hc
    split_ifs at hc with hr
    · have hr : task = .register conn := hr
      cases hc
      subst hr
      refine (Core.senders_processTask hok).mpr ⟨Table.insert_self _ _ _, ?_⟩
      rintro (hd | ⟨hd, -⟩)
      · cases hd
      · cases hd
    · exact hi.sender_processed hs ht hok hle hreg hc
  · obtain ⟨conn, hc, hno⟩ := hi.leaving c (by rw [ht]; exact List.mem_cons_of_mem _ hm)
    refine ⟨conn, hs.conns.client_processed order ht hc, fun c' => ?_⟩
    rw [processed_stubs]
    split_ifs with hr
    · -- a connection that registers has no client yet
      have hm : conn ∈ registers s.tasks := by
        rw [ht, show task = _ from hr]
        exact List.mem_cons_self
      rw [hs.conns.queued conn hm] at hc
      cases hc
    · exact hno c'

theorem Served.step (hi : Served s) (hs : Reachable s) (h : s.step act = some s')
    (hrun : s'.status = .running) (hreg : registrations s'.log < 2 ^ 32) : Served s' := by
  have hle : registrations s.log < 2 ^ 32 := (registrations_le h).trans_lt hreg
  obtain ⟨-, hq | ⟨order, task, tasks, ht, rfl⟩⟩ := quiet_or_processed h
  · exact hi.quiet hq
  · exact hi.processed hs ht (status_of_eq_running hrun) hle hreg

theorem served_init : Served init := ⟨by simp [init], by simp [init]⟩

theorem Reachable.served (h : Reachable s) :
    s.status = .running → registrations s.log < 2 ^ 32 → Served s := by
  refine Lts.Reachable.induct (I := fun s => s.status = .running → registrations s.log < 2 ^ 32 →
    Served s) (fun _ _ => served_init) (fun s act s' hs hi hstep hrun hreg => ?_) h
  obtain ⟨hrun', -⟩ := quiet_or_processed hstep
  exact (hi hrun' ((registrations_le hstep).trans_lt hreg)).step hs hstep hrun hreg

/-! ## Their subscriptions -/

/-- The directory has the subscriptions that the messages of a registered client leave. -/
def Subscribes (s : System) : Prop :=
  ∀ c conn, s.core.protocolServerSenders c = some conn → ∀ t,
    subbed t (messagesOf c s.log) = true → s.core.directory.Subscribed c t

theorem Subscribes.step (hi : Subscribes s) (hs : Reachable s) (h : s.step act = some s')
    (hrun : s'.status = .running) (hreg : registrations s'.log < 2 ^ 32) : Subscribes s' := by
  obtain ⟨-, hq | ⟨order, task, tasks, ht, rfl⟩⟩ := quiet_or_processed h
  · intro c conn
    rw [hq.core, hq.log]
    exact hi c conn
  · intro c conn hc t hsub
    have hok : (s.record order task).exec.1 = .ok false := status_of_eq_running hrun
    obtain ⟨hsettled, hstay⟩ := (Core.senders_processTask hok).mp hc
    refine (Core.subscribed_processTask hok).mpr ⟨?_, hstay⟩
    rw [processed, messagesOf_concat] at hsub
    rcases Core.settledSenders_cases hsettled with ⟨htask, hnew⟩ | hold
    · -- a client that is registered now has sent nothing
      have htask' : task = .register conn := htask
      rw [registrations_processed htask'] at hreg
      have hnil := (hs.messagesOf_next hreg).1
      rw [hnew, show (s.record order task).core.nextClientId = s.core.nextClientId from rfl, hnil,
        show (s.record order task).task = _ from htask] at hsub
      cases hsub
    · cases hfrom : (s.record order task).task.from? c with
      | none =>
        rw [hfrom, Option.toList_none, List.append_nil] at hsub
        refine Or.inl ⟨hi c conn hold t hsub, ?_⟩
        rintro ⟨id, htask⟩
        rw [show (s.record order task).task = _ from htask, Task.from?, if_pos rfl] at hfrom
        cases hfrom
      | some msg =>
        rw [hfrom, Option.toList_some, subbed_concat] at hsub
        have htask : task = .message c msg := from?_eq_some.mp hfrom
        obtain ⟨id, content⟩ := msg
        subst htask
        by_cases hcontent : content = .sub ⟨t⟩
        · exact Or.inr ⟨id, by rw [hcontent]; rfl⟩
        · obtain ⟨hbefore, hne⟩ := subscribesTo_of_ne hsub hcontent
          refine Or.inl ⟨hi c conn hold t hbefore, ?_⟩
          rintro ⟨id', htask⟩
          cases htask
          exact hne rfl

/-- **The directory has the subscriptions that the messages of a registered client leave.** -/
theorem Reachable.subscribes (h : Reachable s) :
    s.status = .running → registrations s.log < 2 ^ 32 → Subscribes s := by
  refine Lts.Reachable.induct (I := fun s => s.status = .running → registrations s.log < 2 ^ 32 →
    Subscribes s) (fun _ _ c conn hc => ?_) (fun s act s' hs hi hstep hrun hreg => ?_) h
  · cases hc
  · obtain ⟨hrun', -⟩ := quiet_or_processed hstep
    exact (hi hrun' ((registrations_le hstep).trans_lt hreg)).step hs hstep hrun hreg

end System

end T2Bus
