import T2Bus.Server.Forgotten

/-!
# Timeouts

A request that is pending has a timer that runs, or its timeout is queued. So when neither is left,
every request of a client that is still there has been answered.

* `System.Timed`; **`System.Reachable.timed`**;
* **`System.responded_of_quiet`**.
-/

namespace T2Bus

namespace System

variable {s s' : System} {act : Act}

/-- The timeout of a pending request is still to come. -/
def Timed (s : System) : Prop :=
  ∀ k p, s.core.pendingResponses k = some p → k ∈ s.timers ∨ .requestTimeout k ∈ s.tasks

/-- What is queued stays queued. -/
theorem Timed.queue (hi : s.Timed) (hcore : s'.core = s.core) (htimers : s'.timers = s.timers)
    (htasks : s.tasks ⊆ s'.tasks) : s'.Timed := by
  intro k p hp
  rw [hcore] at hp
  rw [htimers]
  exact (hi k p hp).imp_right fun hm => htasks hm

/-- A timer that fires queues the timeout. -/
theorem Timed.fire (hi : s.Timed) (k : MsgId) :
    Timed (({ s with timers := s.timers.erase k }).enqueue (.requestTimeout k)) := by
  intro k' p hp
  rcases hi k' p hp with hm | hm
  · by_cases hk : k' = k
    · right
      rw [hk]
      exact List.mem_append_right _ (List.mem_singleton_self _)
    · exact Or.inl ((List.mem_erase_of_ne hk).mpr hm)
  · exact Or.inr (List.mem_append_left _ hm)

/-- A request that is accepted gets its timer, and a timeout that is processed answers its request. -/
theorem Timed.processed (hi : s.Timed) {order : Order} {task : Task} {tasks : List Task}
    (ht : s.tasks = task :: tasks) (hok : (s.record order task).exec.1 = .ok false) :
    (s.processed tasks (s.record order task)).Timed := by
  intro k p hp
  change k ∈ s.timers ++ (s.record order task).exec.2.timers ∨ .requestTimeout k ∈ tasks
  obtain ⟨hsettled, -⟩ := (Core.pending_processTask hok).mp hp
  rcases Core.settled_eq_some.mp hsettled with ⟨hacc, rfl⟩ | ⟨hold, -, hans⟩
  · left
    obtain ⟨acks, heq, -⟩ := Exec.processTask_eq ⟨s.isOpen, order⟩ task s.core
    have htimers : (s.record order task).exec.2.timers = [s.core.nextMsgId] := by
      change (Exec.processTask ⟨s.isOpen, order⟩ task (.start s.core)).2.timers = _
      rw [heq]
      change ((s.core.accepts ⟨s.isOpen, order⟩ task).map fun _ => s.core.nextMsgId).toList = _
      rw [show s.core.accepts ⟨s.isOpen, order⟩ task = _ from hacc]
      rfl
    rw [htimers]
    exact List.mem_append_right _ (List.mem_singleton_self _)
  · rcases hi k p hold with hm | hm
    · exact Or.inl (List.mem_append_left _ hm)
    · rw [ht] at hm
      rcases List.mem_cons.mp hm with rfl | hm
      · -- the timeout is the task itself, which answers the request
        exact absurd rfl (hans p (Exec.timeoutRsp k) (Core.answers_eq_some.mpr ⟨hold, Or.inr ⟨rfl, rfl⟩⟩))
      · exact Or.inr hm

/-- **The timeout of every pending request is still to come.** -/
theorem Reachable.timed (h : Reachable s) : s.status = .running → s.Timed := by
  refine Lts.Reachable.induct (I := fun s => s.status = .running → s.Timed)
    (fun _ k p hp => by cases hp) (fun s act s' hs hi hstep hrun' => ?_) h
  obtain ⟨hrun, h⟩ := step_eq_some.mp hstep
  have hi := hi hrun
  cases act with
  | connect conn =>
    rw [stepRunning] at h
    split_ifs at h
    cases h
    exact hi.queue rfl rfl (List.subset_append_left _ _)
  | receive _ _ _ | leave _ =>
    rw [stepRunning] at h
    split at h
    · cases h
      exact hi.queue rfl rfl (List.subset_append_left _ _)
    · cases h
  | close conn =>
    rw [stepRunning] at h
    split at h
    · cases h
      exact hi.queue rfl rfl (List.Subset.refl _)
    · cases h
  | fire k =>
    rw [stepRunning] at h
    split_ifs at h
    cases h
    exact hi.fire k
  | process order =>
    rw [stepRunning] at h
    cases ht : s.tasks with
    | nil => simp [ht] at h
    | cons task tasks =>
      rw [ht] at h
      cases h
      exact hi.processed ht (status_of_eq_running hrun')
  | stopSignal =>
    cases h
    cases hrun'

/-- **When no timer runs and no task is queued, every accepted request of a client that is still there
has its response**, in every run whose tasks keep such requests. -/
theorem responded_of_quiet (h : Reachable s) (hrun : s.status = .running)
    (hkeeps : ∀ r ∈ s.log, r.KeepsRequests) (htimers : s.timers = []) (htasks : s.tasks = []) {i : ℕ}
    {r : Record} {k : MsgId} {p : PendingResponse} (hr : s.log[i]? = some r) (hacc : r.Accepted k p)
    (hstill : s.Still r p.requesterId) : ∃ j, Responded s.log i j p := by
  obtain ⟨hacc', rfl⟩ := Record.accepted_iff.mp hacc
  rcases h.kept hrun hkeeps i r p hr hacc' hstill with ⟨hp, -⟩ | hj
  · rcases h.timed hrun _ p hp with hm | hm
    · rw [htimers] at hm
      cases hm
    · rw [htasks] at hm
      cases hm
  · exact hj

end System

end T2Bus
