import T2Bus.Client.Serving

/-!
# When the tasks of a client end its session

`main_loop` hands every error of `before_send` up. It is one when a Srv cannot be claimed locally, and
nothing else is: an Unsrv always finds its owner as long as no message id is used twice.

* `Turn.Survives`; `Turn.survives_task_iff`: one task;
* **`Session.survives_iff_claimable`**: the tasks of a run;
* `Session.not_survives_servedTwice`: a client that serves a path twice.
-/

namespace T2Bus

namespace Turn

variable {r : Turn} {task : ClientTask}

/-- The task is sent and the loop goes on, unless it is `Stop`; the callbacks of other messages, the
subscriptions, and the owners of other topics stay. -/
structure Survives (r : Turn) (task : ClientTask) : Prop where
  result : r.exec.1 = .ok (decide (task = .stop))
  callbacks : ∀ k, k ≠ r.core.nextMsgId + 1 → r.core.SameCallbacks r.exec.2.core k
  subscribed : ∀ k t, r.core.subscriptions.Subscribed k t →
    r.exec.2.core.subscriptions.Subscribed k t
  owner : ∀ t, task.content? ≠ some (.srv ⟨t⟩) → task.content? ≠ some (.unsrv ⟨t⟩) →
    r.exec.2.core.subscriptions.getOwner t = r.core.subscriptions.getOwner t

theorem exec_stop (hevent : r.event = .task .stop) : r.exec = (.ok true, .start r.core) := by
  rw [exec, hevent]
  rfl

theorem exec_task (hevent : r.event = .task task) (hne : task ≠ .stop) :
    r.exec = ClientExec.goesOn (ClientExec.send r.env task (.start r.core)) := by
  rw [exec, hevent]
  cases task <;> first | rfl | exact absurd rfl hne

/-- **A task succeeds** exactly when it is claimable and owned, on a transport that works. -/
theorem result_iff (hevent : r.event = .task task) (htr : r.env.Reliable) :
    r.exec.1 = .ok (decide (task = .stop)) ↔ task.SrvClaimable r.core ∧ task.UnsrvOwned r.core := by
  by_cases hne : task = .stop
  · subst hne
    rw [exec_stop hevent]
    exact iff_of_true rfl ⟨trivial, trivial⟩
  · rw [exec_task hevent hne, ← ClientCore.beforeSend_ok_iff hne, decide_eq_false hne]
    refine Iff.trans ?_ (ClientExec.send_ok_iff (s := .start r.core) htr)
    rw [ClientExec.goesOn]
    cases (ClientExec.send r.env task (.start r.core)).1 <;> simp [Except.map]

/-- **A task survives** exactly when it is claimable and owned. -/
theorem survives_task_iff (hevent : r.event = .task task) (htr : r.env.Reliable) :
    r.Survives task ↔ task.SrvClaimable r.core ∧ task.UnsrvOwned r.core := by
  rw [← result_iff hevent htr]
  refine ⟨Survives.result, fun hok => ?_⟩
  by_cases hne : task = .stop
  · subst hne
    have hcore : r.exec.2.core = r.core := by rw [exec_stop hevent]; rfl
    refine ⟨hok, fun k _ => ?_, fun k t h => ?_, fun t _ _ => ?_⟩
    · rw [hcore]
      exact ⟨rfl, rfl, rfl, rfl⟩
    · rwa [hcore]
    · rw [hcore]
  · rw [decide_eq_false hne] at hok
    obtain ⟨msg, hb⟩ : ∃ msg, r.core.beforeSend task = (.ok msg, r.exec.2.core) := by
      rcases exec_ok hok with ⟨task', msg, htask, hb, -⟩ | ⟨msg, hmsg, -⟩
      · have heq : task = task' := by
          rw [sends?, hevent] at htask
          cases task <;> cases htask <;> rfl
        exact ⟨msg, heq ▸ hb⟩
      · rw [hevent] at hmsg
        cases hmsg
    obtain ⟨hsends, hcontent⟩ := ClientCore.sends_of_beforeSend hb
    refine ⟨by rwa [decide_eq_false hne], fun k hk => ?_, fun k t h => ?_, fun t hsrv hunsrv => ?_⟩
    · have hsame := r.core.sameCallbacks_beforeSend task hk
      rwa [hb] at hsame
    · exact (hsends.subscribed k t).mpr (Or.inl h)
    · rw [hcontent] at hsrv hunsrv
      rw [hsends.owner, if_neg fun e => hsrv (congrArg some e), if_neg fun e => hunsrv (congrArg some e)]

end Turn

namespace Session

variable {s s' : Session}

/-- The tasks of the run so far have ended no session: each of them survived, and if the loop has
failed, it was not in a turn with a task. -/
structure Survives (s : Session) : Prop where
  tasks : ∀ r ∈ s.log, ∀ task, r.event = .task task → r.Survives task
  failed : ∀ fault, s.status = .failed fault →
    ∃ r ∈ s.log, r.exec.1 = .error fault ∧ ∀ task, r.event ≠ .task task

/-- A failure comes from a turn. -/
theorem Reachable.failed (h : Reachable s) :
    ∀ fault, s.status = .failed fault → ∃ r ∈ s.log, r.exec.1 = .error fault := by
  refine Lts.invariant (I := fun s => ∀ fault, s.status = .failed fault →
    ∃ r ∈ s.log, r.exec.1 = .error fault) (by simp [init]) (fun s act s' hi hstep fault hf => ?_) h
  obtain ⟨-, hq | ⟨event, order, transport, tasks, -, -, rfl⟩⟩ := quiet_or_turned hstep
  · rw [hq.status] at hf
    rw [hq.log]
    exact hi fault hf
  · refine ⟨_, List.mem_append_right _ (List.mem_singleton_self _), ?_⟩
    rw [turned] at hf
    cases hr : (s.turn event order transport).exec.1 with
    | ok stop =>
      rw [hr] at hf
      cases stop <;> cases hf
    | error e =>
      rw [hr] at hf
      cases hf
      rfl

/-- Every Unsrv of the run found its owner. -/
theorem Reachable.unsrvOwned (h : Reachable s) (hlen : s.sent.length < 2 ^ 32) :
    ∀ r ∈ s.log, ∀ task, r.event = .task task → task.UnsrvOwned r.core := by
  intro r hr task ht
  obtain ⟨s₀, h₀⟩ := h.at_mem hr
  obtain ⟨tasks, htasks⟩ := h₀.tasks
  rw [ht] at htasks
  rw [h₀.core]
  exact Balanced.unsrvOwned (tasksAfter_task.mp htasks)
    (Reachable.balanced h₀.reachable h₀.running ((sent_length_run h₀.later).trans_lt hlen))

/-- **The tasks of a run end no session exactly when every Srv could be claimed**: its topic has no
wildcard, and the client does not serve it already. From `2 ^ 32` messages on, every Unsrv has to find
its owner as well. -/
theorem survives_iff_claimable (h : Reachable s) (htr : ∀ r ∈ s.log, r.env.Reliable) :
    s.Survives ↔ ∀ r ∈ s.log, ∀ task, r.event = .task task →
      task.SrvClaimable r.core ∧ (2 ^ 32 ≤ s.sent.length → task.UnsrvOwned r.core) := by
  constructor
  · intro hs r hr task ht
    obtain ⟨hclaim, howned⟩ := (Turn.survives_task_iff ht (htr r hr)).mp (hs.tasks r hr task ht)
    exact ⟨hclaim, fun _ => howned⟩
  · intro hs
    have htasks : ∀ r ∈ s.log, ∀ task, r.event = .task task → r.Survives task := by
      intro r hr task ht
      obtain ⟨hclaim, howned⟩ := hs r hr task ht
      refine (Turn.survives_task_iff ht (htr r hr)).mpr ⟨hclaim, ?_⟩
      by_cases hlen : 2 ^ 32 ≤ s.sent.length
      · exact howned hlen
      · exact h.unsrvOwned (Nat.lt_of_not_le hlen) r hr task ht
    refine ⟨htasks, fun fault hf => ?_⟩
    obtain ⟨r, hr, he⟩ := h.failed fault hf
    refine ⟨r, hr, he, fun task ht => ?_⟩
    have hok := (htasks r hr task ht).result
    rw [he] at hok
    cases hok

/-! ## Serving a path once, and twice -/

/-- A turn with a task, on a transport that works. -/
def sending (task : ClientTask) : Act := .turn (.task task) trivial .given fun _ => .ok ()

def served : Topic := ⟨"p", ⟨"a"⟩⟩

theorem served_valid : served.Valid := by decide

/-- A path is served, and the `RequestSubscription` dropped. -/
def servedOnce : List Act :=
  [.serve served served_valid, sending (.srv ⟨⟨served⟩, 0, 0⟩), .dropServe served,
    sending (.unsrv ⟨⟨served⟩⟩)]

/-- A path is served while it is served already. -/
def servedTwice : List Act :=
  [.serve served served_valid, sending (.srv ⟨⟨served⟩, 0, 0⟩), .serve served served_valid,
    sending (.srv ⟨⟨served⟩, 1, 1⟩)]

/-- The tasks of a client that serves a path once. -/
theorem survives_iff_claimable_servedOnce : ∃ s, Lts.run step init servedOnce = some s ∧
    (s.Survives ↔ ∀ r ∈ s.log, ∀ task, r.event = .task task →
      task.SrvClaimable r.core ∧ (2 ^ 32 ≤ s.sent.length → task.UnsrvOwned r.core)) := by
  have hrun : (Lts.run step init servedOnce).map (fun s => s.log.map fun r => r.env.transport) =
      some (List.replicate 2 fun _ => .ok ()) := rfl
  obtain ⟨s, hs, he⟩ := Option.map_eq_some_iff.mp hrun
  refine ⟨s, hs, survives_iff_claimable ⟨_, hs⟩ fun r hr msg => ?_⟩
  have hm : r.env.transport ∈ List.replicate 2 fun _ => .ok () := he ▸ List.mem_map_of_mem hr
  rw [List.eq_of_mem_replicate hm]

/-- **The second Srv on a path ends the session**, although the transport works. -/
theorem not_survives_servedTwice : ∃ s, Lts.run step init servedTwice = some s ∧
    (∀ r ∈ s.log, r.env.Reliable) ∧ s.status = .failed (.err .topicAlreadyClaimed) ∧
    ¬ s.Survives := by
  have hrun : (Lts.run step init servedTwice).map (fun s =>
      (s.log.map fun r => r.env.transport, s.status, s.log[1]?.map fun r => (r.event, r.exec.1))) =
      some (List.replicate 2 fun _ => .ok (), .failed (.err .topicAlreadyClaimed),
        some (.task (.srv ⟨⟨served⟩, 1, 1⟩), .error (.err .topicAlreadyClaimed))) := rfl
  obtain ⟨s, hs, he⟩ := Option.map_eq_some_iff.mp hrun
  obtain ⟨htr, hstatus, hlast⟩ := by simpa only [Prod.mk.injEq] using he
  obtain ⟨r, hr, he⟩ := Option.map_eq_some_iff.mp hlast
  obtain ⟨hevent, hresult⟩ := Prod.mk.inj he
  refine ⟨s, hs, fun r hr msg => ?_, hstatus, fun h => ?_⟩
  · have hm : r.env.transport ∈ List.replicate 2 fun _ => .ok () := htr ▸ List.mem_map_of_mem hr
    rw [List.eq_of_mem_replicate hm]
  · have hok := (h.tasks r (List.mem_of_getElem? hr) _ hevent).result
    rw [hresult] at hok
    cases hok

end Session

end T2Bus
