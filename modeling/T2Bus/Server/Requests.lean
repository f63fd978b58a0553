import T2Bus.Server.Acks
import T2Bus.Server.Count

/-!
# Requests over a run

The log of a run tells which task accepted a request and which task answered it. A pending entry
stands for the last request accepted under its id, and every answer serves such a request.

* `AcceptsAt`, `AnswersAt`, `Touches`: what the `i`-th task does to a message id;
* `Waits`: a request that nobody has answered since; `Serves`: the answer to a request;
* `Core.settled_eq_some`: the pending entries a task leaves;
* `System.Traced`: every pending entry is a waiting request, every answer serves a request.
-/

namespace T2Bus

namespace Core

variable {core : Core} {env : Env} {task : Task}

/-- A task that accepts a request answers none. -/
theorem answers_of_accepts {p : PendingResponse} (h : core.accepts env task = some p) :
    core.answers task = none := by
  obtain ⟨params, rfl, -⟩ := accepts_eq_some.mp h
  rfl

/-- **The pending entries that a task leaves**: the new one, and the old ones it does not touch. -/
theorem settled_eq_some {k : MsgId} {p : PendingResponse} :
    core.settled env task k = some p ↔
      (core.accepts env task = some p ∧ k = core.nextMsgId) ∨
        (core.pendingResponses k = some p ∧
          (∀ p', core.accepts env task = some p' → k ≠ core.nextMsgId) ∧
          ∀ p' params, core.answers task = some (p', params) → k ≠ params.reqId) := by
  rw [settled]
  cases hacc : core.accepts env task with
  | some p' =>
    rw [answers_of_accepts hacc]
    simp only [Table.insert_apply]
    by_cases hk : k = core.nextMsgId <;> simp [hk]
  | none =>
    cases hans : core.answers task with
    | none => simp
    | some a =>
      obtain ⟨p', params⟩ := a
      simp only [Table.remove_eq_some]
      simp [and_comm]

end Core

/-! ## The log -/

section Log

variable (log : List Record)

/-- The `i`-th task accepts a request; it is delivered under `k`. -/
def AcceptsAt (i : ℕ) (k : MsgId) (p : PendingResponse) : Prop :=
  ∃ r, log[i]? = some r ∧ r.accepts = some p ∧ r.core.nextMsgId = k

/-- The `j`-th task answers a request. -/
def AnswersAt (j : ℕ) (p : PendingResponse) (params : RspMsg) : Prop :=
  ∃ r, log[j]? = some r ∧ r.answers = some (p, params)

/-- The `m`-th task accepts or answers a request under `k`. -/
def Touches (m : ℕ) (k : MsgId) : Prop :=
  (∃ p, AcceptsAt log m k p) ∨ ∃ p params, AnswersAt log m p params ∧ params.reqId = k

/-- The request accepted by the `i`-th task is waiting for its answer. -/
structure Waits (i : ℕ) (k : MsgId) (p : PendingResponse) : Prop where
  accepts : AcceptsAt log i k p
  untouched : ∀ m, i < m → ¬ Touches log m k

/-- The `j`-th task answers the request that the `i`-th one accepted. -/
structure Serves (i j : ℕ) (p : PendingResponse) (params : RspMsg) : Prop where
  lt : i < j
  accepts : AcceptsAt log i params.reqId p
  answers : AnswersAt log j p params
  untouched : ∀ m, i < m → m < j → ¬ Touches log m params.reqId

variable {log} {r : Record}

theorem acceptsAt_concat {i : ℕ} {k : MsgId} {p : PendingResponse} :
    AcceptsAt (log ++ [r]) i k p ↔
      AcceptsAt log i k p ∨ i = log.length ∧ r.accepts = some p ∧ r.core.nextMsgId = k := by
  simp only [AcceptsAt, getElem?_concat_iff]
  constructor
  · rintro ⟨r', h | ⟨h, rfl⟩, ha⟩
    · exact Or.inl ⟨r', h, ha⟩
    · exact Or.inr ⟨h, ha⟩
  · rintro (⟨r', h, ha⟩ | ⟨h, ha⟩)
    · exact ⟨r', Or.inl h, ha⟩
    · exact ⟨r, Or.inr ⟨h, rfl⟩, ha⟩

theorem answersAt_concat {j : ℕ} {p : PendingResponse} {params : RspMsg} :
    AnswersAt (log ++ [r]) j p params ↔
      AnswersAt log j p params ∨ j = log.length ∧ r.answers = some (p, params) := by
  simp only [AnswersAt, getElem?_concat_iff]
  constructor
  · rintro ⟨r', h | ⟨h, rfl⟩, ha⟩
    · exact Or.inl ⟨r', h, ha⟩
    · exact Or.inr ⟨h, ha⟩
  · rintro (⟨r', h, ha⟩ | ⟨h, ha⟩)
    · exact ⟨r', Or.inl h, ha⟩
    · exact ⟨r, Or.inr ⟨h, rfl⟩, ha⟩

theorem AcceptsAt.lt {i : ℕ} {k : MsgId} {p : PendingResponse} (h : AcceptsAt log i k p) :
    i < log.length := lt_of_getElem? h.choose_spec.1

theorem AnswersAt.lt {j : ℕ} {p : PendingResponse} {params : RspMsg}
    (h : AnswersAt log j p params) : j < log.length := lt_of_getElem? h.choose_spec.1

theorem Touches.lt {m : ℕ} {k : MsgId} (h : Touches log m k) : m < log.length := by
  rcases h with ⟨p, h⟩ | ⟨p, params, h, -⟩
  · exact h.lt
  · exact h.lt

theorem touches_concat {m : ℕ} {k : MsgId} :
    Touches (log ++ [r]) m k ↔ Touches log m k ∨
      m = log.length ∧ ((∃ p, r.accepts = some p ∧ r.core.nextMsgId = k) ∨
        ∃ p params, r.answers = some (p, params) ∧ params.reqId = k) := by
  simp only [Touches, acceptsAt_concat, answersAt_concat]
  constructor
  · rintro (⟨p, h | ⟨hm, h⟩⟩ | ⟨p, params, h | ⟨hm, h⟩, hk⟩)
    · exact Or.inl (Or.inl ⟨p, h⟩)
    · exact Or.inr ⟨hm, Or.inl ⟨p, h⟩⟩
    · exact Or.inl (Or.inr ⟨p, params, h, hk⟩)
    · exact Or.inr ⟨hm, Or.inr ⟨p, params, h, hk⟩⟩
  · rintro ((⟨p, h⟩ | ⟨p, params, h, hk⟩) | ⟨hm, ⟨p, h⟩ | ⟨p, params, h, hk⟩⟩)
    · exact Or.inl ⟨p, Or.inl h⟩
    · exact Or.inr ⟨p, params, Or.inl h, hk⟩
    · exact Or.inl ⟨p, Or.inr ⟨hm, h⟩⟩
    · exact Or.inr ⟨p, params, Or.inr ⟨hm, h⟩, hk⟩

/-- The past stays as it is. -/
theorem Serves.concat {i j : ℕ} {p : PendingResponse} {params : RspMsg}
    (h : Serves log i j p params) : Serves (log ++ [r]) i j p params where
  lt := h.lt
  accepts := acceptsAt_concat.mpr (Or.inl h.accepts)
  answers := answersAt_concat.mpr (Or.inl h.answers)
  untouched m him hmj ht := by
    have hj := h.answers.lt
    rcases touches_concat.mp ht with ht | ⟨rfl, -⟩
    · exact h.untouched m him hmj ht
    · omega

/-- A request stays waiting when the next task does not touch its id. -/
theorem Waits.concat {i : ℕ} {k : MsgId} {p : PendingResponse} (h : Waits log i k p)
    (hacc : ∀ p', r.accepts = some p' → k ≠ r.core.nextMsgId)
    (hans : ∀ p' params, r.answers = some (p', params) → k ≠ params.reqId) :
    Waits (log ++ [r]) i k p where
  accepts := acceptsAt_concat.mpr (Or.inl h.accepts)
  untouched m him ht := by
    rcases touches_concat.mp ht with ht | ⟨-, ⟨p', h', hk⟩ | ⟨p', params, h', hk⟩⟩
    · exact h.untouched m him ht
    · exact hacc p' h' hk.symm
    · exact hans p' params h' hk.symm

/-- A request is waiting once it is accepted. -/
theorem Waits.new {p : PendingResponse} (h : r.accepts = some p) :
    Waits (log ++ [r]) log.length r.core.nextMsgId p where
  accepts := acceptsAt_concat.mpr (Or.inr ⟨rfl, h, rfl⟩)
  untouched m him ht := by
    have hm := ht.lt
    rw [List.length_append, List.length_singleton] at hm
    omega

/-- What answers a waiting request serves it. -/
theorem Waits.serves {i : ℕ} {p : PendingResponse} {params : RspMsg}
    (h : Waits log i params.reqId p) (hans : r.answers = some (p, params)) :
    Serves (log ++ [r]) i log.length p params where
  lt := h.accepts.lt
  accepts := acceptsAt_concat.mpr (Or.inl h.accepts)
  answers := answersAt_concat.mpr (Or.inr ⟨rfl, hans⟩)
  untouched m him hm ht := by
    rcases touches_concat.mp ht with ht | ⟨rfl, -⟩
    · exact h.untouched m him ht
    · omega

/-- **A request is served at most once.** -/
theorem Serves.unique {i j j' : ℕ} {p p' : PendingResponse} {params params' : RspMsg}
    (h : Serves log i j p params) (h' : Serves log i j' p' params') : j = j' := by
  -- both answers name the id under which the request was delivered
  have hk : params.reqId = params'.reqId := by
    obtain ⟨r₁, h₁, -, hk₁⟩ := h.accepts
    obtain ⟨r₂, h₂, -, hk₂⟩ := h'.accepts
    cases h₁.symm.trans h₂
    exact hk₁.symm.trans hk₂
  rcases Nat.lt_trichotomy j j' with hlt | heq | hlt
  · exact absurd (Or.inr ⟨p, params, h.answers, hk⟩) (h'.untouched j h.lt hlt)
  · exact heq
  · exact absurd (Or.inr ⟨p', params', h'.answers, hk.symm⟩) (h.untouched j' h'.lt hlt)

/-- A request that is waiting is not served. -/
theorem Waits.not_serves {i j : ℕ} {k : MsgId} {p p' : PendingResponse} {params : RspMsg}
    (h : Waits log i k p) (hs : Serves log i j p' params) : False := by
  have hk : k = params.reqId := by
    obtain ⟨r₁, h₁, -, hk₁⟩ := h.accepts
    obtain ⟨r₂, h₂, -, hk₂⟩ := hs.accepts
    cases h₁.symm.trans h₂
    exact hk₁.symm.trans hk₂
  exact h.untouched j hs.lt (Or.inr ⟨p', params, hs.answers, hk.symm⟩)

end Log

/-! ## The invariant -/

namespace System

variable {s s' : System} {act : Act}

/-- Every pending entry is a waiting request, and every answer served a request. -/
structure Traced (s : System) : Prop where
  pending : s.status = .running → ∀ k p, s.core.pendingResponses k = some p →
    ∃ i, Waits s.log i k p
  answers : ∀ j p params, AnswersAt s.log j p params → ∃ i, Serves s.log i j p params

theorem traced_init : Traced init :=
  ⟨by simp [init, Core.new], by rintro j p params ⟨r, h, -⟩; simp [init] at h⟩

theorem status_of_eq_running {result : Except Fault Bool} (h : Status.of result = .running) :
    result = .ok false := by
  match result with
  | .ok false => rfl
  | .ok true => cases h
  | .error _ => cases h

theorem Traced.step (hi : Traced s) (h : s.step act = some s') : Traced s' := by
  obtain ⟨hrun, hq | ⟨order, task, tasks, -, rfl⟩⟩ := quiet_or_processed h
  · exact ⟨fun _ => hq.core ▸ hq.log ▸ hi.pending hrun, hq.log ▸ hi.answers⟩
  · have hpending := hi.pending hrun
    refine ⟨fun hrun' k p hp => ?_, fun j p params hans => ?_⟩
    · -- the task succeeded, so it left the settled entries
      have hok : (s.record order task).exec.1 = .ok false := status_of_eq_running hrun'
      obtain ⟨hsettled, -⟩ := (Core.pending_processTask hok).mp hp
      rcases Core.settled_eq_some.mp hsettled with ⟨hacc, rfl⟩ | ⟨hold, hacc, hans⟩
      · exact ⟨_, Waits.new hacc⟩
      · obtain ⟨i, hw⟩ := hpending k p hold
        exact ⟨i, hw.concat hacc hans⟩
    · rcases answersAt_concat.mp hans with hold | ⟨rfl, hnew⟩
      · obtain ⟨i, hs⟩ := hi.answers j p params hold
        exact ⟨i, hs.concat⟩
      · obtain ⟨i, hw⟩ := hpending _ _ (Core.answers_eq_some.mp hnew).1
        exact ⟨i, hw.serves hnew⟩

theorem Reachable.traced (h : Reachable s) : Traced s :=
  Lts.invariant traced_init (fun _ _ _ => Traced.step) h

end System

end T2Bus
