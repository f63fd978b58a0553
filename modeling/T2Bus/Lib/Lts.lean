import Mathlib.Data.Option.Basic
import Mathlib.Data.List.Induction

/-!
# Transition systems given by a partial step function

A system is a function `step : σ → α → Option σ`: the successor of a state under an action, or
`none` when the action is not enabled there. A run is a list of actions.

* `run`, `run_append`, `run_concat`: runs and their prefixes;
* `Reachable` with its induction rules `Reachable.induct` and `invariant`;
* `Reachable.map`: a simulation by a function on states, which may stutter;
* `Since`: what has happened in a log and was not revoked behind.
-/

namespace Lts

variable {σ α : Type*} (step : σ → α → Option σ)

/-- The state after a list of actions, `none` as soon as one of them is not enabled. -/
def run : σ → List α → Option σ
  | s, [] => some s
  | s, a :: as => (step s a).bind fun s' => run s' as

@[simp] theorem run_nil (s : σ) : run step s [] = some s := rfl

theorem run_cons (s : σ) (a : α) (as : List α) :
    run step s (a :: as) = (step s a).bind fun s' => run step s' as := rfl

theorem run_append (s : σ) (as bs : List α) :
    run step s (as ++ bs) = (run step s as).bind fun s' => run step s' bs := by
  induction as generalizing s with
  | nil => rfl
  | cons a as ih =>
    rw [List.cons_append, run_cons, run_cons, Option.bind_assoc]
    exact congrArg _ (funext fun s' => ih s')

theorem run_concat {s s' : σ} {as : List α} {a : α} :
    run step s (as ++ [a]) = some s' ↔ ∃ t, run step s as = some t ∧ step t a = some s' := by
  simp [run_append, run_cons, Option.bind_eq_some_iff]

/-- `s'` is the state after some run from `s`. -/
def Reachable (s s' : σ) : Prop := ∃ as, run step s as = some s'

variable {step}

theorem Reachable.refl (s : σ) : Reachable step s s := ⟨[], rfl⟩

theorem Reachable.tail {s t s' : σ} {a : α} (h : Reachable step s t) (ha : step t a = some s') :
    Reachable step s s' := by
  obtain ⟨as, has⟩ := h
  exact ⟨as ++ [a], (run_concat step).mpr ⟨t, has, ha⟩⟩

theorem Reachable.trans {s t s' : σ} (h : Reachable step s t) (h' : Reachable step t s') :
    Reachable step s s' := by
  obtain ⟨as, has⟩ := h
  obtain ⟨bs, hbs⟩ := h'
  refine ⟨as ++ bs, ?_⟩
  rw [run_append, has]
  exact hbs

/-- Induction along a run, the last action split off. -/
theorem run_induct {P : List α → σ → Prop} {s₀ : σ} (init : P [] s₀)
    (tail : ∀ as s a s', run step s₀ as = some s → P as s → step s a = some s' → P (as ++ [a]) s') :
    ∀ {as s}, run step s₀ as = some s → P as s := by
  intro as
  induction as using List.reverseRecOn with
  | nil =>
    intro s h
    cases h
    exact init
  | append_singleton as a ih =>
    intro s h
    obtain ⟨t, ht, ha⟩ := (run_concat step).mp h
    exact tail as t a s ht (ih ht) ha

/-- **What holds initially and is kept by every step from a reachable state always holds.** -/
theorem Reachable.induct {I : σ → Prop} {s₀ : σ} (init : I s₀)
    (tail : ∀ s a s', Reachable step s₀ s → I s → step s a = some s' → I s') {s : σ}
    (h : Reachable step s₀ s) : I s := by
  obtain ⟨as, has⟩ := h
  exact run_induct (P := fun _ s => I s) init (fun as s a s' hr hi ha => tail s a s' ⟨as, hr⟩ hi ha)
    has

/-- **The invariant rule**, for an invariant that is inductive by itself. -/
theorem invariant {I : σ → Prop} {s₀ : σ} (init : I s₀)
    (keep : ∀ s a s', I s → step s a = some s' → I s') {s : σ} (h : Reachable step s₀ s) : I s :=
  h.induct init fun s a s' _ => keep s a s'

/-- **The simulation rule**: a function that takes every step to a step, or to no change, takes
reachable states to reachable states. -/
theorem Reachable.map {τ β : Type*} {stepT : τ → β → Option τ} (f : σ → τ) {s₀ s : σ}
    (hstep : ∀ s a s', Reachable step s₀ s → step s a = some s' →
      f s' = f s ∨ ∃ b, stepT (f s) b = some (f s'))
    (h : Reachable step s₀ s) : Reachable stepT (f s₀) (f s) := by
  refine Reachable.induct (I := fun s => Reachable stepT (f s₀) (f s)) (Reachable.refl _)
    (fun s a s' hs ih ha => ?_) h
  rcases hstep s a s' hs ha with he | ⟨b, hb⟩
  · rw [he]
    exact ih
  · exact ih.tail hb

/-! ## Logs -/

section Since

variable {β : Type*} {P Q : β → Prop} {log : List β} {b : β}

/-- In the log, oldest entry first, is one with `P`, and none with `Q` is behind it. -/
def Since (P Q : β → Prop) (log : List β) : Prop :=
  ∃ l₁ b l₂, log = l₁ ++ b :: l₂ ∧ P b ∧ ∀ c ∈ l₂, ¬ Q c

/-- An entry with `P` is new. -/
theorem since_of_last (h : P b) : Since P Q (log ++ [b]) :=
  ⟨log, b, [], rfl, h, fun _ hc => (List.not_mem_nil hc).elim⟩

/-- An entry without `Q` revokes nothing. -/
theorem Since.concat (h : Since P Q log) (hb : ¬ Q b) : Since P Q (log ++ [b]) := by
  obtain ⟨l₁, a, l₂, rfl, ha, hl₂⟩ := h
  refine ⟨l₁, a, l₂ ++ [b], by rw [List.append_assoc, List.cons_append], ha, fun c hc => ?_⟩
  rcases List.mem_append.mp hc with hc | hc
  · exact hl₂ c hc
  · rwa [List.mem_singleton.mp hc]

/-- An entry with `Q` revokes what is before it. -/
theorem Since.last (h : Since P Q (log ++ [b])) (hb : Q b) : P b := by
  obtain ⟨l₁, a, l₂, heq, ha, hl₂⟩ := h
  rcases List.eq_nil_or_concat l₂ with rfl | ⟨l, c, rfl⟩
  · rwa [(List.cons.inj (List.append_inj' heq rfl).2).1]
  · rw [List.concat_eq_append] at heq hl₂
    rw [← List.cons_append, ← List.append_assoc] at heq
    obtain rfl : b = c := (List.cons.inj (List.append_inj' heq rfl).2).1
    exact absurd hb (hl₂ b (List.mem_append_right _ (List.mem_singleton_self b)))

end Since

end Lts
