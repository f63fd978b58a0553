import T2Bus.Lib.Lts
import Mathlib.Algebra.Order.BigOperators.Group.Finset

/-!
# Runs that come to an end

A rank is a number that the actions of a kind make smaller. A run of such actions is no longer than the
rank it starts with, and from every state one of them leads to a state where no such action is enabled.

* `Lowers`; **`Lowers.length_le`**, **`Lowers.exists_stuck`**;
* `sum_add_le`: a sum over places, one of which gets smaller.
-/

namespace Lts

variable {σ α : Type*} {step : σ → α → Option σ} {I : σ → Prop} {A : α → Prop} {rank : σ → ℕ}

/-- In states with `I`, the actions in `A` make the rank smaller, and keep `I`. -/
def Lowers (step : σ → α → Option σ) (I : σ → Prop) (A : α → Prop) (rank : σ → ℕ) : Prop :=
  ∀ s a s', I s → A a → step s a = some s' → I s' ∧ rank s' < rank s

/-- **A run of actions that make the rank smaller is no longer than the rank.** -/
theorem Lowers.length_le (h : Lowers step I A rank) {as : List α} : ∀ {s s'}, I s → (∀ a ∈ as, A a) →
    run step s as = some s' → as.length + rank s' ≤ rank s := by
  induction as with
  | nil =>
    intro s s' _ _ hrun
    cases hrun
    exact (Nat.zero_add _).le
  | cons a as ih =>
    intro s s' hs hA hrun
    obtain ⟨t, ht, hrun⟩ := Option.bind_eq_some_iff.mp hrun
    obtain ⟨ha, hA⟩ := List.forall_mem_cons.mp hA
    obtain ⟨hI, hlt⟩ := h s a t hs ha ht
    have hle := ih hI hA hrun
    rw [List.length_cons]
    omega

/-- What such actions keep holds after a run of them. -/
theorem Lowers.invariant (h : Lowers step I A rank) {as : List α} : ∀ {s s'}, I s → (∀ a ∈ as, A a) →
    run step s as = some s' → I s' := by
  induction as with
  | nil =>
    intro s s' hs _ hrun
    cases hrun
    exact hs
  | cons a as ih =>
    intro s s' hs hA hrun
    obtain ⟨t, ht, hrun⟩ := Option.bind_eq_some_iff.mp hrun
    obtain ⟨ha, hA⟩ := List.forall_mem_cons.mp hA
    exact ih (h s a t hs ha ht).1 hA hrun

/-- **Such actions can be taken until none is enabled.** -/
theorem Lowers.exists_stuck (h : Lowers step I A rank) (s : σ) (hs : I s) :
    ∃ as s', (∀ a ∈ as, A a) ∧ run step s as = some s' ∧ ∀ a, A a → step s' a = none := by
  induction hn : rank s using Nat.strong_induction_on generalizing s with
  | _ n ih =>
    by_cases hstuck : ∀ a, A a → step s a = none
    · exact ⟨[], s, by simp, rfl, hstuck⟩
    · simp only [not_forall] at hstuck
      obtain ⟨a, ha, hne⟩ := hstuck
      obtain ⟨t, ht⟩ := Option.ne_none_iff_exists'.mp hne
      obtain ⟨hI, hlt⟩ := h s a t hs ha ht
      obtain ⟨as, s', hA, hrun, hnone⟩ := ih (rank t) (hn ▸ hlt) t hI rfl
      refine ⟨a :: as, s', List.forall_mem_cons.mpr ⟨ha, hA⟩, ?_, hnone⟩
      rw [run_cons, ht]
      exact hrun

/-- A sum over places, one of which gets smaller. -/
theorem sum_add_le {ι : Type*} {F : Finset ι} {f g : ι → ℕ} {i : ι} {d : ℕ} (hi : i ∈ F)
    (h : ∀ j ≠ i, g j ≤ f j) (hd : g i + d ≤ f i) : ∑ j ∈ F, g j + d ≤ ∑ j ∈ F, f j := by
  classical
  rw [← Finset.add_sum_erase F g hi, ← Finset.add_sum_erase F f hi]
  have hle : ∑ j ∈ F.erase i, g j ≤ ∑ j ∈ F.erase i, f j :=
    Finset.sum_le_sum fun j hj => h j (Finset.ne_of_mem_erase hj)
  omega

end Lts
