import Mathlib.Data.List.Nodup
import Mathlib.Data.List.Pairwise

/-!
# Sublists of a list that is in order

* `pair_sublist_iff`: two elements stand in a list in the order of the list;
* `filterMap_eq_singleton`: a function that is defined on one element;
* `filter_mem_eq`: a sublist as a filter; `zip_prefix`;
* `flatMap_eq_append_cons`: a list that is put together, cut at one of its elements.
-/

namespace List

variable {α β : Type*}

/-- **Two elements of an ordered list** stand in it as the order says. -/
theorem pair_sublist_iff {R : α → α → Prop} (hR : ∀ x y, R x y → ¬ R y x) {l : List α}
    (h : l.Pairwise R) {x y : α} : [x, y].Sublist l ↔ x ∈ l ∧ y ∈ l ∧ R x y := by
  constructor
  · intro hs
    have hpair := h.sublist hs
    exact ⟨hs.subset (by simp), hs.subset (by simp), (pairwise_cons.mp hpair).1 y (by simp)⟩
  · rintro ⟨hx, hy, hxy⟩
    induction l with
    | nil => cases hx
    | cons z l ih =>
      obtain ⟨hz, hl⟩ := pairwise_cons.mp h
      rcases mem_cons.mp hx with rfl | hx <;> rcases mem_cons.mp hy with hy | hy
      · rw [hy] at hxy
        exact absurd hxy (hR x x hxy)
      · exact (singleton_sublist.mpr hy).cons_cons x
      · rw [hy] at hxy
        exact absurd hxy (hR z x (hz x hx))
      · exact (ih hl hx hy).cons z

/-- A function that is defined on one element of a list without duplicates. -/
theorem filterMap_eq_singleton {l : List α} (hl : l.Nodup) {f : α → Option β} {a : α} {b : β}
    (ha : a ∈ l) (hf : f a = some b) (hu : ∀ a' ∈ l, f a' ≠ none → a' = a) :
    l.filterMap f = [b] := by
  obtain ⟨l₁, l₂, rfl⟩ := append_of_mem ha
  have hnot : ∀ l' : List α, (∀ a' ∈ l', a' ∈ l₁ ++ a :: l₂) → a ∉ l' → l'.filterMap f = [] := by
    intro l' hsub hn
    refine filterMap_eq_nil_iff.mpr fun a' ha' => ?_
    by_contra hne
    exact hn (hu a' (hsub a' ha') hne ▸ ha')
  obtain ⟨-, h₂, hdisj⟩ := nodup_append.mp hl
  have h₁ : l₁.filterMap f = [] :=
    hnot l₁ (fun a' h => mem_append_left _ h) fun h => hdisj a h a mem_cons_self rfl
  have h₂ : l₂.filterMap f = [] :=
    hnot l₂ (fun a' h => mem_append_right _ (mem_cons_of_mem _ h)) (nodup_cons.mp h₂).1
  rw [filterMap_append, filterMap_cons_some hf, h₁, h₂, nil_append]

/-- The elements of a sublist, in the order of the list. -/
theorem filter_mem_eq [DecidableEq α] {l l' : List α} (h : l'.Sublist l) (hl : l.Nodup) :
    l.filter (fun a => decide (a ∈ l')) = l' := by
  induction h with
  | slnil => rfl
  | cons a h ih =>
    obtain ⟨ha, hl⟩ := nodup_cons.mp hl
    rw [filter_cons_of_neg (by simpa using fun hm => ha (h.subset hm)), ih hl]
  | cons_cons a h ih =>
    obtain ⟨ha, hl⟩ := nodup_cons.mp hl
    rw [filter_cons_of_pos (by simp)]
    refine congrArg (a :: ·) ?_
    refine (filter_congr fun a' ha' => ?_).trans (ih hl)
    have hne : a' ≠ a := by
      rintro rfl
      exact ha ha'
    simp [hne]

theorem zip_prefix {l : List α} {l₁ l₂ : List β} (h : l₁ <+: l₂) : l.zip l₁ <+: l.zip l₂ := by
  obtain ⟨l₃, rfl⟩ := h
  induction l generalizing l₁ with
  | nil => exact nil_prefix
  | cons a l ih =>
    cases l₁ with
    | nil => exact nil_prefix
    | cons b l₁ => exact (prefix_cons_inj (a, b)).mpr ih

/-- Where an element of a `flatMap` comes from, and what is before it. -/
theorem flatMap_eq_append_cons {l : List α} {f : α → List β} {l₁ l₂ : List β} {b : β}
    (h : l.flatMap f = l₁ ++ b :: l₂) : ∃ j a, l[j]? = some a ∧ b ∈ f a ∧
      (l.take j).flatMap f <+: l₁ := by
  induction l generalizing l₁ with
  | nil => simp at h
  | cons a l ih =>
    rw [flatMap_cons] at h
    have hlater : ∀ l₃, l₁ = f a ++ l₃ → l.flatMap f = l₃ ++ b :: l₂ → ∃ j a', (a :: l)[j]? = some a' ∧
        b ∈ f a' ∧ ((a :: l).take j).flatMap f <+: l₁ := by
      rintro l₃ rfl hl
      obtain ⟨j, a', hj, hb, hprefix⟩ := ih hl
      refine ⟨j + 1, a', hj, hb, ?_⟩
      rw [take_succ_cons, flatMap_cons]
      exact (prefix_append_right_inj _).mpr hprefix
    rcases append_eq_append_iff.mp h with ⟨l₃, hl₁, hl⟩ | ⟨l₃, ha, hl⟩
    · exact hlater l₃ hl₁ hl
    · cases l₃ with
      | nil => exact hlater [] (by rw [ha, append_nil, append_nil]) hl.symm
      | cons b' l₃ =>
        obtain ⟨rfl, -⟩ := cons.inj hl
        exact ⟨0, a, rfl, by rw [ha]; simp, nil_prefix⟩

end List
