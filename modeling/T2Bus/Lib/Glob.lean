import Mathlib.Data.Set.Basic
import Mathlib.Data.List.Basic

/-!
# Glob patterns

A pattern is a list of segments: a literal, `one` (exactly one symbol) or `many` (zero or more
symbols). `Matches` says which words of symbols a pattern matches. Two patterns *overlap* on an
alphabet `A` when a word over `A` is matched by both; the lemmas `overlap_*` reduce an overlap to
shorter patterns, one for each pair of heads.
-/

namespace Glob

variable {α : Type*}

/-- One segment of a pattern. -/
inductive Seg (α : Type*) where
  | lit (a : α)
  | one
  | many

/-- The words a pattern matches. -/
def Matches : List (Seg α) → List α → Prop
  | [], w => w = []
  | .lit a :: P, w => ∃ v, w = a :: v ∧ Matches P v
  | .one :: P, w => ∃ a v, w = a :: v ∧ Matches P v
  | .many :: P, w => ∃ u v, w = u ++ v ∧ Matches P v

/-- A segment that stands for exactly one symbol matches `a`. -/
def Seg.Accepts : Seg α → α → Prop
  | .lit b, a => a = b
  | .one, _ => True
  | .many, _ => False

/-- Some word over `A` is matched by both patterns. -/
def Overlap (A : Set α) (P Q : List (Seg α)) : Prop :=
  ∃ w, (∀ a ∈ w, a ∈ A) ∧ Matches P w ∧ Matches Q w

variable {A : Set α} {P Q : List (Seg α)}

theorem Overlap.symm (h : Overlap A P Q) : Overlap A Q P := by
  obtain ⟨w, hA, hP, hQ⟩ := h
  exact ⟨w, hA, hQ, hP⟩

theorem overlap_comm : Overlap A P Q ↔ Overlap A Q P := ⟨Overlap.symm, Overlap.symm⟩

/-- A pattern that starts with a single-symbol segment matches a word by its first symbol. -/
theorem matches_cons_iff {s : Seg α} (hs : s ≠ .many) {w : List α} :
    Matches (s :: P) w ↔ ∃ a v, w = a :: v ∧ s.Accepts a ∧ Matches P v := by
  cases s with
  | lit b =>
    constructor
    · rintro ⟨v, rfl, hv⟩
      exact ⟨b, v, rfl, rfl, hv⟩
    · rintro ⟨a, v, rfl, rfl, hv⟩
      exact ⟨v, rfl, hv⟩
  | one =>
    constructor
    · rintro ⟨a, v, rfl, hv⟩
      exact ⟨a, v, rfl, trivial, hv⟩
    · rintro ⟨a, v, rfl, -, hv⟩
      exact ⟨a, v, rfl, hv⟩
  | many => exact absurd rfl hs

theorem overlap_nil_nil : Overlap A ([] : List (Seg α)) [] := ⟨[], by simp, rfl, rfl⟩

/-- A single-symbol segment does not match the empty word. -/
theorem not_overlap_cons_nil {s : Seg α} (hs : s ≠ .many) : ¬ Overlap A (s :: P) [] := by
  rintro ⟨w, -, hw, rfl⟩
  obtain ⟨a, v, h, -⟩ := (matches_cons_iff hs).mp hw
  cases h

/-- Two single-symbol heads overlap when some symbol is accepted by both. -/
theorem overlap_cons_cons {s t : Seg α} (hs : s ≠ .many) (ht : t ≠ .many) :
    Overlap A (s :: P) (t :: Q) ↔ (∃ a ∈ A, s.Accepts a ∧ t.Accepts a) ∧ Overlap A P Q := by
  constructor
  · rintro ⟨w, hA, hP, hQ⟩
    obtain ⟨a, v, rfl, hsa, hv⟩ := (matches_cons_iff hs).mp hP
    obtain ⟨b, u, h, htb, hu⟩ := (matches_cons_iff ht).mp hQ
    obtain ⟨rfl, rfl⟩ := List.cons.inj h
    exact ⟨⟨a, hA a List.mem_cons_self, hsa, htb⟩,
      ⟨v, fun b hb => hA b (List.mem_cons_of_mem _ hb), hv, hu⟩⟩
  · rintro ⟨⟨a, ha, hsa, hta⟩, v, hA, hv, hu⟩
    exact ⟨a :: v, List.forall_mem_cons.mpr ⟨ha, hA⟩, (matches_cons_iff hs).mpr ⟨a, v, rfl, hsa, hv⟩,
      (matches_cons_iff ht).mpr ⟨a, v, rfl, hta, hu⟩⟩

/-- `many` matches the empty word, so it may be dropped against an exhausted pattern. -/
theorem overlap_many_nil : Overlap A (.many :: P) [] ↔ Overlap A P [] := by
  constructor
  · rintro ⟨w, hA, ⟨u, v, h, hv⟩, rfl⟩
    obtain ⟨-, rfl⟩ := List.append_eq_nil_iff.mp h.symm
    exact ⟨[], by simp, hv, rfl⟩
  · rintro ⟨w, hA, hw, rfl⟩
    exact ⟨[], by simp, ⟨[], [], rfl, hw⟩, rfl⟩

/-- **`many` against a single-symbol head**: it stops here, or consumes the symbol. -/
theorem overlap_many_cons {t : Seg α} (ht : t ≠ .many) :
    Overlap A (.many :: P) (t :: Q) ↔
      Overlap A P (t :: Q) ∨ (∃ a ∈ A, t.Accepts a) ∧ Overlap A (.many :: P) Q := by
  constructor
  · rintro ⟨w, hA, ⟨u, v, rfl, hv⟩, hQ⟩
    cases u with
    | nil => exact Or.inl ⟨v, hA, hv, hQ⟩
    | cons a u =>
      obtain ⟨b, w, h, htb, hw⟩ := (matches_cons_iff ht).mp hQ
      obtain ⟨rfl, rfl⟩ := List.cons.inj h
      exact Or.inr ⟨⟨a, hA a List.mem_cons_self, htb⟩, u ++ v,
        fun b hb => hA b (List.mem_cons_of_mem _ hb), ⟨u, v, rfl, hv⟩, hw⟩
  · rintro (⟨w, hA, hP, hQ⟩ | ⟨⟨a, ha, hta⟩, w, hA, ⟨u, v, rfl, hv⟩, hQ⟩)
    · exact ⟨w, hA, ⟨[], w, rfl, hP⟩, hQ⟩
    · exact ⟨a :: (u ++ v), List.forall_mem_cons.mpr ⟨ha, hA⟩, ⟨a :: u, v, rfl, hv⟩,
        (matches_cons_iff ht).mpr ⟨a, u ++ v, rfl, hta, hQ⟩⟩

/-- **Two `many`**: one of them may be dropped, since a common word is cut by both and the
shorter of the two first parts is absorbed by the other. -/
theorem overlap_many_many :
    Overlap A (.many :: P) (.many :: Q) ↔ Overlap A P (.many :: Q) ∨ Overlap A (.many :: P) Q := by
  constructor
  · rintro ⟨w, hA, ⟨u, v, rfl, hv⟩, u', v', h, hv'⟩
    rcases List.append_eq_append_iff.mp h with ⟨x, -, rfl⟩ | ⟨x, -, rfl⟩
    · exact Or.inl ⟨x ++ v', fun a ha => hA a (List.mem_append_right _ ha), hv, x, v', rfl, hv'⟩
    · refine Or.inr ⟨x ++ v, fun a ha => hA a ?_, ⟨x, v, rfl, hv⟩, hv'⟩
      rw [h]
      exact List.mem_append_right _ ha
  · rintro (⟨w, hA, hP, hQ⟩ | ⟨w, hA, hP, hQ⟩)
    · exact ⟨w, hA, ⟨[], w, rfl, hP⟩, hQ⟩
    · exact ⟨w, hA, hP, [], w, rfl, hQ⟩

end Glob
