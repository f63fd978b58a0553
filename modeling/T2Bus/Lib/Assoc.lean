import Mathlib.Data.List.Nodup
import Mathlib.Tactic.Common
import Mathlib.Tactic.SplitIfs

/-!
# Association lists

A finite map that can be iterated over, as the list of its entries; the order of the entries stands
for the unspecified order of the iteration. `set` replaces the value of a key in place or appends an
entry. Looking an entry up and finding it in the list agree when the keys are distinct.
-/

namespace Assoc

variable {κ ν : Type*} [DecidableEq κ]

/-- Set the value of `k`. -/
def set (k : κ) (v : ν) : List (κ × ν) → List (κ × ν)
  | [] => [(k, v)]
  | (k', v') :: m => if k' = k then (k, v) :: m else (k', v') :: set k v m

/-- The keys are distinct. -/
def NodupKeys (m : List (κ × ν)) : Prop := (m.map Prod.fst).Nodup

theorem lookup_cons (k' : κ) (p : κ × ν) (m : List (κ × ν)) :
    (p :: m).lookup k' = if k' = p.1 then some p.2 else m.lookup k' := by
  obtain ⟨k, v⟩ := p
  rw [List.lookup_cons]
  by_cases h : k' = k
  · simp [h]
  · rw [if_neg h, beq_false_of_ne h]

theorem lookup_set (k k' : κ) (v : ν) (m : List (κ × ν)) :
    (set k v m).lookup k' = if k' = k then some v else m.lookup k' := by
  induction m with
  | nil => simp [set, lookup_cons]
  | cons p m ih =>
    obtain ⟨k₁, v₁⟩ := p
    simp only [set]
    split_ifs with h₁ h₂ h₂
    · simp [lookup_cons, h₂]
    · simp [lookup_cons, h₁, h₂]
    · rw [lookup_cons, ih, if_pos h₂, if_neg (by rw [h₂]; exact Ne.symm h₁)]
    · rw [lookup_cons, lookup_cons, ih, if_neg h₂]

theorem mem_keys_set (k k' : κ) (v : ν) (m : List (κ × ν)) :
    k' ∈ (set k v m).map Prod.fst ↔ k' = k ∨ k' ∈ m.map Prod.fst := by
  induction m with
  | nil => simp [set]
  | cons p m ih =>
    simp only [set]
    split_ifs with h
    · simp [h]
    · rw [List.map_cons, List.mem_cons, ih, List.map_cons, List.mem_cons, or_left_comm]

theorem NodupKeys.set {m : List (κ × ν)} (h : NodupKeys m) (k : κ) (v : ν) :
    NodupKeys (set k v m) := by
  induction m with
  | nil => exact List.nodup_singleton k
  | cons p m ih =>
    obtain ⟨hp, hm⟩ := List.nodup_cons.mp h
    simp only [Assoc.set]
    split_ifs with hk
    · exact List.nodup_cons.mpr ⟨hk ▸ hp, hm⟩
    · refine List.nodup_cons.mpr ⟨fun h' => ?_, ih hm⟩
      exact ((mem_keys_set k p.1 v m).mp h').elim hk hp

/-- The entry that is looked up is in the list. -/
theorem mem_of_lookup {m : List (κ × ν)} {k : κ} {v : ν} (h : m.lookup k = some v) :
    (k, v) ∈ m := by
  induction m with
  | nil => cases h
  | cons p m ih =>
    rw [lookup_cons] at h
    split_ifs at h with hk
    · rw [hk, ← Option.some.inj h]
      exact List.mem_cons_self
    · exact List.mem_cons_of_mem _ (ih h)

theorem lookup_of_mem {m : List (κ × ν)} (hm : NodupKeys m) {k : κ} {v : ν} (h : (k, v) ∈ m) :
    m.lookup k = some v := by
  induction m with
  | nil => cases h
  | cons p m ih =>
    obtain ⟨hp, hm⟩ := List.nodup_cons.mp hm
    rw [lookup_cons]
    rcases List.mem_cons.mp h with rfl | h
    · exact if_pos rfl
    · rw [if_neg, ih hm h]
      intro hk
      exact hp (List.mem_map.mpr ⟨(k, v), h, hk⟩)

/-- With distinct keys, being an entry and being looked up are the same. -/
theorem mem_iff_lookup {m : List (κ × ν)} (hm : NodupKeys m) {k : κ} {v : ν} :
    (k, v) ∈ m ↔ m.lookup k = some v := ⟨lookup_of_mem hm, mem_of_lookup⟩

end Assoc
