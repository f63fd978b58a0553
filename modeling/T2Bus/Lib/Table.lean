import Mathlib.Tactic.Common
import Mathlib.Tactic.SplitIfs

/-!
# Finite maps as partial functions

A map is the function that looks a key up. Only pointwise operations are offered: none of them
depends on an order of the keys.
-/

/-- A map from `κ` to `ν`. -/
abbrev Table (κ ν : Type*) := κ → Option ν

namespace Table

variable {κ ν : Type*}

/-- The map without entries. -/
def empty : Table κ ν := fun _ => none

/-- Keep the entries that satisfy `p`. -/
def retain (m : Table κ ν) (p : κ → ν → Bool) : Table κ ν := fun k => (m k).filter (p k)

@[simp] theorem empty_apply (k : κ) : (empty : Table κ ν) k = none := rfl

theorem retain_eq_some {m : Table κ ν} {p : κ → ν → Bool} {k : κ} {v : ν} :
    m.retain p k = some v ↔ m k = some v ∧ p k v = true := by
  simp [retain, Option.filter_eq_some_iff]

variable [DecidableEq κ]

/-- Set the value of `k`. -/
def insert (m : Table κ ν) (k : κ) (v : ν) : Table κ ν := fun k' => if k' = k then some v else m k'

/-- Drop the entry of `k`. -/
def remove (m : Table κ ν) (k : κ) : Table κ ν := fun k' => if k' = k then none else m k'

/-- Set the value of `k` if there is one. -/
def enter (m : Table κ ν) (k : κ) : Option ν → Table κ ν
  | some v => m.insert k v
  | none => m

theorem insert_apply (m : Table κ ν) (k k' : κ) (v : ν) :
    m.insert k v k' = if k' = k then some v else m k' := rfl

theorem remove_apply (m : Table κ ν) (k k' : κ) :
    m.remove k k' = if k' = k then none else m k' := rfl

@[simp] theorem insert_self (m : Table κ ν) (k : κ) (v : ν) : m.insert k v k = some v := if_pos rfl

@[simp] theorem remove_self (m : Table κ ν) (k : κ) : m.remove k k = none := if_pos rfl

theorem insert_of_ne {m : Table κ ν} {k k' : κ} (h : k' ≠ k) (v : ν) : m.insert k v k' = m k' :=
  if_neg h

theorem remove_of_ne {m : Table κ ν} {k k' : κ} (h : k' ≠ k) : m.remove k k' = m k' := if_neg h

theorem remove_eq_some {m : Table κ ν} {k k' : κ} {v : ν} :
    m.remove k k' = some v ↔ k' ≠ k ∧ m k' = some v := by
  rw [remove_apply]
  split_ifs with h <;> simp [h]

theorem enter_eq_some {m : Table κ ν} {k k' : κ} {o : Option ν} {v : ν}
    (h : m.enter k o k' = some v) : (k' = k ∧ o = some v) ∨ m k' = some v := by
  cases o with
  | none => exact Or.inr h
  | some w =>
    rw [enter, insert_apply] at h
    split_ifs at h with hk
    · exact Or.inl ⟨hk, h⟩
    · exact Or.inr h

end Table
