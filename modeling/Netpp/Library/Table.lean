import Mathlib.Logic.Function.Basic

/-!
# Tables

A table is a function to `Option`, and an entry is inserted or erased by
`Function.update`. The lemmas say where an entry of a changed table comes from.
-/

namespace Table

variable {κ ν : Type*} [DecidableEq κ] {table : κ → Option ν} {k k' : κ} {v v' : ν}

/-- An entry after an insertion is the new one or was there before. -/
theorem insert_eq_some (h : Function.update table k (some v) k' = some v') :
    (k' = k ∧ v' = v) ∨ (k' ≠ k ∧ table k' = some v') := by
  by_cases hk : k' = k
  · rw [hk, Function.update_self] at h
    cases h
    exact .inl ⟨hk, rfl⟩
  · rw [Function.update_of_ne hk] at h
    exact .inr ⟨hk, h⟩

/-- An entry after an erasure was there before, under another key. -/
theorem erase_eq_some (h : Function.update table k none k' = some v') :
    k' ≠ k ∧ table k' = some v' := by
  by_cases hk : k' = k
  · rw [hk, Function.update_self] at h
    cases h
  · rw [Function.update_of_ne hk] at h
    exact ⟨hk, h⟩

end Table
