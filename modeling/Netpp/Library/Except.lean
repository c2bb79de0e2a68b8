import Mathlib.Tactic.Common

/-!
# Results of fallible computations

A computation in `Except` that is built by `map`, `mapError` or `>>=` and
succeeds takes its result from the computations it is built from.
-/

namespace Except

universe u v

variable {ε ε' : Type u} {α β : Type v}

theorem exists_of_map_eq_ok {f : α → β} {e : Except ε α} {b : β} (h : e.map f = .ok b) :
    ∃ a, e = .ok a ∧ f a = b := by
  cases e with
  | error err => cases h
  | ok a => exact ⟨a, rfl, by injection h⟩

theorem eq_ok_of_mapError_eq_ok {f : ε → ε'} {e : Except ε α} {a : α}
    (h : e.mapError f = .ok a) : e = .ok a := by
  cases e with
  | error err => cases h
  | ok b =>
      injection h with h
      rw [h]

theorem exists_of_bind_eq_ok {e : Except ε α} {f : α → Except ε β} {b : β}
    (h : (e >>= f) = .ok b) : ∃ a, e = .ok a ∧ f a = .ok b := by
  cases e with
  | error err => cases h
  | ok a => exact ⟨a, rfl, h⟩

end Except
