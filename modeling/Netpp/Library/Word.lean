import Mathlib.Algebra.Group.Int.Defs
import Mathlib.Algebra.Ring.Nat
import Mathlib.Tactic.Common

/-!
# 64-bit arithmetic

An unsigned machine word is a natural number below `2 ^ 64`, a signed one an integer
from `-2 ^ 63` up to `2 ^ 63 - 1`. The operations wrap around as those of a 64-bit
machine do, so an overflow or an underflow is visible in the result. The lemmas say
when the wrapped result is the exact one. The checked operations fail instead, so a
computation that they make has no overflow in any of its steps.
-/

namespace Word64

/-- Wrapping addition. -/
def add (a b : Nat) : Nat := (a + b) % 2 ^ 64

/-- Wrapping subtraction. -/
def sub (a b : Nat) : Nat := (a + (2 ^ 64 - b)) % 2 ^ 64

/-- Wrapping multiplication. -/
def mul (a b : Nat) : Nat := a * b % 2 ^ 64

theorem add_of_lt {a b : Nat} (h : a + b < 2 ^ 64) : add a b = a + b :=
  Nat.mod_eq_of_lt h

theorem sub_of_le {a b : Nat} (hb : b ≤ a) (ha : a < 2 ^ 64) : sub a b = a - b := by
  have hsplit : a + (2 ^ 64 - b) = (a - b) + 2 ^ 64 := by omega
  rw [sub, hsplit, Nat.add_mod_right]
  exact Nat.mod_eq_of_lt (by omega)

theorem mul_of_lt {a b : Nat} (h : a * b < 2 ^ 64) : mul a b = a * b :=
  Nat.mod_eq_of_lt h

theorem sub_zero_of_lt {a : Nat} (h : a < 2 ^ 64) : sub a 0 = a :=
  sub_of_le (Nat.zero_le a) h

theorem sub_self_of_lt {a : Nat} (h : a < 2 ^ 64) : sub a a = 0 := by
  rw [sub_of_le (Nat.le_refl a) h, Nat.sub_self]

/-! ## Checked arithmetic -/

/-- Addition, or nothing if it overflows. -/
def checkedAdd (a b : Nat) : Option Nat := if a + b < 2 ^ 64 then some (a + b) else none

/-- Subtraction, or nothing if the result is negative. -/
def checkedSub (a b : Nat) : Option Nat := if b ≤ a then some (a - b) else none

/-- Multiplication, or nothing if it overflows. -/
def checkedMul (a b : Nat) : Option Nat := if a * b < 2 ^ 64 then some (a * b) else none

theorem checkedAdd_of_lt {a b : Nat} (h : a + b < 2 ^ 64) : checkedAdd a b = some (add a b) := by
  rw [checkedAdd, if_pos h, add_of_lt h]

theorem checkedSub_of_le {a b : Nat} (hb : b ≤ a) (ha : a < 2 ^ 64) :
    checkedSub a b = some (sub a b) := by
  rw [checkedSub, if_pos hb, sub_of_le hb ha]

theorem checkedMul_of_lt {a b : Nat} (h : a * b < 2 ^ 64) : checkedMul a b = some (mul a b) := by
  rw [checkedMul, if_pos h, mul_of_lt h]

end Word64

namespace Signed64

/-- Wrapping addition. -/
def add (a b : Int) : Int := Int.bmod (a + b) (2 ^ 64)

theorem add_of_lt {a b : Int} (h : -2 ^ 63 ≤ a + b) (h' : a + b < 2 ^ 63) : add a b = a + b := by
  apply Int.bmod_eq_of_le_mul_two
  · omega
  · omega

/-- A sum that is too large by less than `2 ^ 63` becomes negative. -/
theorem add_of_le {a b : Int} (h : 2 ^ 63 ≤ a + b) (h' : a + b < 2 ^ 64) :
    add a b = a + b - 2 ^ 64 := by
  have hwrap : Int.bmod (a + b - (2 ^ 64 : Nat)) (2 ^ 64) = a + b - (2 ^ 64 : Nat) := by
    apply Int.bmod_eq_of_le_mul_two
    · omega
    · omega
  rw [Int.sub_bmod_right] at hwrap
  exact hwrap

end Signed64
