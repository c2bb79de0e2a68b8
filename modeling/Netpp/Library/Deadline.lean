import Mathlib.Logic.Function.Basic
import Netpp.Library.Simulation

/-!
# Deadlines that can be renewed

Entries wait for a number of ticks. An entry that is added has age zero, a tick
makes every waiting entry one tick older, and renewing an entry makes it as young
as a new one. With the period `p`, an entry is called on the `p`-th tick after it
was last added or renewed, and does not wait any longer; an entry that is removed
is not called. The entries called in a tick may add others.

The answer to a call is the number of times each entry is called.
-/

namespace Deadline

variable {ε : Type*}

/-- The calls; a pointer that has expired is `none`, and `adds` are the entries that
an entry adds when it is called. -/
inductive Call (ε : Type*) where
  | add (e : ε)
  | renew (e : Option ε)
  | remove (e : Option ε)
  | tick (adds : ε → List ε)

/-- The ticks since an entry was last added or renewed, for the entries that wait. -/
abbrev Ages (ε : Type*) := ε → Option Nat

/-- The next tick is the `p`-th one. -/
def Due (p : Nat) (ages : Ages ε) (e : ε) : Prop := (ages e).map (· + 1) = some p

instance (p : Nat) (ages : Ages ε) (e : ε) : Decidable (Due p ages e) :=
  inferInstanceAs (Decidable (_ = _))

/-- The entry is added in the next tick. -/
def Added (p : Nat) (ages : Ages ε) (adds : ε → List ε) (e : ε) : Prop :=
  ∃ d, Due p ages d ∧ e ∈ adds d

open Classical in
/-- The ages after the next tick. -/
noncomputable def older (p : Nat) (ages : Ages ε) (adds : ε → List ε) : Ages ε := fun e =>
  if Added p ages adds e then some 0
  else if Due p ages e then none
  else (ages e).map (· + 1)

variable [DecidableEq ε]

noncomputable def answer (p : Nat) (ages : Ages ε) : Call ε → Ages ε × (ε → Nat)
  | .add e => (Function.update ages e (some 0), fun _ => 0)
  | .renew none => (ages, fun _ => 0)
  | .renew (some e) => (Function.update ages e (some 0), fun _ => 0)
  | .remove none => (ages, fun _ => 0)
  | .remove (some e) => (Function.update ages e none, fun _ => 0)
  | .tick adds => (older p ages adds, fun e => if Due p ages e then 1 else 0)

omit [DecidableEq ε] in
theorem older_of_added {p : Nat} {ages : Ages ε} {adds : ε → List ε} {e : ε}
    (h : Added p ages adds e) : older p ages adds e = some 0 := if_pos h

omit [DecidableEq ε] in
/-- An entry that is not added and not called gets older. -/
theorem older_of_not {p : Nat} {ages : Ages ε} {adds : ε → List ε} {e : ε}
    (h : ¬Added p ages adds e) (hdue : ¬Due p ages e) :
    older p ages adds e = (ages e).map (· + 1) := by
  rw [older, if_neg h, if_neg hdue]

omit [DecidableEq ε] in
/-- An entry that is called does not wait any longer. -/
theorem older_of_due {p : Nat} {ages : Ages ε} {adds : ε → List ε} {e : ε}
    (h : ¬Added p ages adds e) (hdue : Due p ages e) : older p ages adds e = none := by
  rw [older, if_neg h, if_pos hdue]

end Deadline
