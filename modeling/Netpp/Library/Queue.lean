import Mathlib.Data.List.Basic
import Netpp.Library.Simulation

/-!
# First-in first-out queues

A queue is the list of its elements, the oldest first. A call puts elements in
at the end or gets a number of them from the front, all or none; the reply is
the number of elements handed out and these elements. Over any list of calls
nothing is lost, duplicated or reordered: what has been handed out, followed by
what is still in the queue, is what was in it followed by what was put in.
-/

namespace Queue

variable {α : Type*}

/-- A pair that stands in a list whose first part has its second entry stands in that part. -/
theorem sublist_pair_of_append {a b : α} {xs ys : List α}
    (h : [a, b].Sublist (xs ++ ys)) (hnodup : (xs ++ ys).Nodup) (hb : b ∈ xs) :
    [a, b].Sublist xs := by
  obtain ⟨front, back, hpair, hfront, hback⟩ := List.sublist_append_iff.mp h
  have hdisjoint := (List.nodup_append.mp hnodup).2.2
  rcases List.eq_nil_or_concat back with rfl | ⟨init, last, rfl⟩
  · rw [List.append_nil] at hpair
    rwa [hpair]
  · have hlast : b = last := by
      have hends := congrArg List.getLast? hpair
      simpa using hends
    have hmem : b ∈ ys := hback.subset (by simp [hlast])
    exact absurd rfl (hdisjoint b hb b hmem)

inductive Call (α : Type*) where
  | put (xs : List α)
  | get (n : Nat)

/-- The elements a call puts into the queue. -/
def Call.input : Call α → List α
  | put xs => xs
  | get _ => []

def answer : List α → Call α → List α × Nat × List α
  | q, .put xs => (q ++ xs, 0, [])
  | q, .get n => if n ≤ q.length then (q.drop n, n, q.take n) else (q, 0, [])

theorem answer_get_of_le {q : List α} {n : Nat} (h : n ≤ q.length) :
    answer q (.get n) = (q.drop n, n, q.take n) := if_pos h

theorem answer_get_of_lt {q : List α} {n : Nat} (h : q.length < n) :
    answer q (.get n) = (q, 0, []) := if_neg (Nat.not_le.mpr h)

theorem answer_conserves (q : List α) (c : Call α) :
    (answer q c).2.2 ++ (answer q c).1 = q ++ c.input := by
  cases c with
  | put xs => simp [answer, Call.input]
  | get n =>
      rcases Nat.lt_or_ge q.length n with h | h
      · simp [answer_get_of_lt h, Call.input]
      · simp [answer_get_of_le h, Call.input]

/-- The elements handed out and those that are left are those put in, in order. -/
theorem answers_conserve (q : List α) (cs : List (Call α)) :
    (Run.answers answer q cs).2.flatMap Prod.snd ++ (Run.answers answer q cs).1 =
      q ++ cs.flatMap Call.input := by
  induction cs generalizing q with
  | nil => simp
  | cons c cs ih =>
      rw [Run.answers_cons, List.flatMap_cons, List.flatMap_cons, List.append_assoc, ih,
        ← List.append_assoc, answer_conserves, List.append_assoc]

/-! ## Queues in a row -/

/-- Several queues, one after the other, without the first `n` elements of all of
them: the first queues lose everything, one of them its front, the rest nothing. -/
def dropFront : List (List α) → Nat → List (List α)
  | [], _ => []
  | q :: qs, n => q.drop n :: dropFront qs (n - q.length)

@[simp] theorem dropFront_nil (n : Nat) : dropFront ([] : List (List α)) n = [] := rfl

theorem dropFront_cons (q : List α) (qs : List (List α)) (n : Nat) :
    dropFront (q :: qs) n = q.drop n :: dropFront qs (n - q.length) := rfl

@[simp] theorem dropFront_zero (qs : List (List α)) : dropFront qs 0 = qs := by
  induction qs with
  | nil => rfl
  | cons q qs ih => rw [dropFront_cons, List.drop_zero, Nat.zero_sub, ih]

/-- In one piece, the elements lose a prefix. -/
theorem dropFront_flatten (qs : List (List α)) (n : Nat) :
    (dropFront qs n).flatten = qs.flatten.drop n := by
  induction qs generalizing n with
  | nil => simp
  | cons q qs ih => rw [dropFront_cons, List.flatten_cons, List.flatten_cons, ih, List.drop_append]

end Queue
