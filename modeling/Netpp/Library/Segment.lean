import Mathlib.Data.List.Basic

/-!
# Segments of a list and writes into it

`slice xs a b` is the part of `xs` from position `a` up to position `b`, and
`overwrite xs off ys` puts `ys` over the positions of `xs` from `off` on. The
lemmas say how a segment is cut, and what a write does to the segments that end
where it starts: the usual bookkeeping of a memory copy. `filledTo size xs` is an
array of `size` places that is filled from the front and holds `xs` so far.
-/

namespace Segment

variable {α : Type*}

/-- The elements of `xs` at the positions `a, …, b - 1`. -/
def slice (xs : List α) (a b : Nat) : List α := (xs.take b).drop a

/-- `xs` with `ys` written over it from position `off` on. -/
def overwrite (xs : List α) (off : Nat) (ys : List α) : List α :=
  xs.take off ++ ys ++ xs.drop (off + ys.length)

theorem slice_length {xs : List α} {a b : Nat} (hb : b ≤ xs.length) :
    (slice xs a b).length = b - a := by
  simp [slice, Nat.min_eq_left hb]

@[simp] theorem slice_self (xs : List α) (a : Nat) : slice xs a a = [] := by
  simp [slice]

theorem slice_of_le (xs : List α) {a b : Nat} (h : b ≤ a) : slice xs a b = [] := by
  rw [slice, List.drop_eq_nil_iff, List.length_take]
  omega

theorem slice_drop (xs : List α) (a b n : Nat) :
    (slice xs a b).drop n = slice xs (a + n) b := by
  rw [slice, slice, List.drop_drop]

theorem slice_take (xs : List α) {a n b : Nat} (h : a + n ≤ b) :
    (slice xs a b).take n = slice xs a (a + n) := by
  rw [slice, slice, List.take_drop, List.take_take, Nat.min_eq_left h]

/-- The rest of a list from a position on, when it is not empty. -/
theorem getElem?_of_drop_eq_cons {xs ys : List α} {y : α} {i : Nat} (h : xs.drop i = y :: ys) :
    xs[i]? = some y ∧ xs.drop (i + 1) = ys := by
  rw [← List.head?_drop, ← List.tail_drop, h]
  exact ⟨rfl, rfl⟩

/-- A segment is cut at any position inside it. -/
theorem slice_append_slice (xs : List α) {a b c : Nat} (hab : a ≤ b) (hbc : b ≤ c) :
    slice xs a b ++ slice xs b c = slice xs a c := by
  obtain ⟨n, rfl⟩ := Nat.exists_eq_add_of_le hab
  rw [← slice_take xs hbc, ← slice_drop, List.take_append_drop]

theorem overwrite_length {xs ys : List α} {off : Nat} (h : off + ys.length ≤ xs.length) :
    (overwrite xs off ys).length = xs.length := by
  simp only [overwrite, List.length_append, List.length_take, List.length_drop]
  omega

@[simp] theorem overwrite_nil (xs : List α) (off : Nat) : overwrite xs off [] = xs := by
  simp [overwrite]

@[simp] theorem overwrite_zero (xs ys : List α) :
    overwrite xs 0 ys = ys ++ xs.drop ys.length := by
  simp [overwrite]

/-- A write may be made one element at a time. -/
theorem overwrite_cons {xs ys : List α} {y : α} {off : Nat} (h : off < xs.length) :
    overwrite xs off (y :: ys) = overwrite (xs.set off y) (off + 1) ys := by
  have htake : (xs.set off y).take (off + 1) = xs.take off ++ [y] := by
    rw [List.take_add_one, List.take_set_of_le (Nat.le_refl off), List.getElem?_set_self h]
    rfl
  have hdrop : (xs.set off y).drop (off + 1 + ys.length) = xs.drop (off + (ys.length + 1)) := by
    rw [List.drop_set_of_lt (by omega), Nat.add_right_comm, Nat.add_assoc]
  rw [overwrite, overwrite, htake, hdrop, List.length_cons, List.append_assoc, List.append_assoc,
    List.append_assoc]
  rfl

/-- A write leaves what lies before it alone. -/
theorem slice_overwrite_before {xs ys : List α} {a b off : Nat} (hb : b ≤ off)
    (h : off ≤ xs.length) : slice (overwrite xs off ys) a b = slice xs a b := by
  have htake : (overwrite xs off ys).take b = xs.take b := by
    rw [overwrite, List.append_assoc, List.take_append_of_le_length (by simp; omega),
      List.take_take, Nat.min_eq_left hb]
  rw [slice, slice, htake]

/-- The written elements are the segment at the place of the write. -/
theorem slice_overwrite_self {xs ys : List α} {off : Nat} (h : off ≤ xs.length) :
    slice (overwrite xs off ys) off (off + ys.length) = ys := by
  have hlen : (xs.take off).length = off := by simp [Nat.min_eq_left h]
  have htake : (overwrite xs off ys).take (off + ys.length) = xs.take off ++ ys := by
    rw [overwrite]
    exact List.take_left' (by rw [List.length_append, hlen])
  rw [slice, htake]
  exact List.drop_left' hlen

/-- A write at the end of a segment appends to it. -/
theorem slice_overwrite_append {xs ys : List α} {a off : Nat} (ha : a ≤ off)
    (h : off ≤ xs.length) :
    slice (overwrite xs off ys) a (off + ys.length) = slice xs a off ++ ys := by
  rw [← slice_append_slice (b := off) _ ha (Nat.le_add_right off ys.length),
    slice_overwrite_before (Nat.le_refl off) h, slice_overwrite_self h]

/-! ## Filling from the front -/

/-- The places of an array, of which the first ones hold `xs`. -/
def filledTo (size : Nat) (xs : List α) : List (Option α) :=
  xs.map some ++ List.replicate (size - xs.length) none

@[simp] theorem filledTo_nil (size : Nat) :
    filledTo size ([] : List α) = List.replicate size none := rfl

@[simp] theorem filledTo_self (xs : List α) : filledTo xs.length xs = xs.map some := by
  rw [filledTo, Nat.sub_self, List.replicate_zero, List.append_nil]

theorem filledTo_length {size : Nat} {xs : List α} (h : xs.length ≤ size) :
    (filledTo size xs).length = size := by
  rw [filledTo, List.length_append, List.length_map, List.length_replicate,
    Nat.add_sub_cancel' h]

/-- Filling the next place. -/
theorem set_filledTo {size : Nat} {xs : List α} (h : xs.length < size) (x : α) :
    (filledTo size xs).set xs.length (some x) = filledTo size (xs ++ [x]) := by
  have hplaces : size - xs.length = size - (xs.length + 1) + 1 := by omega
  have hlength : (xs.map some).length = xs.length := List.length_map some
  rw [filledTo, List.set_append_right _ _ (Nat.le_of_eq hlength), hlength, Nat.sub_self, hplaces,
    List.replicate_succ, List.set_cons_zero, filledTo, List.map_append, List.length_append,
    List.append_assoc]
  rfl

end Segment
