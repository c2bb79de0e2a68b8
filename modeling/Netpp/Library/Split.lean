import Mathlib.Tactic.Common

/-!
# Pieces of a list

`List.splitOnP` cuts a list at the elements with a property. The pieces consist of the
other elements. The pieces that are not empty do not depend on how many separators stand
between them: putting lists in a row, with separators between them, puts their pieces in a
row.
-/

namespace Split

variable {α : Type*} {p : α → Bool} {xs s : List α} {c : α}

/-- The first piece of a longer list, and the other ones. -/
theorem splitOnP_cons_of_neg (hc : p c = false) (xs : List α) :
    ∃ s pieces, xs.splitOnP p = s :: pieces ∧ (c :: xs).splitOnP p = (c :: s) :: pieces := by
  obtain ⟨s, pieces, hsplit⟩ := List.exists_cons_of_ne_nil (List.splitOnP_ne_nil p xs)
  refine ⟨s, pieces, hsplit, ?_⟩
  rw [List.splitOnP_cons_eq_if_modifyHead, hc, if_neg Bool.false_ne_true, hsplit]
  rfl

theorem splitOnP_cons_of_pos (hc : p c = true) (xs : List α) :
    (c :: xs).splitOnP p = [] :: xs.splitOnP p := by
  rw [List.splitOnP_cons_eq_if_modifyHead, hc, if_pos rfl]

/-- The elements of a piece are elements of the list at which it is not cut. -/
theorem mem_of_mem_splitOnP (hs : s ∈ xs.splitOnP p) (hc : c ∈ s) : c ∈ xs ∧ p c = false := by
  induction xs generalizing s with
  | nil =>
      rw [List.splitOnP_nil, List.mem_singleton] at hs
      rw [hs] at hc
      cases hc
  | cons d xs ih =>
      cases hd : p d with
      | true =>
          rw [splitOnP_cons_of_pos hd] at hs
          rcases List.mem_cons.mp hs with rfl | hs
          · cases hc
          · exact (ih hs hc).imp_left (List.mem_cons_of_mem d)
      | false =>
          obtain ⟨t, pieces, hsplit, hcons⟩ := splitOnP_cons_of_neg hd xs
          rw [hsplit] at ih
          rw [hcons] at hs
          rcases List.mem_cons.mp hs with rfl | hs
          · rcases List.mem_cons.mp hc with rfl | hc
            · exact ⟨List.mem_cons_self .., hd⟩
            · exact (ih (List.mem_cons_self ..) hc).imp_left (List.mem_cons_of_mem d)
          · exact (ih (List.mem_cons_of_mem t hs) hc).imp_left (List.mem_cons_of_mem d)

/-- Cutting at two kinds of elements is cutting at the one, then the pieces at the other. -/
theorem splitOnP_or (p q : α → Bool) (xs : List α) :
    xs.splitOnP (fun c => p c || q c) = (xs.splitOnP p).flatMap (·.splitOnP q) := by
  induction xs with
  | nil => rfl
  | cons c xs ih =>
      cases hp : p c with
      | true =>
          rw [splitOnP_cons_of_pos (by rw [hp, Bool.true_or]), splitOnP_cons_of_pos hp, ih,
            List.flatMap_cons]
          rfl
      | false =>
          obtain ⟨s, pieces, hsplit, hcons⟩ := splitOnP_cons_of_neg hp xs
          rw [hsplit, List.flatMap_cons] at ih
          rw [hcons, List.flatMap_cons]
          cases hq : q c with
          | true =>
              rw [splitOnP_cons_of_pos (by rw [hp, hq, Bool.or_true]), splitOnP_cons_of_pos hq, ih]
              rfl
          | false =>
              obtain ⟨t, rest, hs, hcs⟩ := splitOnP_cons_of_neg hq s
              rw [hs] at ih
              rw [List.splitOnP_cons_eq_if_modifyHead, hp, hq, if_neg (by decide), ih, hcs]
              rfl

variable [DecidableEq α]

theorem mem_of_mem_splitOn (hs : s ∈ xs.splitOn c) {d : α} (hd : d ∈ s) : d ∈ xs ∧ d ≠ c := by
  rw [List.splitOn_eq_splitOnP] at hs
  exact (mem_of_mem_splitOnP hs hd).imp_right ne_of_beq_false

theorem notMem_of_mem_splitOn (hs : s ∈ xs.splitOn c) : c ∉ s :=
  fun hc => (mem_of_mem_splitOn hs hc).2 rfl

/-! ## The pieces that are not empty -/

/-- The pieces at a separator that are not empty. -/
def pieces (c : α) (xs : List α) : List (List α) := (xs.splitOn c).filter (· ≠ [])

@[simp] theorem pieces_nil (c : α) : pieces c [] = [] := by
  rw [pieces, List.splitOn_nil]
  rfl

/-- A separator ends a piece, and the pieces behind it are those of what follows. -/
theorem pieces_append_cons (c : α) (xs ys : List α) :
    pieces c (xs ++ c :: ys) = pieces c xs ++ pieces c ys := by
  rw [pieces, List.splitOn_append_cons_self, List.filter_append, pieces, pieces]

@[simp] theorem pieces_cons_self (c : α) (ys : List α) : pieces c (c :: ys) = pieces c ys :=
  pieces_append_cons c [] ys

@[simp] theorem pieces_concat_self (c : α) (xs : List α) : pieces c (xs ++ [c]) = pieces c xs := by
  rw [pieces_append_cons, pieces_nil, List.append_nil]

/-- Two lists with a separator between them, be it at the end of the one or at the beginning
of the other, have the pieces of both. -/
theorem pieces_append {xs ys : List α} (h : xs.getLast? = some c ∨ ys.head? = some c) :
    pieces c (xs ++ ys) = pieces c xs ++ pieces c ys := by
  rcases h with hlast | hhead
  · obtain ⟨init, rfl⟩ := List.getLast?_eq_some_iff.mp hlast
    rw [List.append_assoc, List.singleton_append, pieces_append_cons, pieces_concat_self]
  · obtain ⟨tail, rfl⟩ := List.head?_eq_some_iff.mp hhead
    rw [pieces_append_cons, pieces_cons_self]

end Split
