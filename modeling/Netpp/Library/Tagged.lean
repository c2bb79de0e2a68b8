import Mathlib.Data.List.Nodup

/-!
# Tagged lists

Several owners keep their entries in one list, each entry with the tag of its owner.
`part i` is what the owner `i` sees of the list. An operation on an entry of `i` is the
operation on the part of `i`, and the other parts do not notice it.
-/

structure Tagged (ι α : Type*) where
  tag : ι
  entry : α
  deriving DecidableEq

namespace Tagged

variable {ι α : Type*} [DecidableEq ι]

/-- The entry, if its owner is `i`. -/
def of (i : ι) (x : Tagged ι α) : Option α := if x.tag = i then some x.entry else none

def part (i : ι) (l : List (Tagged ι α)) : List α := l.filterMap (of i)

variable {i j : ι} {a : α} {l : List (Tagged ι α)}

@[simp] theorem part_nil : part i ([] : List (Tagged ι α)) = [] := rfl

@[simp] theorem part_cons_self (i : ι) (a : α) (l : List (Tagged ι α)) :
    part i (⟨i, a⟩ :: l) = a :: part i l :=
  List.filterMap_cons_some (if_pos rfl)

theorem part_cons_of_ne (h : j ≠ i) (a : α) (l : List (Tagged ι α)) :
    part i (⟨j, a⟩ :: l) = part i l :=
  List.filterMap_cons_none (if_neg h)

@[simp] theorem part_append (i : ι) (l l' : List (Tagged ι α)) :
    part i (l ++ l') = part i l ++ part i l' := List.filterMap_append

theorem mem_part : a ∈ part i l ↔ ⟨i, a⟩ ∈ l := by
  rw [part, List.mem_filterMap]
  constructor
  · rintro ⟨⟨j, b⟩, hmem, htag⟩
    unfold of at htag
    split at htag
    case isTrue hj =>
      cases htag
      cases hj
      exact hmem
    case isFalse => cases htag
  · exact fun hmem => ⟨⟨i, a⟩, hmem, if_pos rfl⟩

theorem part_eq_nil (h : ∀ x ∈ l, x.tag ≠ i) : part i l = [] := by
  apply List.eq_nil_iff_forall_not_mem.mpr
  intro a ha
  exact h ⟨i, a⟩ (mem_part.mp ha) rfl

theorem nodup_of_part (h : ∀ i, (part i l).Nodup) : l.Nodup := by
  induction l with
  | nil => exact List.nodup_nil
  | cons x l ih =>
      obtain ⟨j, a⟩ := x
      rw [List.nodup_cons]
      constructor
      · intro hmem
        have hj := h j
        rw [part_cons_self, List.nodup_cons] at hj
        exact hj.1 (mem_part.mpr hmem)
      · apply ih
        intro i
        have hi := h i
        by_cases hij : j = i
        · subst hij
          rw [part_cons_self] at hi
          exact hi.of_cons
        · rwa [part_cons_of_ne hij] at hi

variable [DecidableEq α]

theorem part_insert (i : ι) (a : α) (l : List (Tagged ι α)) :
    part i (l.insert ⟨i, a⟩) = (part i l).insert a := by
  by_cases h : ⟨i, a⟩ ∈ l
  · rw [List.insert_of_mem h, List.insert_of_mem (mem_part.mpr h)]
  · rw [List.insert_of_not_mem h, List.insert_of_not_mem (mt mem_part.mp h), part_cons_self]

theorem part_insert_of_ne (h : j ≠ i) (a : α) (l : List (Tagged ι α)) :
    part i (l.insert ⟨j, a⟩) = part i l := by
  by_cases hmem : ⟨j, a⟩ ∈ l
  · rw [List.insert_of_mem hmem]
  · rw [List.insert_of_not_mem hmem, part_cons_of_ne h]

theorem part_erase (i : ι) (a : α) (l : List (Tagged ι α)) :
    part i (l.erase ⟨i, a⟩) = (part i l).erase a := by
  induction l with
  | nil => rfl
  | cons x l ih =>
      obtain ⟨j, b⟩ := x
      by_cases hj : j = i
      · subst hj
        by_cases hb : b = a
        · subst hb
          rw [part_cons_self, List.erase_cons_head, List.erase_cons_head]
        · have hne : (⟨j, b⟩ : Tagged ι α) ≠ ⟨j, a⟩ := fun heq => hb (congrArg entry heq)
          rw [List.erase_cons_tail (by simpa using hne), part_cons_self, part_cons_self,
            List.erase_cons_tail (by simpa using hb), ih]
      · have hne : (⟨j, b⟩ : Tagged ι α) ≠ ⟨i, a⟩ := fun heq => hj (congrArg tag heq)
        rw [List.erase_cons_tail (by simpa using hne), part_cons_of_ne hj, part_cons_of_ne hj, ih]

theorem part_erase_of_ne (h : j ≠ i) (a : α) (l : List (Tagged ι α)) :
    part i (l.erase ⟨j, a⟩) = part i l := by
  induction l with
  | nil => rfl
  | cons x l ih =>
      obtain ⟨k, b⟩ := x
      by_cases hx : (⟨k, b⟩ : Tagged ι α) = ⟨j, a⟩
      · rw [hx, List.erase_cons_head, part_cons_of_ne h]
      · rw [List.erase_cons_tail (by simpa using hx)]
        by_cases hk : k = i
        · subst hk
          rw [part_cons_self, part_cons_self, ih]
        · rw [part_cons_of_ne hk, part_cons_of_ne hk, ih]

end Tagged
