import Mathlib.Tactic.Common

/-!
# Scanning a text

`scan` is the loop of a hand-written parser: it goes forward to the first character that
stops it and fails on an illegal one before that. The text ends in a terminator, which is
not part of the list. `scanBack` goes backward from a position as long as the characters
are of a kind, but not past the first one.
-/

namespace Scanner

variable {α : Type*} {eot : α} {stop legal p : α → Bool} {xs ys rest ds : List α} {c : α}

/-- What is passed, and the rest of the text. -/
def scan (eot : α) (stop legal : α → Bool) : List α → Option (List α × List α)
  | [] => if stop eot then some ([], []) else none
  | c :: text =>
      if stop c then some ([], c :: text)
      else if legal c then (scan eot stop legal text).map fun r => (c :: r.1, r.2)
      else none

theorem scan_append (hlegal : ∀ c ∈ xs, stop c = false ∧ legal c = true)
    (hrest : stop (rest.headD eot) = true) :
    scan eot stop legal (xs ++ rest) = some (xs, rest) := by
  induction xs with
  | nil =>
      cases rest with
      | nil => exact if_pos hrest
      | cons c rest => exact if_pos hrest
  | cons c xs ih =>
      obtain ⟨hgo, hc⟩ := hlegal c (List.mem_cons_self ..)
      rw [List.cons_append, scan, hgo, hc, ih fun d hd => hlegal d (List.mem_cons_of_mem _ hd)]
      rfl

/-- What it passes does not stop it and is legal. -/
theorem of_scan {text : List α} (h : scan eot stop legal text = some (xs, rest)) :
    text = xs ++ rest ∧ (∀ c ∈ xs, stop c = false ∧ legal c = true) ∧
      stop (rest.headD eot) = true := by
  induction text generalizing xs with
  | nil =>
      rw [scan] at h
      split at h
      next hstop =>
        cases h
        exact ⟨rfl, List.forall_mem_nil _, hstop⟩
      next => cases h
  | cons c text ih =>
      rw [scan] at h
      split at h
      next hstop =>
        cases h
        exact ⟨rfl, List.forall_mem_nil _, hstop⟩
      next hstop =>
        split at h
        next hlegal =>
          obtain ⟨⟨ys, rest'⟩, hscan, heq⟩ := Option.map_eq_some_iff.mp h
          cases heq
          obtain ⟨rfl, hall, hrest⟩ := ih hscan
          exact ⟨rfl, List.forall_mem_cons.mpr ⟨⟨Bool.not_eq_true _ ▸ hstop, hlegal⟩, hall⟩, hrest⟩
        next => cases h

def scanBack (p : α → Bool) (xs : List α) : Nat → Nat
  | 0 => 0
  | i + 1 => if (xs[i + 1]?).any p then scanBack p xs i else i + 1

theorem scanBack_le (p : α → Bool) (xs : List α) (i : Nat) : scanBack p xs i ≤ i := by
  induction i with
  | zero => exact Nat.le_refl 0
  | succ i ih =>
      rw [scanBack]
      split
      · exact Nat.le_succ_of_le ih
      · exact Nat.le_refl _

/-- It stops at the last character that is not of the kind. -/
theorem scanBack_append (hds : ∀ d ∈ ds, p d = true) (hc : p c = false) :
    scanBack p (ys ++ c :: ds) ((ys ++ c :: ds).length - 1) = ys.length := by
  have hfrom (k : Nat) (hk : k ≤ ds.length) :
      scanBack p (ys ++ c :: ds) (ys.length + k) = ys.length := by
    induction k with
    | zero =>
        cases ys with
        | nil => rfl
        | cons y ys => simp [scanBack, hc]
    | succ k ih =>
        have hget : (ys ++ c :: ds)[ys.length + k + 1]? = some ds[k] := by
          rw [Nat.add_assoc, List.getElem?_append_right (Nat.le_add_right ..)]
          simp
        rw [← Nat.add_assoc, scanBack, hget, Option.any_some, hds _ (List.getElem_mem _),
          if_pos rfl, ih (Nat.le_of_succ_le hk)]
  rw [← hfrom ds.length (Nat.le_refl _)]
  congr 1
  simp

/-- It goes to the first character if all of them are of the kind. -/
theorem scanBack_all (hxs : ∀ x ∈ xs, p x = true) {i : Nat} (hi : i < xs.length) :
    scanBack p xs i = 0 := by
  induction i with
  | zero => rfl
  | succ i ih =>
      rw [scanBack, List.getElem?_eq_getElem hi, Option.any_some, hxs _ (List.getElem_mem hi),
        if_pos rfl, ih (Nat.lt_of_succ_lt hi)]

/-- The last character that is not of a kind, and what follows it. -/
theorem forall_or_exists_last (p : α → Bool) (xs : List α) : (∀ x ∈ xs, p x = true) ∨
    ∃ ys c ds, xs = ys ++ c :: ds ∧ p c = false ∧ ∀ d ∈ ds, p d = true := by
  induction xs with
  | nil => exact .inl fun x hx => by cases hx
  | cons x xs ih =>
      obtain hall | ⟨ys, c, ds, rfl, hc, hds⟩ := ih
      · cases hx : p x with
        | true => exact .inl (List.forall_mem_cons.mpr ⟨hx, hall⟩)
        | false => exact .inr ⟨[], x, xs, rfl, hx, hall⟩
      · exact .inr ⟨x :: ys, c, ds, rfl, hc, hds⟩

end Scanner
