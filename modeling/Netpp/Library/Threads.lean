import Mathlib.Data.List.Basic

/-!
# Threads that each take one step at a time

The threads of a system are a list of phases, one for each thread, and a step of
the thread at position `i` puts its next phase in the place of the one it was in.
The lemmas say what such a step does to the number of threads in some kind of
phase, and which phases are still there after it.
-/

namespace Threads

variable {α β : Type*} {threads : List α} {i : Nat} {a b c : α}

/-- One thread leaves the phase `a` for the phase `b`. -/
theorem countP_set_add (p : α → Bool) (h : threads[i]? = some a) (b : α) :
    (threads.set i b).countP p + (p a).toNat = threads.countP p + (p b).toNat := by
  obtain ⟨hi, hget⟩ := List.getElem?_eq_some_iff.mp h
  have hset := List.countP_set (p := p) (a := b) hi
  have hle := List.boole_getElem_le_countP (p := p) hi
  rw [hget] at hset hle
  cases ha : p a <;> cases hb : p b <;>
    simp only [ha, hb, if_true, if_false, Bool.false_eq_true] at hset hle <;>
    simp only [Bool.toNat_true, Bool.toNat_false] <;> omega

/-- The phase the thread goes to. -/
theorem mem_set_self (h : threads[i]? = some a) (b : α) : b ∈ threads.set i b := by
  obtain ⟨hi, -⟩ := List.getElem?_eq_some_iff.mp h
  exact List.mem_set hi b

/-- A phase that the thread was not in is kept by the thread that is in it. -/
theorem mem_set_of_ne (h : threads[i]? = some a) (hc : c ∈ threads) (hne : c ≠ a) (b : α) :
    c ∈ threads.set i b := by
  obtain ⟨j, hj⟩ := List.mem_iff_getElem?.mp hc
  have hij : i ≠ j := by
    rintro rfl
    exact hne (Option.some.inj (hj.symm.trans h))
  exact List.mem_iff_getElem?.mpr ⟨j, by rw [List.getElem?_set_ne hij, hj]⟩

/-- What the threads hold, when one of them leaves the phase `a` for the phase `b`. -/
theorem flatMap_set_perm (f : α → List β) (h : threads[i]? = some a) (b : α) :
    (f a ++ (threads.set i b).flatMap f).Perm (f b ++ threads.flatMap f) := by
  induction threads generalizing i with
  | nil => simp at h
  | cons thread threads ih =>
      cases i with
      | zero =>
          obtain rfl : thread = a := by simpa using h
          rw [List.set_cons_zero, List.flatMap_cons, List.flatMap_cons]
          exact List.perm_append_comm_assoc ..
      | succ i =>
          rw [List.set_cons_succ, List.flatMap_cons, List.flatMap_cons]
          calc
            f a ++ (f thread ++ (threads.set i b).flatMap f)
            _ |>.Perm (f thread ++ (f a ++ (threads.set i b).flatMap f)) :=
                List.perm_append_comm_assoc ..
            _ |>.Perm (f thread ++ (f b ++ threads.flatMap f)) :=
                (ih (by simpa using h)).append_left _
            _ |>.Perm (f b ++ (f thread ++ threads.flatMap f)) :=
                List.perm_append_comm_assoc ..

/-- The same for threads that hold one thing at most. -/
theorem filterMap_set_perm (f : α → Option β) (h : threads[i]? = some a) (b : α) :
    ((f a).toList ++ (threads.set i b).filterMap f).Perm
      ((f b).toList ++ threads.filterMap f) := by
  rw [List.filterMap_eq_flatMap_toList, List.filterMap_eq_flatMap_toList]
  exact flatMap_set_perm (fun c => (f c).toList) h b

/-- Threads that hold the same thing are the same one, if nothing is held twice. -/
theorem eq_of_filterMap_nodup {f : α → Option β} (hnodup : (threads.filterMap f).Nodup)
    {j : Nat} {x : β} (ha : threads[i]? = some a) (hc : threads[j]? = some c)
    (hfa : f a = some x) (hfc : f c = some x) : i = j := by
  induction threads generalizing i j with
  | nil => simp at ha
  | cons thread threads ih =>
      cases i with
      | zero =>
          cases j with
          | zero => rfl
          | succ j =>
              obtain rfl : thread = a := by simpa using ha
              rw [List.filterMap_cons_some hfa, List.nodup_cons] at hnodup
              have hmem : c ∈ threads := List.mem_of_getElem? (by simpa using hc)
              exact absurd (List.mem_filterMap.mpr ⟨c, hmem, hfc⟩) hnodup.1
      | succ i =>
          cases j with
          | zero =>
              obtain rfl : thread = c := by simpa using hc
              rw [List.filterMap_cons_some hfc, List.nodup_cons] at hnodup
              have hmem : a ∈ threads := List.mem_of_getElem? (by simpa using ha)
              exact absurd (List.mem_filterMap.mpr ⟨a, hmem, hfa⟩) hnodup.1
          | succ j =>
              have hrest : (threads.filterMap f).Nodup :=
                hnodup.sublist ((List.sublist_cons_self ..).filterMap f)
              exact congrArg Nat.succ (ih hrest (by simpa using ha) (by simpa using hc))

end Threads
