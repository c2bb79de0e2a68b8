import Mathlib.Data.List.Nodup
import Netpp.Connection.TimeWheel

/-!
# The buckets of the time wheel

What `addToWheel`, `renew` and `removeFromWheel` do to each bucket of a well
formed wheel. An action of an `onTimeout` callback is one of the three; the
weak pointers of the last two have been locked, and an expired one is `none`.
-/

namespace Netpp

namespace TimeWheel

variable {ε : Type*}

/-- The entries of the bucket with index `i`. -/
def bucket (w : TimeWheel ε) (i : Nat) : List ε := (w.buckets[i]?).getD []

/-- The bucket `m_buckets[m_timeOutBucketIndex]`. -/
def scanned (w : TimeWheel ε) : List ε := w.bucket w.timeOutBucketIndex

/-- The wheel of `n` buckets, with entries that have just been constructed. -/
def new (n : Nat) : TimeWheel ε := ⟨n, 0, List.replicate n [], fun _ => 0⟩

/-- There are as many buckets as the size says, at least one; the indices are in
range and the buckets are sets. -/
structure WellFormed (w : TimeWheel ε) : Prop where
  pos : 0 < w.bucketSize
  length : w.buckets.length = w.bucketSize
  timeOut_lt : w.timeOutBucketIndex < w.bucketSize
  index_lt : ∀ e, w.indexInWheel e < w.bucketSize
  nodup : ∀ i, (w.bucket i).Nodup

theorem new_bucket (n i : Nat) : (new n : TimeWheel ε).bucket i = [] := by
  rw [bucket, new, List.getElem?_replicate]
  split
  · rfl
  · rfl

theorem new_wellFormed {n : Nat} (hn : 0 < n) : (new n : TimeWheel ε).WellFormed where
  pos := hn
  length := List.length_replicate
  timeOut_lt := hn
  index_lt _ := hn
  nodup i := by
    rw [new_bucket]
    exact List.nodup_nil

variable {w w' : TimeWheel ε}

theorem WellFormed.ne_zero (h : w.WellFormed) : w.bucketSize ≠ 0 := Nat.ne_of_gt h.pos

theorem WellFormed.latestIndex_lt (h : w.WellFormed) : w.latestIndex < w.bucketSize := by
  have hpos := h.pos
  have hlt := h.timeOut_lt
  unfold latestIndex
  split <;> omega

/-- The bucket that times out next is the latest one only if there is no other. -/
theorem WellFormed.latestIndex_eq_iff (h : w.WellFormed) :
    w.latestIndex = w.timeOutBucketIndex ↔ w.bucketSize = 1 := by
  have hpos := h.pos
  have hlt := h.timeOut_lt
  unfold latestIndex
  split <;> omega

/-- The test of `renew` whether an entry is in the latest bucket. -/
theorem WellFormed.next_eq_iff (h : w.WellFormed) {i : Nat} (hi : i < w.bucketSize) :
    (if i + 1 = w.bucketSize then 0 else i + 1) = w.timeOutBucketIndex ↔ i = w.latestIndex := by
  have hlt := h.timeOut_lt
  unfold latestIndex
  split <;> split <;> omega

/-- Changing one bucket changes no other. -/
theorem bucket_modify {buckets : List (List ε)} {i : Nat} (hi : i < buckets.length)
    (f : List ε → List ε) (j : Nat) :
    ((buckets.modify i f)[j]?).getD [] =
      if j = i then f ((buckets[j]?).getD []) else (buckets[j]?).getD [] := by
  rw [List.getElem?_modify]
  by_cases hij : j = i
  · subst hij
    rw [if_pos rfl, List.getElem?_eq_getElem hi]
    simp
  · rw [if_neg hij]
    simp [Ne.symm hij]

variable [DecidableEq ε]

/-- What an `onTimeout` callback does to the wheel, in one call. -/
inductive Action (ε : Type*) where
  | add (entry : ε)
  | renew (entry : Option ε)
  | remove (entry : Option ε)

def act (w : TimeWheel ε) : Action ε → Except Fault (TimeWheel ε)
  | .add entry => .ok (w.addToWheel entry)
  | .renew entry => w.renew entry
  | .remove entry => w.removeFromWheel entry

/-! ## The three operations, bucket by bucket -/

/-- `w'` has the same size and position as `w`, and the entry `e` may have another
index. -/
structure Moves (w : TimeWheel ε) (e : ε) (index : Nat) (w' : TimeWheel ε) : Prop where
  bucketSize : w'.bucketSize = w.bucketSize
  timeOut : w'.timeOutBucketIndex = w.timeOutBucketIndex
  length : w'.buckets.length = w.buckets.length
  indexInWheel : w'.indexInWheel = Function.update w.indexInWheel e index

theorem WellFormed.of_moves {e : ε} {index : Nat} (h : w.WellFormed) (hmoves : w.Moves e index w')
    (hindex : index < w.bucketSize) (hnodup : ∀ i, (w'.bucket i).Nodup) : w'.WellFormed where
  pos := hmoves.bucketSize ▸ h.pos
  length := by rw [hmoves.length, h.length, hmoves.bucketSize]
  timeOut_lt := by rw [hmoves.timeOut, hmoves.bucketSize]; exact h.timeOut_lt
  index_lt d := by
    rw [hmoves.indexInWheel, hmoves.bucketSize, Function.update_apply]
    split
    · exact hindex
    · exact h.index_lt d
  nodup := hnodup

theorem WellFormed.addToWheel_moves (h : w.WellFormed) (e : ε) :
    w.Moves e w.latestIndex (w.addToWheel e) := by
  rw [addToWheel, if_pos h.ne_zero]
  exact ⟨rfl, rfl, List.length_modify .., rfl⟩

theorem WellFormed.addToWheel_bucket (h : w.WellFormed) (e : ε) (i : Nat) :
    (w.addToWheel e).bucket i =
      if i = w.latestIndex then (w.bucket i).insert e else w.bucket i := by
  have hlatest := h.length ▸ h.latestIndex_lt
  rw [addToWheel, if_pos h.ne_zero]
  exact bucket_modify hlatest (List.insert e) i

theorem WellFormed.addToWheel (h : w.WellFormed) (e : ε) : (w.addToWheel e).WellFormed := by
  refine h.of_moves (h.addToWheel_moves e) h.latestIndex_lt fun i => ?_
  rw [h.addToWheel_bucket]
  split
  · exact (h.nodup i).insert
  · exact h.nodup i

theorem WellFormed.removeFromWheel (h : w.WellFormed) (e : ε) :
    ∃ w', w.removeFromWheel (some e) = .ok w' ∧ w'.WellFormed ∧
      w.Moves e (w.indexInWheel e) w' ∧
        ∀ i, w'.bucket i = if i = w.indexInWheel e then (w.bucket i).erase e else w.bucket i := by
  have hindex : w.indexInWheel e < w.buckets.length := h.length ▸ h.index_lt e
  simp only [TimeWheel.removeFromWheel, List.getElem?_eq_getElem hindex]
  have hmoves : w.Moves e (w.indexInWheel e)
      { w with buckets := w.buckets.modify (w.indexInWheel e) fun bucket => bucket.erase e } :=
    ⟨rfl, rfl, List.length_modify .., (Function.update_eq_self e w.indexInWheel).symm⟩
  have hbucket := bucket_modify hindex fun bucket => bucket.erase e
  refine ⟨_, rfl, h.of_moves hmoves (h.index_lt e) fun i => ?_, hmoves, hbucket⟩
  rw [bucket, hbucket]
  split
  · exact (h.nodup i).erase e
  · exact h.nodup i

/-- Renewing an entry of the latest bucket does nothing. -/
theorem WellFormed.renew_of_latest (h : w.WellFormed) {e : ε}
    (hlatest : w.indexInWheel e = w.latestIndex) : w.renew (some e) = .ok w := by
  have hnext := (h.next_eq_iff (h.index_lt e)).mpr hlatest
  simp only [renew, if_neg h.ne_zero, hnext, ne_eq, not_true_eq_false, if_false]

/-- Renewing another entry of the wheel moves it to the latest bucket. -/
theorem WellFormed.renew_of_mem (h : w.WellFormed) {e : ε}
    (hlatest : w.indexInWheel e ≠ w.latestIndex) (hmem : e ∈ w.bucket (w.indexInWheel e)) :
    ∃ w', w.renew (some e) = .ok w' ∧ w'.WellFormed ∧ w.Moves e w.latestIndex w' ∧
      ∀ i, w'.bucket i =
        if i = w.latestIndex then (w.bucket i).insert e
        else if i = w.indexInWheel e then (w.bucket i).erase e else w.bucket i := by
  have hindex : w.indexInWheel e < w.buckets.length := h.length ▸ h.index_lt e
  have hlt : w.latestIndex < w.buckets.length := h.length ▸ h.latestIndex_lt
  have hnext := fun heq => hlatest ((h.next_eq_iff (h.index_lt e)).mp heq)
  rw [bucket, List.getElem?_eq_getElem hindex, Option.getD_some] at hmem
  simp only [renew, if_neg h.ne_zero, if_pos hnext, List.getElem?_eq_getElem hindex, if_pos hmem]
  have hmoves : w.Moves e w.latestIndex { w with
      indexInWheel := Function.update w.indexInWheel e w.latestIndex
      buckets := (w.buckets.modify (w.indexInWheel e) fun bucket => bucket.erase e).modify
        w.latestIndex (List.insert e) } :=
    ⟨rfl, rfl, by rw [List.length_modify, List.length_modify], rfl⟩
  have hbucket : ∀ i, (((w.buckets.modify (w.indexInWheel e) fun bucket => bucket.erase e).modify
      w.latestIndex (List.insert e))[i]?).getD [] =
        if i = w.latestIndex then (w.bucket i).insert e
        else if i = w.indexInWheel e then (w.bucket i).erase e else w.bucket i := by
    intro i
    rw [bucket_modify (by rwa [List.length_modify]), bucket_modify hindex]
    by_cases hi : i = w.latestIndex
    · rw [if_pos hi, if_pos hi, if_neg (by rw [hi]; exact hlatest.symm)]
      rfl
    · rw [if_neg hi, if_neg hi]
      rfl
  refine ⟨_, rfl, h.of_moves hmoves h.latestIndex_lt fun i => ?_, hmoves, hbucket⟩
  rw [bucket, hbucket]
  split
  · exact (h.nodup i).insert
  · split
    · exact (h.nodup i).erase e
    · exact h.nodup i

/-- Renewing an entry that its bucket does not contain is undefined. -/
theorem WellFormed.renew_of_not_mem (h : w.WellFormed) {e : ε}
    (hlatest : w.indexInWheel e ≠ w.latestIndex) (hmem : e ∉ w.bucket (w.indexInWheel e)) :
    w.renew (some e) = .error .badIterator := by
  have hindex : w.indexInWheel e < w.buckets.length := h.length ▸ h.index_lt e
  have hnext := fun heq => hlatest ((h.next_eq_iff (h.index_lt e)).mp heq)
  rw [bucket, List.getElem?_eq_getElem hindex, Option.getD_some] at hmem
  simp only [renew, if_neg h.ne_zero, if_pos hnext, List.getElem?_eq_getElem hindex, if_neg hmem]

/-! ## Where an entry comes from

These hold of every wheel. -/

omit [DecidableEq ε] in
theorem mem_of_mem_modify {buckets : List (List ε)} {f : List ε → List ε} {e : ε} {k i : Nat}
    (hf : ∀ bucket, e ∈ f bucket → e ∈ bucket)
    (h : e ∈ ((buckets.modify k f)[i]?).getD []) : e ∈ (buckets[i]?).getD [] := by
  rw [List.getElem?_modify] at h
  cases hi : buckets[i]? with
  | none =>
      rw [hi] at h
      exact h
  | some bucket =>
      rw [hi] at h
      by_cases hki : k = i
      · simp only [if_pos hki, Option.map_eq_map, Option.map_some, Option.getD_some] at h
        exact hf bucket h
      · simp only [if_neg hki, Option.map_eq_map, Option.map_some, Option.getD_some] at h
        exact h

theorem mem_of_mem_removeFromWheel {d : Option ε} {e : ε} {i : Nat}
    (hok : w.removeFromWheel d = .ok w') (h : e ∈ w'.bucket i) : e ∈ w.bucket i := by
  cases d with
  | none =>
      cases hok
      exact h
  | some d =>
      simp only [removeFromWheel] at hok
      split at hok
      next => cases hok
      next =>
        cases hok
        exact mem_of_mem_modify (fun _ => List.mem_of_mem_erase) h

/-- An entry that is renewed changes its bucket, and no other one does. -/
theorem mem_of_mem_renew {d : Option ε} {e : ε} {i : Nat} (hok : w.renew d = .ok w')
    (hne : d ≠ some e) (h : e ∈ w'.bucket i) : e ∈ w.bucket i := by
  cases d with
  | none =>
      cases hok
      exact h
  | some d =>
      have hde : e ≠ d := fun heq => hne (congrArg some heq.symm)
      rw [renew] at hok
      by_cases hsize : w.bucketSize = 0
      · rw [if_pos hsize] at hok
        cases hok
        exact h
      · rw [if_neg hsize] at hok
        simp only at hok
        by_cases hlatest : (if w.indexInWheel d + 1 = w.bucketSize then 0
            else w.indexInWheel d + 1) ≠ w.timeOutBucketIndex
        · rw [if_pos hlatest] at hok
          split at hok
          next => cases hok
          next =>
            split at hok
            next =>
              cases hok
              refine mem_of_mem_modify (fun _ => List.mem_of_mem_erase) (mem_of_mem_modify ?_ h)
              exact fun _ hinsert => (List.mem_insert_iff.mp hinsert).resolve_left hde
            next => cases hok
        · rw [if_neg hlatest] at hok
          cases hok
          exact h

theorem mem_of_mem_addToWheel {d e : ε} {i : Nat} (h : e ∈ (w.addToWheel d).bucket i) :
    e ∈ w.bucket i ∨ i = w.latestIndex := by
  rw [TimeWheel.addToWheel] at h
  split at h
  next =>
    by_cases hi : i = w.latestIndex
    · exact .inr hi
    · rw [bucket, List.getElem?_modify_ne _ _ (Ne.symm hi)] at h
      exact .inl h
  next => exact .inl h

end TimeWheel

end Netpp
