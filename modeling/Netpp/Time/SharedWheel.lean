import Netpp.Library.Tagged
import Netpp.Time.Removing

/-!
# A time wheel with several owners

The connections of a loop share one wheel. `only i` is the wheel as the owner `i` sees
it: the buckets hold its own entries only. Each operation on an entry of `i` is the
same operation on the wheel that `i` sees and leaves the wheels of the others as they
are, and a tick in which nothing is done turns all of these wheels.
-/

namespace Netpp

namespace TimeWheel

variable {ι ε : Type*} [DecidableEq ι]

/-- The wheel with the entries of one owner. -/
def only (i : ι) (w : TimeWheel (Tagged ι ε)) : TimeWheel ε where
  bucketSize := w.bucketSize
  timeOutBucketIndex := w.timeOutBucketIndex
  buckets := w.buckets.map (Tagged.part i)
  indexInWheel e := w.indexInWheel ⟨i, e⟩

variable {w w' : TimeWheel (Tagged ι ε)} {i j : ι} {e : ε}

theorem only_bucket (i : ι) (w : TimeWheel (Tagged ι ε)) (k : Nat) :
    (w.only i).bucket k = Tagged.part i (w.bucket k) := by
  rw [bucket, bucket, only, List.getElem?_map]
  cases w.buckets[k]? with
  | none => rfl
  | some b => rfl

theorem only_begin (i : ι) (w : TimeWheel (Tagged ι ε)) :
    w.begin.wheel.only i = (w.only i).begin.wheel := rfl

theorem only_scanned (i : ι) (w : TimeWheel (Tagged ι ε)) :
    (w.only i).scanned = Tagged.part i w.scanned := only_bucket i w _

/-! ## The shared wheel is sound if all see a sound wheel -/

theorem wellFormed_of_only [Nonempty ι] (h : ∀ i, (w.only i).WellFormed) : w.WellFormed where
  pos := (h (Classical.arbitrary ι)).pos
  length := by
    have hlength := (h (Classical.arbitrary ι)).length
    rwa [only, List.length_map] at hlength
  timeOut_lt := (h (Classical.arbitrary ι)).timeOut_lt
  index_lt e := (h e.tag).index_lt e.entry
  nodup k := by
    apply Tagged.nodup_of_part
    intro i
    rw [← only_bucket]
    exact (h i).nodup k

theorem placed_of_only (h : ∀ i, (w.only i).Placed) : w.Placed := by
  rintro ⟨i, e⟩ k he
  have hmem : e ∈ (w.only i).bucket k := by
    rw [only_bucket]
    exact Tagged.mem_part.mpr he
  exact h i e k hmem

/-! ## Operations on the entry of an owner -/

/-- Changing a bucket at an entry of `i`, as `i` sees it. -/
theorem map_part_modify {f : List (Tagged ι ε) → List (Tagged ι ε)} {g : List ε → List ε}
    (hfg : ∀ bucket, Tagged.part i (f bucket) = g (Tagged.part i bucket)) (k : Nat)
    (buckets : List (List (Tagged ι ε))) :
    (buckets.modify k f).map (Tagged.part i) = (buckets.map (Tagged.part i)).modify k g := by
  apply List.ext_getElem?
  intro m
  rw [List.getElem?_map, List.getElem?_modify, List.getElem?_modify, List.getElem?_map]
  cases buckets[m]? with
  | none => rfl
  | some bucket =>
      by_cases hk : k = m
      · simp [hk, hfg]
      · simp [hk]

/-- Changing a bucket at an entry of another owner. -/
theorem map_part_modify_of_ne {f : List (Tagged ι ε) → List (Tagged ι ε)}
    (hf : ∀ bucket, Tagged.part i (f bucket) = Tagged.part i bucket) (k : Nat)
    (buckets : List (List (Tagged ι ε))) :
    (buckets.modify k f).map (Tagged.part i) = buckets.map (Tagged.part i) := by
  rw [map_part_modify (g := id) hf, List.modify_id]

variable [DecidableEq ε]

section Buckets

variable (k : Nat) (buckets : List (List (Tagged ι ε)))

theorem map_part_insert (i : ι) (e : ε) :
    (buckets.modify k (List.insert ⟨i, e⟩)).map (Tagged.part i) =
      (buckets.map (Tagged.part i)).modify k (List.insert e) :=
  map_part_modify (Tagged.part_insert i e) k buckets

theorem map_part_insert_of_ne (h : j ≠ i) (e : ε) :
    (buckets.modify k (List.insert ⟨j, e⟩)).map (Tagged.part i) = buckets.map (Tagged.part i) :=
  map_part_modify_of_ne (Tagged.part_insert_of_ne h e) k buckets

theorem map_part_erase (i : ι) (e : ε) :
    (buckets.modify k fun bucket => bucket.erase ⟨i, e⟩).map (Tagged.part i) =
      (buckets.map (Tagged.part i)).modify k fun bucket => bucket.erase e :=
  map_part_modify (Tagged.part_erase i e) k buckets

theorem map_part_erase_of_ne (h : j ≠ i) (e : ε) :
    (buckets.modify k fun bucket => bucket.erase ⟨j, e⟩).map (Tagged.part i) =
      buckets.map (Tagged.part i) :=
  map_part_modify_of_ne (Tagged.part_erase_of_ne h e) k buckets

end Buckets

/-- The index of an entry of `i` changes for `i` only. -/
theorem update_index (i : ι) (e : ε) (index : Tagged ι ε → Nat) (k : Nat) :
    (fun d => Function.update index ⟨i, e⟩ k ⟨i, d⟩) =
      Function.update (fun d => index ⟨i, d⟩) e k := by
  funext d
  simp [Function.update_apply]

theorem update_index_of_ne (h : j ≠ i) (e : ε) (index : Tagged ι ε → Nat) (k : Nat) :
    (fun d => Function.update index ⟨j, e⟩ k ⟨i, d⟩) = fun d => index ⟨i, d⟩ := by
  funext d
  simp [h.symm]

theorem lock_eq (i : ι) (w : TimeWheel (Tagged ι ε)) (e : ε) :
    w.lock ⟨i, e⟩ = ((w.only i).lock e).map (Tagged.mk i) := by
  rw [lock, lock, apply_ite (Option.map (Tagged.mk i))]
  refine if_congr ?_ rfl rfl
  simp [only, Tagged.mem_part]

theorem lock_isSome_eq (i : ι) (w : TimeWheel (Tagged ι ε)) (e : ε) :
    (w.lock ⟨i, e⟩).isSome = ((w.only i).lock e).isSome := by
  rw [lock_eq, Option.isSome_map]

theorem only_addToWheel (i : ι) (w : TimeWheel (Tagged ι ε)) (e : ε) :
    (w.addToWheel ⟨i, e⟩).only i = (w.only i).addToWheel e := by
  by_cases hsize : w.bucketSize ≠ 0
  · simp only [addToWheel, only, hsize, update_index, map_part_insert, ne_eq, not_false_eq_true,
      if_true]
    rfl
  · simp only [addToWheel, only, hsize, if_false]

theorem only_addToWheel_of_ne (h : j ≠ i) (w : TimeWheel (Tagged ι ε)) (e : ε) :
    (w.addToWheel ⟨j, e⟩).only i = w.only i := by
  by_cases hsize : w.bucketSize ≠ 0
  · simp only [addToWheel, only, hsize, update_index_of_ne h, map_part_insert_of_ne _ _ h, ne_eq,
      not_false_eq_true, if_true]
  · simp only [addToWheel, only, hsize, if_false]

/-- `removeFromWheel` of an entry of `i`. -/
theorem only_removeFromWheel (i : ι) (w : TimeWheel (Tagged ι ε)) (e : Option ε) :
    (w.removeFromWheel (e.map (Tagged.mk i))).map (only i) = (w.only i).removeFromWheel e := by
  cases e with
  | none => rfl
  | some e =>
      simp only [removeFromWheel, Option.map_some, only, List.getElem?_map]
      cases w.buckets[w.indexInWheel ⟨i, e⟩]? with
      | none => rfl
      | some bucket =>
          simp only [Option.map_some, Except.map, only, map_part_erase]

theorem only_removeFromWheel_of_ne (h : j ≠ i) {e : Option ε}
    (hok : w.removeFromWheel (e.map (Tagged.mk j)) = .ok w') : w'.only i = w.only i := by
  cases e with
  | none =>
      cases hok
      rfl
  | some e =>
      simp only [removeFromWheel, Option.map_some] at hok
      split at hok
      case h_1 => cases hok
      case h_2 =>
        cases hok
        simp only [only, map_part_erase_of_ne _ _ h]

/-- `renew` of an entry of `i`. -/
theorem only_renew (i : ι) (w : TimeWheel (Tagged ι ε)) (e : Option ε) :
    (w.renew (e.map (Tagged.mk i))).map (only i) = (w.only i).renew e := by
  cases e with
  | none => rfl
  | some e =>
      have hlatest : (w.only i).latestIndex = w.latestIndex := rfl
      rw [Option.map_some, renew, renew]
      by_cases hsize : w.bucketSize = 0
      · rw [if_pos hsize, if_pos (show (w.only i).bucketSize = 0 from hsize)]
        rfl
      · rw [if_neg hsize, if_neg (show ¬(w.only i).bucketSize = 0 from hsize)]
        dsimp only
        by_cases hnext : (if w.indexInWheel ⟨i, e⟩ + 1 = w.bucketSize then 0
            else w.indexInWheel ⟨i, e⟩ + 1) ≠ w.timeOutBucketIndex
        · have hnext' : (if (w.only i).indexInWheel e + 1 = (w.only i).bucketSize then 0
              else (w.only i).indexInWheel e + 1) ≠ (w.only i).timeOutBucketIndex := hnext
          rw [if_pos hnext, if_pos hnext', hlatest]
          dsimp only [only]
          rw [List.getElem?_map]
          cases w.buckets[w.indexInWheel ⟨i, e⟩]? with
          | none => rfl
          | some bucket =>
              simp only [Option.map_some, Tagged.mem_part]
              split
              · simp only [Except.map, only, update_index, map_part_insert, map_part_erase]
              · rfl
        · have hnext' : ¬(if (w.only i).indexInWheel e + 1 = (w.only i).bucketSize then 0
              else (w.only i).indexInWheel e + 1) ≠ (w.only i).timeOutBucketIndex := hnext
          rw [if_neg hnext, if_neg hnext']
          rfl

theorem only_renew_of_ne (h : j ≠ i) {e : Option ε}
    (hok : w.renew (e.map (Tagged.mk j)) = .ok w') : w'.only i = w.only i := by
  cases e with
  | none =>
      cases hok
      rfl
  | some e =>
      rw [Option.map_some, renew] at hok
      by_cases hsize : w.bucketSize = 0
      · rw [if_pos hsize] at hok
        cases hok
        rfl
      · rw [if_neg hsize] at hok
        dsimp only at hok
        by_cases hnext : (if w.indexInWheel ⟨j, e⟩ + 1 = w.bucketSize then 0
            else w.indexInWheel ⟨j, e⟩ + 1) ≠ w.timeOutBucketIndex
        · rw [if_pos hnext] at hok
          split at hok
          case h_1 => cases hok
          case h_2 =>
            split at hok
            · cases hok
              simp only [only, update_index_of_ne h, map_part_insert_of_ne _ _ h,
                map_part_erase_of_ne _ _ h]
            · cases hok
        · rw [if_neg hnext] at hok
          cases hok
          rfl

/-! ## A tick in which nothing is done -/

section Silent

variable {v : TimeWheel ε} {b : Behaviour ε} {s : Scan ε} {ahead : List ε}

/-- The wheel with the bucket under the scan empty. -/
def emptied (v : TimeWheel ε) : TimeWheel ε :=
  { v with buckets := v.buckets.modify v.timeOutBucketIndex fun _ => [] }

/-- The wheel after a tick whose callbacks leave it alone. -/
def turned (v : TimeWheel ε) : TimeWheel ε := v.begin.wheel.emptied

omit [DecidableEq ε] in
theorem emptied_of_scanned (h : v.scanned = []) : v.emptied = v := by
  have hbuckets : v.buckets.modify v.timeOutBucketIndex (fun _ => []) = v.buckets := by
    apply List.ext_getElem?
    intro m
    rw [List.getElem?_modify]
    by_cases hm : v.timeOutBucketIndex = m
    · rw [scanned, bucket, hm] at h
      cases hbucket : v.buckets[m]? with
      | none => rfl
      | some b =>
          rw [hbucket, Option.getD_some] at h
          simp [hm, h]
    · simp [hm]
  rw [emptied, hbuckets]

theorem eraseScanned_scanned (v : TimeWheel ε) (e : ε) :
    (v.eraseScanned e).scanned = v.scanned.erase e := by
  rw [scanned, bucket, eraseScanned, scanned, bucket, List.getElem?_modify_eq]
  cases v.buckets[v.timeOutBucketIndex]? with
  | none => rfl
  | some b => rfl

theorem eraseScanned_emptied (v : TimeWheel ε) (e : ε) :
    (v.eraseScanned e).emptied = v.emptied := by
  rw [emptied, emptied, eraseScanned, List.modify_modify_eq]
  rfl

/-- Round lemma: the entry at the iterator is called and erased. -/
theorem round_silent (herases : ∀ e, b.eraseOnTimeout e = true)
    (hscanned : s.wheel.scanned = e :: ahead) (hsilent : b.onTimeout e = []) :
    round b s e =
      .ok ⟨s.wheel.eraseScanned e, ahead.head?, s.fired ++ [e], s.removed⟩ := by
  have hit : following s.wheel.scanned e = ahead.head? := by
    rw [hscanned]
    exact following_append List.not_mem_nil
  have hremoved : s.wheel.scanned.filter (· ∉ s.wheel.scanned) = [] := by
    rw [List.filter_eq_nil_iff]
    intro d hd
    simpa using hd
  simp only [round, hsilent, callback, bind, Except.bind, Scan.next, herases, if_true, hit,
    hremoved, List.append_nil]

/-- Run lemma: the loop empties the bucket under the scan. -/
theorem rounds_silent (herases : ∀ e, b.eraseOnTimeout e = true)
    (hscanned : s.wheel.scanned = ahead) (hit : s.it = ahead.head?)
    (hsilent : ∀ e ∈ ahead, b.onTimeout e = []) :
    rounds b ahead.length s = .ok ⟨s.wheel.emptied, none, s.fired ++ ahead, s.removed⟩ := by
  induction ahead generalizing s with
  | nil =>
      rw [rounds_of_none hit, emptied_of_scanned hscanned, List.append_nil]
      cases s
      cases hit
      rfl
  | cons e ahead ih =>
      have hround := round_silent herases hscanned (hsilent e (List.mem_cons_self ..))
      have hscanned' : (s.wheel.eraseScanned e).scanned = ahead := by
        rw [eraseScanned_scanned, hscanned, List.erase_cons_head]
      rw [List.length_cons, rounds_of_some hit, hround]
      refine (ih hscanned' rfl fun d hd => hsilent d (List.mem_cons_of_mem _ hd)).trans ?_
      rw [eraseScanned_emptied, List.append_assoc]
      rfl

/-- A tick in which the callbacks do nothing empties the bucket that it reaches. -/
theorem tick_silent (herases : ∀ e, b.eraseOnTimeout e = true)
    (hsilent : ∀ e ∈ v.begin.wheel.scanned, b.onTimeout e = []) :
    tick b v = .ok ⟨v.turned, none, v.begin.wheel.scanned, []⟩ := by
  rw [tick, rounds_silent herases rfl rfl hsilent]
  rfl

variable {s' : Scan ε} {e : ε}

theorem round_fired {entry : ε} (hok : round b s entry = .ok s') :
    s'.fired = s.fired ++ [entry] := by
  obtain ⟨⟨w, valid⟩, -, hrest⟩ := Except.exists_of_bind_eq_ok hok
  cases valid with
  | false => cases hrest
  | true =>
      cases hrest
      rfl

/-- An entry that has been called remains recorded. -/
theorem mem_fired_of_rounds {n : Nat} (h : e ∈ s.fired) (hok : rounds b n s = .ok s') :
    e ∈ s'.fired := by
  induction n generalizing s with
  | zero =>
      cases hok
      exact h
  | succ n ih =>
      cases hit : s.it with
      | none =>
          rw [rounds_of_none hit] at hok
          cases hok
          exact h
      | some entry =>
          rw [rounds_of_some hit] at hok
          obtain ⟨s₁, hround, hrest⟩ := Except.exists_of_bind_eq_ok hok
          exact ih (round_fired hround ▸ List.mem_append_left _ h) hrest

/-- Run lemma: an entry of the bucket is called if the others do nothing before it. -/
theorem mem_fired_of_ahead (herases : ∀ e, b.eraseOnTimeout e = true)
    (hscanned : s.wheel.scanned = ahead) (hit : s.it = ahead.head?)
    (hsilent : ∀ d, d ≠ e → b.onTimeout d = []) (h : e ∈ ahead)
    (hok : rounds b ahead.length s = .ok s') : e ∈ s'.fired := by
  induction ahead generalizing s with
  | nil => cases h
  | cons d ahead ih =>
      rw [List.length_cons, rounds_of_some hit] at hok
      obtain ⟨s₁, hround, hrest⟩ := Except.exists_of_bind_eq_ok hok
      by_cases hd : d = e
      · refine mem_fired_of_rounds ?_ hrest
        rw [round_fired hround, hd]
        exact List.mem_append_right _ (List.mem_singleton_self e)
      · rw [round_silent herases hscanned (hsilent d hd)] at hround
        cases hround
        have hscanned' : (s.wheel.eraseScanned d).scanned = ahead := by
          rw [eraseScanned_scanned, hscanned, List.erase_cons_head]
        exact ih hscanned' rfl ((List.mem_cons.mp h).resolve_left (Ne.symm hd)) hrest

/-- A tick that succeeds has called an entry of the bucket that it reaches if the callbacks of
the others do nothing. -/
theorem mem_fired_of_tick (herases : ∀ e, b.eraseOnTimeout e = true)
    (hsilent : ∀ d, d ≠ e → b.onTimeout d = []) (h : e ∈ v.begin.wheel.scanned)
    (hok : tick b v = .ok s) : e ∈ s.fired :=
  mem_fired_of_ahead herases rfl rfl hsilent h (tick_ok hok).1

end Silent

omit [DecidableEq ε] in
theorem only_turned (i : ι) (w : TimeWheel (Tagged ι ε)) : w.turned.only i = (w.only i).turned := by
  have hbuckets := map_part_modify (i := i) (f := fun _ => []) (g := fun _ => [])
    (fun _ => rfl) w.begin.wheel.timeOutBucketIndex w.begin.wheel.buckets
  unfold turned emptied only
  dsimp only
  rw [hbuckets]
  rfl

/-- A tick of the shared wheel that succeeds is a tick for each owner whose callbacks
do nothing when those of the shared wheel do nothing. -/
theorem Removing.tick_only {b : Behaviour (Tagged ι ε)} {s : Scan (Tagged ι ε)} (hb : Removing b)
    (hwf : w.WellFormed) (hplaced : w.Placed) (hok : TimeWheel.tick b w = .ok s) {b' : Behaviour ε}
    (herases : ∀ e, b'.eraseOnTimeout e = true)
    (hsilent : ∀ e, b.onTimeout ⟨i, e⟩ = [] → b'.onTimeout e = []) :
    TimeWheel.tick b' (w.only i) = .ok ⟨s.wheel.only i, none, Tagged.part i s.fired, []⟩ := by
  obtain ⟨htick, -, hfired⟩ := hb.tick hwf hplaced hok
  rw [tick_silent (fun _ => rfl) fun _ _ => rfl] at htick
  cases htick
  have hpart := only_scanned i w.begin.wheel
  rw [only_begin] at hpart
  have hsilent' : ∀ e ∈ (w.only i).begin.wheel.scanned, b'.onTimeout e = [] := by
    intro e he
    rw [hpart, Tagged.mem_part] at he
    exact hsilent e (hfired ⟨i, e⟩ he)
  rw [tick_silent herases hsilent', only_turned, hpart]

end TimeWheel

end Netpp
