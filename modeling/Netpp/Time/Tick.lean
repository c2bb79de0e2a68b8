import Netpp.Library.Except
import Netpp.Time.Bucket

/-!
# A tick of the time wheel

`TimeWheel::tick` turns the wheel by one bucket and walks over the entries of the
bucket it has reached. It calls `onTimeout` of each and then erases the entry at
its iterator, or steps over it. The callbacks may change the wheel, and so the
bucket under the iterator: erasing the entry at the iterator invalidates it, and
so may the insertion of a new entry, since a hash set that grows is rehashed. Going
on with an invalid iterator is the fault `badIterator`.
-/

namespace Netpp

namespace TimeWheel

open scoped List

variable {ε : Type*} [DecidableEq ε]

/-- The virtual functions of the entries. -/
structure Behaviour (ε : Type*) where
  onTimeout : ε → List (Action ε)
  eraseOnTimeout : ε → Bool

/-- The loop of `tick`: the wheel, the iterator, and as a record the entries
called so far and those that callbacks have taken out of the bucket. -/
structure Scan (ε : Type*) where
  wheel : TimeWheel ε
  it : Option ε
  fired : List ε
  removed : List ε

/-- The entry is still in the bucket, and nothing has been inserted. -/
def keepsIterator (entry : ε) (w w' : TimeWheel ε) : Bool :=
  decide (entry ∈ w'.scanned) && decide (w'.scanned ⊆ w.scanned)

/-- The calls that `onTimeout` makes on the wheel, and whether the iterator, which
points to `entry`, is still valid. -/
def callback (entry : ε) : List (Action ε) → TimeWheel ε → Bool →
    Except Fault (TimeWheel ε × Bool)
  | [], w, valid => .ok (w, valid)
  | action :: actions, w, valid => do
      let w' ← w.act action
      callback entry actions w' (valid && keepsIterator entry w w')

/-- The element of a set behind `entry`. -/
def following (bucket : List ε) (entry : ε) : Option ε :=
  (bucket.dropWhile (· ≠ entry)).tail.head?

/-- `bucket.erase(it)`. -/
def eraseScanned (w : TimeWheel ε) (entry : ε) : TimeWheel ε :=
  { w with buckets := w.buckets.modify w.timeOutBucketIndex fun bucket => bucket.erase entry }

/-- The state after a round on `entry` whose callback has left the wheel `w`. Either
way the iterator moves on to the next element. -/
def Scan.next (b : Behaviour ε) (s : Scan ε) (entry : ε) (w : TimeWheel ε) : Scan ε where
  wheel := if b.eraseOnTimeout entry then w.eraseScanned entry else w
  it := following w.scanned entry
  fired := s.fired ++ [entry]
  removed := s.removed ++ s.wheel.scanned.filter (· ∉ w.scanned)

/-- The body of the loop. -/
def round (b : Behaviour ε) (s : Scan ε) (entry : ε) : Except Fault (Scan ε) := do
  let (w, valid) ← callback entry (b.onTimeout entry) s.wheel true
  if valid then .ok (s.next b entry w) else .error .badIterator

/-- At most `n` rounds of the loop. -/
def rounds (b : Behaviour ε) : Nat → Scan ε → Except Fault (Scan ε)
  | 0, s => .ok s
  | n + 1, s =>
      match s.it with
      | none => .ok s
      | some entry => round b s entry >>= rounds b n

/-- The state in which the loop starts. -/
def begin (w : TimeWheel ε) : Scan ε :=
  let next := w.timeOutBucketIndex + 1
  let w' : TimeWheel ε := { w with timeOutBucketIndex := if next = w.bucketSize then 0 else next }
  ⟨w', w'.scanned.head?, [], []⟩

/-- The bucket has no more entries than rounds are allowed, so a loop that is not
over by then does not end. -/
def tick (b : Behaviour ε) (w : TimeWheel ε) : Except Fault (Scan ε) := do
  let s ← rounds b w.begin.wheel.scanned.length w.begin
  if s.it = none then .ok s else .error .diverges

/-! ## The iterator and the bucket -/

omit [DecidableEq ε] in
/-- A part of a set that contains `e` splits at `e` as the set does. -/
theorem sublist_split {xs ys zs : List ε} {e : ε} (h : xs <+ ys ++ e :: zs)
    (hnodup : (ys ++ e :: zs).Nodup) (hmem : e ∈ xs) :
    ∃ ys' zs', xs = ys' ++ e :: zs' ∧ ys' <+ ys ∧ zs' <+ zs ∧ e ∉ ys' := by
  obtain ⟨ys', rest, rfl, hys, hrest⟩ := List.sublist_append_iff.mp h
  obtain ⟨-, hcons, hdisjoint⟩ := List.nodup_append.mp hnodup
  have hys' : e ∉ ys' := fun he => hdisjoint e (hys.subset he) e (List.mem_cons_self ..) rfl
  have hmem' : e ∈ rest := (List.mem_append.mp hmem).resolve_left hys'
  cases hrest with
  | cons _ hzs => exact absurd (hzs.subset hmem') (List.nodup_cons.mp hcons).1
  | cons_cons _ hzs => exact ⟨ys', _, rfl, hys, hzs, hys'⟩

theorem following_append {ys zs : List ε} {e : ε} (h : e ∉ ys) :
    following (ys ++ e :: zs) e = zs.head? := by
  induction ys with
  | nil => simp [following]
  | cons y ys ih =>
      rw [List.mem_cons, not_or] at h
      have hne : y ≠ e := fun heq => h.1 heq.symm
      rw [← ih h.2, following, following, List.cons_append,
        List.dropWhile_cons_of_pos (by simpa using hne)]

theorem erase_append_cons {ys zs : List ε} {e : ε} (h : e ∉ ys) :
    (ys ++ e :: zs).erase e = ys ++ zs := by
  rw [List.erase_append_right _ h, List.erase_cons_head]

variable {b : Behaviour ε} {w w' : TimeWheel ε} {entry : ε} {actions : List (Action ε)}

/-- `w'` is a well formed wheel in the same position, and its bucket under the scan
has no new entry. -/
structure Shrinks (w w' : TimeWheel ε) : Prop where
  wellFormed : w'.WellFormed
  timeOut : w'.timeOutBucketIndex = w.timeOutBucketIndex
  scanned : w'.scanned <+ w.scanned

omit [DecidableEq ε] in
theorem WellFormed.shrinks_self (h : w.WellFormed) : w.Shrinks w := ⟨h, rfl, List.Sublist.refl _⟩

omit [DecidableEq ε] in
theorem Shrinks.trans {w'' : TimeWheel ε} (h : w.Shrinks w') (h' : w'.Shrinks w'') :
    w.Shrinks w'' :=
  ⟨h'.wellFormed, h'.timeOut.trans h.timeOut, h'.scanned.trans h.scanned⟩

theorem Moves.scanned {e : ε} {index : Nat} (h : w.Moves e index w') :
    w'.scanned = w'.bucket w.timeOutBucketIndex := by
  rw [TimeWheel.scanned, h.timeOut]

/-- An action that inserts nothing into the bucket under the scan shrinks it. -/
theorem WellFormed.act_shrinks (h : w.WellFormed) {action : Action ε}
    (hok : w.act action = .ok w') (hsub : w'.scanned ⊆ w.scanned) : w.Shrinks w' := by
  cases action with
  | add e =>
      cases hok
      have hmoves := h.addToWheel_moves e
      refine ⟨h.addToWheel e, hmoves.timeOut, ?_⟩
      have hscanned := h.addToWheel_bucket e w.timeOutBucketIndex
      rw [← hmoves.scanned] at hscanned
      change (w.addToWheel e).scanned =
        if w.timeOutBucketIndex = w.latestIndex then w.scanned.insert e else w.scanned at hscanned
      split at hscanned
      · rw [hscanned] at hsub ⊢
        have he : e ∈ w.scanned := hsub (List.mem_insert_self ..)
        rw [List.insert_of_mem he]
      · rw [hscanned]
  | renew item =>
      cases item with
      | none =>
          cases hok
          exact h.shrinks_self
      | some e =>
          by_cases hlatest : w.indexInWheel e = w.latestIndex
          · rw [act, h.renew_of_latest hlatest] at hok
            cases hok
            exact h.shrinks_self
          · by_cases hmem : e ∈ w.bucket (w.indexInWheel e)
            · obtain ⟨w'', hrenew, hwf, hmoves, hbucket⟩ := h.renew_of_mem hlatest hmem
              rw [act, hrenew] at hok
              cases hok
              refine ⟨hwf, hmoves.timeOut, ?_⟩
              -- with a single bucket the entry would be in the latest one
              have hne : w.timeOutBucketIndex ≠ w.latestIndex := by
                intro heq
                have hone := h.latestIndex_eq_iff.mp heq.symm
                have hindex := h.index_lt e
                have hlt := h.latestIndex_lt
                omega
              rw [hmoves.scanned, hbucket, if_neg hne]
              split
              · exact List.erase_sublist ..
              · exact List.Sublist.refl _
            · rw [act, h.renew_of_not_mem hlatest hmem] at hok
              cases hok
  | remove item =>
      cases item with
      | none =>
          cases hok
          exact h.shrinks_self
      | some e =>
          obtain ⟨w'', hremove, hwf, hmoves, hbucket⟩ := h.removeFromWheel e
          rw [act, hremove] at hok
          cases hok
          refine ⟨hwf, hmoves.timeOut, ?_⟩
          rw [hmoves.scanned, hbucket]
          split
          · exact List.erase_sublist ..
          · exact List.Sublist.refl _

/-- The entry stays in the bucket under the scan through all actions, which insert
nothing into it. -/
def Stays (entry : ε) : List (Action ε) → TimeWheel ε → Prop
  | [], _ => True
  | action :: actions, w =>
      ∃ w', w.act action = .ok w' ∧ (entry ∈ w'.scanned ∧ w'.scanned ⊆ w.scanned) ∧
        Stays entry actions w'

theorem callback_false {valid : Bool} (h : callback entry actions w false = .ok (w', valid)) :
    valid = false := by
  induction actions generalizing w with
  | nil =>
      cases h
      rfl
  | cons action actions ih =>
      obtain ⟨w'', -, hrest⟩ := Except.exists_of_bind_eq_ok h
      exact ih hrest

/-- A callback leaves the iterator valid exactly if its entry stays. -/
theorem callback_valid_iff :
    (∃ w', callback entry actions w true = .ok (w', true)) ↔ Stays entry actions w := by
  induction actions generalizing w with
  | nil => exact ⟨fun _ => trivial, fun _ => ⟨w, rfl⟩⟩
  | cons action actions ih =>
      constructor
      · rintro ⟨w', h⟩
        obtain ⟨w'', hact, hrest⟩ := Except.exists_of_bind_eq_ok h
        by_cases hkeeps : keepsIterator entry w w'' = true
        · rw [hkeeps] at hrest
          refine ⟨w'', hact, ?_, ih.mp ⟨w', hrest⟩⟩
          simpa [keepsIterator] using hkeeps
        · rw [Bool.not_eq_true] at hkeeps
          rw [hkeeps] at hrest
          exact absurd (callback_false hrest) (by simp)
      · rintro ⟨w'', hact, hkeeps, hrest⟩
        obtain ⟨w', hok⟩ := ih.mpr hrest
        have hvalid : keepsIterator entry w w'' = true := by simpa [keepsIterator] using hkeeps
        refine ⟨w', ?_⟩
        rw [callback, hact]
        simp only [bind, Except.bind, hvalid, Bool.and_self]
        exact hok

/-- What a callback leaves when its entry stays. -/
theorem Stays.callback (h : Stays entry actions w) (hwf : w.WellFormed)
    (hentry : entry ∈ w.scanned) :
    ∃ w', callback entry actions w true = .ok (w', true) ∧ w.Shrinks w' ∧ entry ∈ w'.scanned := by
  induction actions generalizing w with
  | nil => exact ⟨w, rfl, hwf.shrinks_self, hentry⟩
  | cons action actions ih =>
      obtain ⟨w₁, hact, hkeeps, hrest⟩ := h
      have hshrinks := hwf.act_shrinks hact hkeeps.2
      obtain ⟨w', hok, hshrinks', hentry'⟩ := ih hrest hshrinks.wellFormed hkeeps.1
      have hvalid : keepsIterator entry w w₁ = true := by simpa [keepsIterator] using hkeeps
      refine ⟨w', ?_, hshrinks.trans hshrinks', hentry'⟩
      rw [TimeWheel.callback, hact]
      simp only [bind, Except.bind, hvalid, Bool.and_self]
      exact hok

/-! ## The loop -/

omit [DecidableEq ε] in
theorem begin_wellFormed (h : w.WellFormed) : w.begin.wheel.WellFormed where
  pos := h.pos
  length := h.length
  timeOut_lt := by
    have hpos := h.pos
    have hlt := h.timeOut_lt
    change (if w.timeOutBucketIndex + 1 = w.bucketSize then 0 else w.timeOutBucketIndex + 1) <
      w.bucketSize
    split <;> omega
  index_lt := h.index_lt
  nodup := h.nodup

theorem WellFormed.eraseScanned (h : w.WellFormed) (e : ε) :
    w.Shrinks (w.eraseScanned e) ∧ (w.eraseScanned e).scanned = w.scanned.erase e := by
  have hlt : w.timeOutBucketIndex < w.buckets.length := h.length ▸ h.timeOut_lt
  have hbucket : ∀ i, (w.eraseScanned e).bucket i =
      if i = w.timeOutBucketIndex then (w.bucket i).erase e else w.bucket i :=
    fun i => bucket_modify hlt _ i
  have hscanned : (w.eraseScanned e).scanned = w.scanned.erase e :=
    (hbucket w.timeOutBucketIndex).trans (if_pos rfl)
  refine ⟨⟨?_, rfl, hscanned ▸ List.erase_sublist ..⟩, hscanned⟩
  constructor
  · exact h.pos
  · exact (List.length_modify ..).trans h.length
  · exact h.timeOut_lt
  · exact h.index_lt
  · intro i
    rw [hbucket]
    split
    · exact (h.nodup i).erase e
    · exact h.nodup i

/-- The invariant of the loop over the entries `initial`: those from the iterator on
are `ahead`, and each of the others has been called once or taken out. -/
structure Scanning (initial ahead : List ε) (s : Scan ε) : Prop where
  wellFormed : s.wheel.WellFormed
  it : s.it = ahead.head?
  split : ∃ passed, s.wheel.scanned = passed ++ ahead
  fired_nodup : s.fired.Nodup
  fired_ahead : ∀ e ∈ s.fired, e ∉ ahead
  accounted : ∀ e ∈ initial, e ∈ ahead ∨ e ∈ s.fired ∨ e ∈ s.removed

omit [DecidableEq ε] in
theorem begin_scanning (h : w.WellFormed) :
    Scanning w.begin.wheel.scanned w.begin.wheel.scanned w.begin where
  wellFormed := begin_wellFormed h
  it := rfl
  split := ⟨[], rfl⟩
  fired_nodup := List.nodup_nil
  fired_ahead _ he := absurd he List.not_mem_nil
  accounted _ he := .inl he

variable {s s' : Scan ε} {initial ahead : List ε}

/-- Round lemma: if the entry stays, the round succeeds and the iterator comes closer
to the end. -/
theorem Scanning.round (h : Scanning initial (entry :: ahead) s)
    (hstays : Stays entry (b.onTimeout entry) s.wheel) :
    ∃ s' ahead', TimeWheel.round b s entry = .ok s' ∧ Scanning initial ahead' s' ∧
      ahead'.length ≤ ahead.length := by
  obtain ⟨passed, hsplit⟩ := h.split
  have hentry : entry ∈ s.wheel.scanned := by simp [hsplit]
  obtain ⟨w, hcallback, hshrinks, hentry'⟩ := hstays.callback h.wellFormed hentry
  have hnodup : (passed ++ entry :: ahead).Nodup := hsplit ▸ h.wellFormed.nodup _
  obtain ⟨passed', ahead', hsplit', hpassed', hahead, hpassed⟩ :=
    sublist_split (hsplit ▸ hshrinks.scanned) hnodup hentry'
  obtain ⟨hshrinks', herase⟩ := hshrinks.wellFormed.eraseScanned entry
  refine ⟨s.next b entry w, ahead', ?_, ?_, hahead.length_le⟩
  · rw [TimeWheel.round, hcallback]
    rfl
  obtain ⟨-, hcons, hdisjoint⟩ := List.nodup_append.mp hnodup
  have hnot : entry ∉ ahead := (List.nodup_cons.mp hcons).1
  constructor
  · change (if b.eraseOnTimeout entry then w.eraseScanned entry else w).WellFormed
    split
    · exact hshrinks'.wellFormed
    · exact hshrinks.wellFormed
  · change following w.scanned entry = _
    rw [hsplit', following_append hpassed]
  · change ∃ passed, (if b.eraseOnTimeout entry then w.eraseScanned entry else w).scanned = _
    split
    · exact ⟨passed', by rw [herase, hsplit', erase_append_cons hpassed]⟩
    · exact ⟨passed' ++ [entry], by rw [hsplit', List.append_assoc, List.singleton_append]⟩
  · have hfresh : entry ∉ s.fired := fun he =>
      h.fired_ahead entry he (List.mem_cons_self ..)
    exact List.nodup_append.mpr ⟨h.fired_nodup, List.nodup_singleton _, by
      rintro e he d hd rfl
      rw [List.mem_singleton] at hd
      exact hfresh (hd ▸ he)⟩
  · intro e he hmem
    rcases List.mem_append.mp he with he | he
    · exact h.fired_ahead e he (List.mem_cons_of_mem _ (hahead.subset hmem))
    · rw [List.mem_singleton.mp he] at hmem
      exact hnot (hahead.subset hmem)
  · intro e he
    change e ∈ ahead' ∨ e ∈ s.fired ++ [entry] ∨
      e ∈ s.removed ++ s.wheel.scanned.filter (· ∉ w.scanned)
    rcases h.accounted e he with hmem | hmem | hmem
    · rcases List.mem_cons.mp hmem with rfl | hin
      · exact .inr (.inl (List.mem_append_right _ (List.mem_singleton_self _)))
      by_cases hleft : e ∈ ahead'
      · exact .inl hleft
      -- an entry that is no longer ahead is not in front of the iterator either
      have hgone : e ∉ w.scanned := by
        rw [hsplit', List.mem_append, List.mem_cons]
        rintro (he' | rfl | he')
        · exact hdisjoint e (hpassed'.subset he') e (List.mem_cons_of_mem _ hin) rfl
        · exact hnot hin
        · exact hleft he'
      have hwas : e ∈ s.wheel.scanned := by simp [hsplit, hin]
      exact .inr (.inr (List.mem_append_right _ (List.mem_filter.mpr ⟨hwas, by simpa using hgone⟩)))
    · exact .inr (.inl (List.mem_append_left _ hmem))
    · exact .inr (.inr (List.mem_append_left _ hmem))

/-- A round succeeds only if the entry stays. -/
theorem round_ok (h : TimeWheel.round b s entry = .ok s') :
    Stays entry (b.onTimeout entry) s.wheel := by
  obtain ⟨⟨w, valid⟩, hcallback, hrest⟩ := Except.exists_of_bind_eq_ok h
  cases valid with
  | false => cases hrest
  | true => exact callback_valid_iff.mp ⟨w, hcallback⟩

@[simp] theorem rounds_of_none {n : Nat} (h : s.it = none) : rounds b n s = .ok s := by
  cases n with
  | zero => rfl
  | succ n => rw [rounds, h]

theorem rounds_of_some {n : Nat} (h : s.it = some entry) :
    rounds b (n + 1) s = TimeWheel.round b s entry >>= rounds b n := by
  rw [rounds, h]

/-- Rounds are made one after the other. -/
theorem rounds_add (m n : Nat) : rounds b (m + n) s = rounds b m s >>= rounds b n := by
  induction m generalizing s with
  | zero =>
      rw [Nat.zero_add]
      rfl
  | succ m ih =>
      rw [Nat.add_right_comm]
      cases hit : s.it with
      | none =>
          rw [rounds_of_none hit, rounds_of_none hit]
          exact (rounds_of_none hit).symm
      | some entry =>
          rw [rounds_of_some hit, rounds_of_some hit]
          cases TimeWheel.round b s entry with
          | error fault => rfl
          | ok s' => exact ih

/-- In every round that is reached, the callback leaves its entry in the bucket and
inserts nothing into it. -/
def EachStays (b : Behaviour ε) (s : Scan ε) : Prop :=
  ∀ n s' entry, rounds b n s = .ok s' → s'.it = some entry →
    Stays entry (b.onTimeout entry) s'.wheel

theorem EachStays.tail (h : EachStays b s) (hit : s.it = some entry)
    (hround : TimeWheel.round b s entry = .ok s') : EachStays b s' := by
  intro n s'' entry' hn
  apply h (n + 1)
  rw [rounds_of_some hit, hround]
  exact hn

/-- Run lemma: the loop ends after as many rounds as there are entries ahead. -/
theorem Scanning.rounds (h : Scanning initial ahead s) (hstays : EachStays b s) {n : Nat}
    (hn : ahead.length ≤ n) :
    ∃ s', TimeWheel.rounds b n s = .ok s' ∧ s'.it = none ∧ Scanning initial [] s' := by
  induction n generalizing s ahead with
  | zero =>
      have hnil : ahead = [] := List.length_eq_zero_iff.mp (Nat.le_zero.mp hn)
      subst hnil
      exact ⟨s, rfl, h.it, h⟩
  | succ n ih =>
      cases ahead with
      | nil => exact ⟨s, rounds_of_none h.it, h.it, h⟩
      | cons entry ahead =>
          have hit : s.it = some entry := h.it
          obtain ⟨s₁, ahead', hround, hscanning, hlength⟩ := h.round (hstays 0 s entry rfl hit)
          have hle : ahead'.length ≤ n := Nat.le_trans hlength (Nat.le_of_succ_le_succ hn)
          obtain ⟨s', hrounds, hend⟩ := ih hscanning (hstays.tail hit hround) hle
          refine ⟨s', ?_, hend⟩
          rw [rounds_of_some hit, hround]
          exact hrounds

/-- A tick goes on and erases at valid iterators only and ends, and it calls each
entry of the bucket that no callback takes out exactly once. -/
def Reentrant (b : Behaviour ε) (w : TimeWheel ε) : Prop :=
  ∃ s, tick b w = .ok s ∧
    ∀ e ∈ w.begin.wheel.scanned, e ∉ s.removed → s.fired.count e = 1

theorem tick_ok {s : Scan ε} (h : tick b w = .ok s) :
    TimeWheel.rounds b w.begin.wheel.scanned.length w.begin = .ok s ∧ s.it = none := by
  obtain ⟨s', hrounds, hend⟩ := Except.exists_of_bind_eq_ok h
  by_cases hit : s'.it = none
  · rw [if_pos hit] at hend
    cases hend
    exact ⟨hrounds, hit⟩
  · rw [if_neg hit] at hend
    cases hend

/-- A tick is re-entrant exactly if every callback that is made leaves its own entry
in the bucket under the scan and inserts nothing into this bucket. -/
theorem reentrant_iff (hw : w.WellFormed) (b : Behaviour ε) :
    Reentrant b w ↔ EachStays b w.begin := by
  constructor
  · rintro ⟨s, htick, -⟩ n s' entry hn hit
    obtain ⟨hrounds, hend⟩ := tick_ok htick
    have hlt : n < w.begin.wheel.scanned.length := by
      by_contra hge
      obtain ⟨k, rfl⟩ := Nat.exists_eq_add_of_le (Nat.not_lt.mp hge)
      rw [rounds_add, hrounds] at hn
      change TimeWheel.rounds b k s = _ at hn
      rw [rounds_of_none hend] at hn
      cases hn
      rw [hend] at hit
      cases hit
    obtain ⟨k, hk⟩ := Nat.exists_eq_add_of_lt hlt
    rw [hk, Nat.add_assoc, rounds_add, hn] at hrounds
    change TimeWheel.rounds b (k + 1) s' = _ at hrounds
    rw [rounds_of_some hit] at hrounds
    obtain ⟨s'', hround, -⟩ := Except.exists_of_bind_eq_ok hrounds
    exact round_ok hround
  · intro hstays
    obtain ⟨s, hrounds, hend, hscanning⟩ := (begin_scanning hw).rounds hstays le_rfl
    refine ⟨s, ?_, ?_⟩
    · rw [tick, hrounds]
      exact if_pos hend
    · intro e he hremoved
      have hfired : e ∈ s.fired :=
        ((hscanning.accounted e he).resolve_left List.not_mem_nil).resolve_right hremoved
      exact List.count_eq_one_of_mem hscanning.fired_nodup hfired

/-- A wheel of two buckets with one entry, whose callback adds it once more. -/
theorem reentrant_iff_two :
    Reentrant ⟨fun e => [.add e], fun _ => true⟩ ((new 2 : TimeWheel Unit).addToWheel ()) ↔
      EachStays ⟨fun e => [.add e], fun _ => true⟩
        ((new 2 : TimeWheel Unit).addToWheel ()).begin :=
  reentrant_iff ((new_wellFormed (by decide)).addToWheel ()) _

/-- The callback of the only entry of a bucket removes it, as that of a half-closed
connection does. -/
theorem not_reentrant_remove : ¬∀ (b : Behaviour Unit) (w : TimeWheel Unit), w.WellFormed →
    Reentrant b w := by
  intro h
  have hnew : (new 2 : TimeWheel Unit).WellFormed := new_wellFormed (by decide)
  obtain ⟨s, htick, -⟩ :=
    h ⟨fun e => [.remove (some e)], fun _ => true⟩ _ (hnew.addToWheel ())
  cases htick

end TimeWheel

end Netpp
