import Netpp.Library.Deadline
import Netpp.Library.Run
import Netpp.Time.Tick

/-!
# The deadline law of the time wheel

A time wheel of `n` buckets keeps deadlines of `n - 1` ticks: over every sequence
of calls it answers as the table of ages does. The age of an entry is the distance
of its bucket from the latest one, which `age` computes; a tick changes it by one
for every bucket that has entries.
-/

namespace Netpp

namespace TimeWheel

open scoped List

variable {ε : Type*} [DecidableEq ε]

/-- The entries erase themselves on timeout, and their callbacks add entries. -/
def adding (adds : ε → List ε) : Behaviour ε := ⟨fun e => (adds e).map .add, fun _ => true⟩

/-- A call of the wheel, and the number of times that it calls `onTimeout` of each
entry. -/
def step (w : TimeWheel ε) : Deadline.Call ε → Except Fault (TimeWheel ε × (ε → Nat))
  | .add e => .ok (w.addToWheel e, fun _ => 0)
  | .renew e => (w.renew e).map fun w' => (w', fun _ => 0)
  | .remove e => (w.removeFromWheel e).map fun w' => (w', fun _ => 0)
  | .tick adds => (tick (adding adds) w).map fun s => (s.wheel, fun e => s.fired.count e)

def InWheel (w : TimeWheel ε) (e : ε) : Prop := ∃ i, e ∈ w.bucket i

/-- Entries that are added are not in the wheel, and those that are renewed are. -/
def Legal (w : TimeWheel ε) : Deadline.Call ε → Prop
  | .add e => ¬w.InWheel e
  | .renew e => ∀ d, e = some d → w.InWheel d
  | .remove _ => True
  | .tick adds => ∀ d ∈ w.begin.wheel.scanned, ∀ e ∈ adds d, ¬w.InWheel e

/-- Each entry of the wheel sits in the bucket of its index and in no other. -/
def Placed (w : TimeWheel ε) : Prop := ∀ e i, e ∈ w.bucket i → i = w.indexInWheel e

/-! ## Adding entries -/

/-- `w'` is `w` with the entries `es` in the latest bucket; the bucket under the scan
may have changed. -/
structure Adds (w : TimeWheel ε) (es : List ε) (w' : TimeWheel ε) : Prop where
  wellFormed : w'.WellFormed
  bucketSize : w'.bucketSize = w.bucketSize
  timeOut : w'.timeOutBucketIndex = w.timeOutBucketIndex
  bucket_of_ne : ∀ i, i ≠ w.latestIndex → i ≠ w.timeOutBucketIndex → w'.bucket i = w.bucket i
  mem_latest : ∀ e, e ∈ w'.bucket w.latestIndex ↔ e ∈ w.bucket w.latestIndex ∨ e ∈ es
  index : ∀ e, w'.indexInWheel e = if e ∈ es then w.latestIndex else w.indexInWheel e

variable {w w' w'' : TimeWheel ε} {es es' : List ε} {adds : ε → List ε}

theorem WellFormed.adds_nil (h : w.WellFormed) : w.Adds [] w where
  wellFormed := h
  bucketSize := rfl
  timeOut := rfl
  bucket_of_ne _ _ _ := rfl
  mem_latest e := by simp
  index e := by simp

theorem Adds.latestIndex (h : w.Adds es w') : w'.latestIndex = w.latestIndex := by
  rw [TimeWheel.latestIndex, TimeWheel.latestIndex, h.timeOut, h.bucketSize]

theorem Adds.trans (h : w.Adds es w') (h' : w'.Adds es' w'') : w.Adds (es ++ es') w'' where
  wellFormed := h'.wellFormed
  bucketSize := h'.bucketSize.trans h.bucketSize
  timeOut := h'.timeOut.trans h.timeOut
  bucket_of_ne i hi hi' := by
    rw [h'.bucket_of_ne i (h.latestIndex ▸ hi) (h.timeOut ▸ hi'), h.bucket_of_ne i hi hi']
  mem_latest e := by
    rw [← h.latestIndex, h'.mem_latest, h.latestIndex, h.mem_latest, List.mem_append, or_assoc]
  index e := by
    rw [h'.index, h.index, h.latestIndex]
    by_cases he : e ∈ es
    · simp [he]
    · simp [he]

omit [DecidableEq ε] in
theorem WellFormed.latestIndex_ne (h : w.WellFormed) (hsize : 2 ≤ w.bucketSize) :
    w.latestIndex ≠ w.timeOutBucketIndex := by
  intro heq
  have := h.latestIndex_eq_iff.mp heq
  omega

theorem WellFormed.adds_addToWheel (h : w.WellFormed) (e : ε) : w.Adds [e] (w.addToWheel e) where
  wellFormed := h.addToWheel e
  bucketSize := (h.addToWheel_moves e).bucketSize
  timeOut := (h.addToWheel_moves e).timeOut
  bucket_of_ne i hi _ := by rw [h.addToWheel_bucket, if_neg hi]
  mem_latest d := by
    rw [h.addToWheel_bucket, if_pos rfl, List.mem_insert_iff, List.mem_singleton, or_comm]
  index d := by
    rw [(h.addToWheel_moves e).indexInWheel, Function.update_apply]
    simp

theorem WellFormed.adds_eraseScanned (h : w.WellFormed) (hsize : 2 ≤ w.bucketSize) (e : ε) :
    w.Adds [] (w.eraseScanned e) where
  wellFormed := (h.eraseScanned e).1.wellFormed
  bucketSize := rfl
  timeOut := rfl
  bucket_of_ne i _ hi := by
    rw [bucket, bucket, TimeWheel.eraseScanned, bucket_modify (h.length ▸ h.timeOut_lt), if_neg hi]
  mem_latest d := by
    have hne := h.latestIndex_ne hsize
    rw [bucket, bucket, TimeWheel.eraseScanned, bucket_modify (h.length ▸ h.timeOut_lt), if_neg hne]
    simp
  index d := by simp [TimeWheel.eraseScanned]

/-! ## The loop of a tick -/

/-- A callback that adds entries leaves the bucket under the scan alone. -/
theorem WellFormed.callback_adding (h : w.WellFormed) (hsize : 2 ≤ w.bucketSize) {entry : ε}
    (hentry : entry ∈ w.scanned) (es : List ε) :
    ∃ w', callback entry (es.map .add) w true = .ok (w', true) ∧ w.Adds es w' ∧
      w'.scanned = w.scanned := by
  induction es generalizing w with
  | nil => exact ⟨w, rfl, h.adds_nil, rfl⟩
  | cons e es ih =>
      have hadds := h.adds_addToWheel e
      have hscanned : (w.addToWheel e).scanned = w.scanned := by
        rw [TimeWheel.scanned, hadds.timeOut, h.addToWheel_bucket,
          if_neg (h.latestIndex_ne hsize).symm, TimeWheel.scanned]
      have hkeeps : keepsIterator entry w (w.addToWheel e) = true := by
        simp [keepsIterator, hscanned, hentry]
      obtain ⟨w', hok, hadds', hscanned'⟩ :=
        ih hadds.wellFormed (hadds.bucketSize ▸ hsize) (hscanned ▸ hentry)
      refine ⟨w', ?_, hadds.trans hadds', hscanned'.trans hscanned⟩
      rw [List.map_cons, callback, act]
      simp only [bind, Except.bind, hkeeps, Bool.and_self]
      exact hok

variable {s : Scan ε} {entry : ε} {ahead : List ε}

/-- Round lemma: the entry is called and erased, and adds its entries. -/
theorem round_adding (h : s.wheel.WellFormed) (hsize : 2 ≤ s.wheel.bucketSize)
    (hscanned : s.wheel.scanned = entry :: ahead) :
    ∃ s', round (adding adds) s entry = .ok s' ∧ s'.it = ahead.head? ∧
      s'.fired = s.fired ++ [entry] ∧ s'.wheel.scanned = ahead ∧
        s.wheel.Adds (adds entry) s'.wheel := by
  have hentry : entry ∈ s.wheel.scanned := by simp [hscanned]
  obtain ⟨w, hcallback, hadds, hscanned'⟩ := h.callback_adding hsize hentry (adds entry)
  rw [hscanned] at hscanned'
  have hadds' := hadds.wellFormed.adds_eraseScanned (hadds.bucketSize ▸ hsize) entry
  refine ⟨s.next (adding adds) entry w, ?_, ?_, rfl, ?_, ?_⟩
  · rw [round]
    change (callback entry ((adds entry).map .add) s.wheel true >>= _) = _
    rw [hcallback]
    rfl
  · exact (congrArg (following · entry) hscanned').trans (following_append List.not_mem_nil)
  · change (w.eraseScanned entry).scanned = ahead
    rw [(hadds.wellFormed.eraseScanned entry).2, hscanned', List.erase_cons_head]
  · have htrans := hadds.trans hadds'
    rwa [List.append_nil] at htrans

/-- Run lemma: after `m` rounds, the first `m` entries have been called. -/
theorem rounds_adding (adds : ε → List ε) {m : Nat} (h : s.wheel.WellFormed)
    (hsize : 2 ≤ s.wheel.bucketSize)
    (hscanned : s.wheel.scanned = ahead) (hit : s.it = ahead.head?) (hm : m ≤ ahead.length) :
    ∃ s', rounds (adding adds) m s = .ok s' ∧ s'.it = (ahead.drop m).head? ∧
      s'.fired = s.fired ++ ahead.take m ∧ s'.wheel.scanned = ahead.drop m ∧
        s.wheel.Adds ((ahead.take m).flatMap adds) s'.wheel := by
  induction m generalizing s ahead with
  | zero => exact ⟨s, rfl, hit, by simp, hscanned, h.adds_nil⟩
  | succ m ih =>
      cases ahead with
      | nil => cases hm
      | cons entry ahead =>
          obtain ⟨s₁, hround, hit₁, hfired₁, hscanned₁, hadds₁⟩ := round_adding h hsize hscanned
          obtain ⟨s', hrounds, hit', hfired', hscanned', hadds'⟩ :=
            ih hadds₁.wellFormed (hadds₁.bucketSize ▸ hsize) hscanned₁ hit₁
              (Nat.le_of_succ_le_succ hm)
          refine ⟨s', ?_, hit', ?_, hscanned', hadds₁.trans hadds'⟩
          · rw [rounds_of_some hit, hround]
            exact hrounds
          · rw [hfired', hfired₁, List.take_succ_cons, List.append_assoc]
            rfl

/-- A whole tick calls the entries of the bucket it reaches, in their order. -/
theorem tick_adding (adds : ε → List ε) (h : w.WellFormed) (hsize : 2 ≤ w.bucketSize) :
    ∃ s, tick (adding adds) w = .ok s ∧ s.fired = w.begin.wheel.scanned ∧
      s.wheel.scanned = [] ∧
        w.begin.wheel.Adds (w.begin.wheel.scanned.flatMap adds) s.wheel := by
  obtain ⟨s, hrounds, hit, hfired, hscanned, hadds⟩ :=
    rounds_adding adds (begin_wellFormed h) hsize rfl rfl le_rfl
  rw [List.drop_length] at hit hscanned
  rw [List.take_length] at hfired hadds
  refine ⟨s, ?_, hfired, hscanned, hadds⟩
  rw [tick, hrounds]
  exact if_pos hit

/-! ## The ages of the entries -/

/-- The number of ticks since bucket `i` was the latest one. -/
def age (w : TimeWheel ε) (i : Nat) : Nat :=
  if i < w.timeOutBucketIndex then w.timeOutBucketIndex - 1 - i
  else w.timeOutBucketIndex + w.bucketSize - 1 - i

/-- The ages are those of the entries of the wheel, which are placed and of which
none is in the bucket that has just timed out. -/
structure Tracks (w : TimeWheel ε) (ages : Deadline.Ages ε) : Prop where
  wellFormed : w.WellFormed
  two_le : 2 ≤ w.bucketSize
  placed : w.Placed
  empty : w.scanned = []
  age : ∀ e, ages e =
    if e ∈ w.bucket (w.indexInWheel e) then some (w.age (w.indexInWheel e)) else none

variable {ages : Deadline.Ages ε} {e : ε}

omit [DecidableEq ε] in
theorem WellFormed.age_latestIndex (h : w.WellFormed) : w.age w.latestIndex = 0 := by
  have hpos := h.pos
  have hlt := h.timeOut_lt
  unfold age latestIndex
  split <;> split <;> omega

omit [DecidableEq ε] in
/-- A tick makes every bucket older but the one that has just timed out, which is
the latest one then. -/
theorem WellFormed.begin_age (h : w.WellFormed) {i : Nat} (hi : i < w.bucketSize)
    (hne : i ≠ w.timeOutBucketIndex) : w.begin.wheel.age i = w.age i + 1 := by
  have hlt := h.timeOut_lt
  change (if i < (if w.timeOutBucketIndex + 1 = w.bucketSize then 0
      else w.timeOutBucketIndex + 1) then _ else _) = _
  unfold age begin
  dsimp only
  split <;> split <;> split <;> omega

omit [DecidableEq ε] in
theorem WellFormed.begin_latestIndex (h : w.WellFormed) :
    w.begin.wheel.latestIndex = w.timeOutBucketIndex := by
  have hlt := h.timeOut_lt
  unfold latestIndex begin
  dsimp only
  split <;> split <;> omega

omit [DecidableEq ε] in
/-- The bucket that the next tick reaches is the oldest one. -/
theorem WellFormed.age_add_one_iff (h : w.WellFormed) {i : Nat} (hi : i < w.bucketSize)
    (hne : i ≠ w.timeOutBucketIndex) :
    w.age i + 1 = w.bucketSize - 1 ↔ i = w.begin.wheel.timeOutBucketIndex := by
  have hlt := h.timeOut_lt
  unfold age begin
  dsimp only
  split <;> split <;> omega

theorem Tracks.inWheel_iff (h : w.Tracks ages) :
    w.InWheel e ↔ e ∈ w.bucket (w.indexInWheel e) := by
  constructor
  · rintro ⟨i, hi⟩
    rwa [← h.placed e i hi]
  · exact fun he => ⟨_, he⟩

theorem new_tracks {n : Nat} (hn : 2 ≤ n) : (new n : TimeWheel ε).Tracks fun _ => none where
  wellFormed := new_wellFormed (by omega)
  two_le := hn
  placed e i he := by
    rw [new_bucket] at he
    exact absurd he List.not_mem_nil
  empty := new_bucket n 0
  age e := by rw [new_bucket, if_neg List.not_mem_nil]

/-- An entry that is put into the latest bucket, and into no other, has age zero. -/
theorem Tracks.of_latest (h : w.Tracks ages) (hwf : w'.WellFormed)
    (hmoves : w.Moves e w.latestIndex w')
    (hmem : ∀ i d, d ∈ w'.bucket i ↔ if d = e then i = w.latestIndex else d ∈ w.bucket i) :
    w'.Tracks (Function.update ages e (some 0)) := by
  have hlatest : w'.age = w.age := by
    funext i
    rw [TimeWheel.age, TimeWheel.age, hmoves.timeOut, hmoves.bucketSize]
  refine ⟨hwf, hmoves.bucketSize ▸ h.two_le, ?_, ?_, ?_⟩
  · intro d i hd
    rw [hmem] at hd
    rw [hmoves.indexInWheel, Function.update_apply]
    split at hd
    case isTrue heq => rw [if_pos heq, hd]
    case isFalse hne => rw [if_neg hne, h.placed d i hd]
  · apply List.eq_nil_iff_forall_not_mem.mpr
    intro d hd
    rw [hmoves.scanned, hmem] at hd
    split at hd
    · exact h.wellFormed.latestIndex_ne h.two_le hd.symm
    · have hempty := h.empty
      rw [TimeWheel.scanned] at hempty
      rw [hempty] at hd
      exact List.not_mem_nil hd
  · intro d
    rw [Function.update_apply, hmoves.indexInWheel, Function.update_apply, hlatest]
    by_cases heq : d = e
    · have hin : d ∈ w'.bucket w.latestIndex := by rw [hmem, if_pos heq]
      rw [if_pos heq, if_pos heq, if_pos hin, h.wellFormed.age_latestIndex]
    · rw [if_neg heq, if_neg heq, h.age d]
      simp only [hmem, if_neg heq]

/-- An entry that is taken out of the wheel has no age. -/
theorem Tracks.of_removed (h : w.Tracks ages) (hwf : w'.WellFormed)
    (hmoves : w.Moves e (w.indexInWheel e) w')
    (hmem : ∀ i d, d ∈ w'.bucket i ↔ d ≠ e ∧ d ∈ w.bucket i) :
    w'.Tracks (Function.update ages e none) := by
  have hage : w'.age = w.age := by
    funext i
    rw [TimeWheel.age, TimeWheel.age, hmoves.timeOut, hmoves.bucketSize]
  have hindex : w'.indexInWheel = w.indexInWheel := by
    rw [hmoves.indexInWheel, Function.update_eq_self]
  refine ⟨hwf, hmoves.bucketSize ▸ h.two_le, ?_, ?_, ?_⟩
  · intro d i hd
    rw [hindex]
    exact h.placed d i ((hmem i d).mp hd).2
  · apply List.eq_nil_iff_forall_not_mem.mpr
    intro d hd
    rw [hmoves.scanned, hmem] at hd
    have hempty := h.empty
    rw [TimeWheel.scanned] at hempty
    rw [hempty] at hd
    exact List.not_mem_nil hd.2
  · intro d
    rw [Function.update_apply, hindex, hage]
    by_cases heq : d = e
    · rw [if_pos heq, if_neg fun hd => ((hmem _ d).mp hd).1 heq]
    · rw [if_neg heq, h.age d]
      simp only [hmem, ne_eq, heq, not_false_eq_true, true_and]

/-! ## One call -/

theorem Tracks.add (h : w.Tracks ages) (hnew : ¬w.InWheel e) :
    (w.addToWheel e).Tracks (Function.update ages e (some 0)) := by
  refine h.of_latest (h.wellFormed.addToWheel e) (h.wellFormed.addToWheel_moves e) fun i d => ?_
  rw [h.wellFormed.addToWheel_bucket]
  by_cases heq : d = e
  · subst heq
    rw [if_pos rfl]
    split
    case isTrue hi => simp [hi]
    case isFalse hi => exact ⟨fun hd => absurd ⟨i, hd⟩ hnew, fun hi' => absurd hi' hi⟩
  · rw [if_neg heq]
    split
    · rw [List.mem_insert_iff]
      simp [heq]
    · exact Iff.rfl

theorem Tracks.renew (h : w.Tracks ages) (hin : w.InWheel e) :
    ∃ w', w.renew (some e) = .ok w' ∧ w'.Tracks (Function.update ages e (some 0)) ∧
      w'.bucketSize = w.bucketSize := by
  have hmem := h.inWheel_iff.mp hin
  by_cases hlatest : w.indexInWheel e = w.latestIndex
  · have hage : ages e = some 0 := by
      rw [h.age, if_pos hmem, hlatest, h.wellFormed.age_latestIndex]
    refine ⟨w, h.wellFormed.renew_of_latest hlatest, ?_, rfl⟩
    rwa [← hage, Function.update_eq_self]
  · obtain ⟨w', hok, hwf, hmoves, hbucket⟩ := h.wellFormed.renew_of_mem hlatest hmem
    refine ⟨w', hok, h.of_latest hwf hmoves fun i d => ?_, hmoves.bucketSize⟩
    rw [hbucket]
    by_cases heq : d = e
    · subst heq
      rw [if_pos rfl]
      by_cases hi : i = w.latestIndex
      · simp [hi]
      · rw [if_neg hi]
        constructor
        · intro hd
          split at hd
          · exact absurd hd (h.wellFormed.nodup i).not_mem_erase
          · exact absurd (h.placed d i hd) ‹_›
        · exact fun hi' => absurd hi' hi
    · rw [if_neg heq]
      split
      · rw [List.mem_insert_iff]
        simp [heq]
      · split
        · exact List.mem_erase_of_ne heq
        · exact Iff.rfl

theorem Tracks.remove (h : w.Tracks ages) (e : ε) :
    ∃ w', w.removeFromWheel (some e) = .ok w' ∧ w'.Tracks (Function.update ages e none) ∧
      w'.bucketSize = w.bucketSize := by
  obtain ⟨w', hok, hwf, hmoves, hbucket⟩ := h.wellFormed.removeFromWheel e
  refine ⟨w', hok, h.of_removed hwf hmoves fun i d => ?_, hmoves.bucketSize⟩
  rw [hbucket]
  by_cases heq : d = e
  · subst heq
    constructor
    · intro hd
      split at hd
      · exact absurd hd (h.wellFormed.nodup i).not_mem_erase
      · exact absurd (h.placed d i hd) ‹_›
    · exact fun hd => absurd rfl hd.1
  · split
    · rw [List.mem_erase_of_ne heq]
      simp [heq]
    · simp [heq]

/-- The entries that are due are those of the bucket that the next tick reaches. -/
theorem Tracks.due_iff (h : w.Tracks ages) :
    Deadline.Due (w.bucketSize - 1) ages e ↔ e ∈ w.begin.wheel.scanned := by
  have hindex := h.wellFormed.index_lt e
  have hempty : e ∉ w.bucket w.timeOutBucketIndex := by
    have hnil := h.empty
    rw [scanned] at hnil
    rw [hnil]
    exact List.not_mem_nil
  rw [Deadline.Due, h.age]
  constructor
  · intro hdue
    by_cases hmem : e ∈ w.bucket (w.indexInWheel e)
    · rw [if_pos hmem, Option.map_some, Option.some_inj] at hdue
      have hne : w.indexInWheel e ≠ w.timeOutBucketIndex := fun heq => hempty (heq ▸ hmem)
      rw [h.wellFormed.age_add_one_iff hindex hne] at hdue
      rw [hdue] at hmem
      exact hmem
    · rw [if_neg hmem] at hdue
      cases hdue
  · intro hscanned
    have hmem : e ∈ w.bucket w.begin.wheel.timeOutBucketIndex := hscanned
    have heq := h.placed e _ hmem
    rw [heq] at hmem
    have hne : w.indexInWheel e ≠ w.timeOutBucketIndex := fun heq' => hempty (heq' ▸ hmem)
    rw [if_pos hmem, Option.map_some,
      (h.wellFormed.age_add_one_iff hindex hne).mpr heq.symm]

/-- Adding new entries keeps the others in their buckets. -/
theorem Adds.placed (h : w.Adds es w') (hplaced : w.Placed) (hnew : ∀ e ∈ es, ¬w.InWheel e)
    (hscanned : w'.scanned ⊆ w.scanned) : w'.Placed := by
  have hold : ∀ d i, d ∈ w.bucket i → i = w'.indexInWheel d := by
    intro d i hd
    rw [h.index, if_neg fun hes => hnew d hes ⟨i, hd⟩]
    exact hplaced d i hd
  intro d i hd
  by_cases hi : i = w.timeOutBucketIndex
  · apply hold
    rw [hi, ← h.timeOut] at hd
    rw [hi]
    exact hscanned hd
  · by_cases hi' : i = w.latestIndex
    · rw [hi', h.mem_latest] at hd
      rcases hd with hd | hd
      · rw [hi']
        exact hold d _ hd
      · rw [h.index, if_pos hd, hi']
    · rw [h.bucket_of_ne i hi' hi] at hd
      exact hold d i hd

/-- The entries that are added in the next tick. -/
theorem Tracks.added_iff (h : w.Tracks ages) :
    Deadline.Added (w.bucketSize - 1) ages adds e ↔ e ∈ w.begin.wheel.scanned.flatMap adds := by
  rw [List.mem_flatMap, Deadline.Added]
  exact exists_congr fun d => and_congr_left' h.due_iff

omit [DecidableEq ε] in
theorem Legal.of_tick (h : w.Legal (.tick adds)) :
    ∀ e ∈ w.begin.wheel.scanned.flatMap adds, ¬w.InWheel e := by
  intro e he
  obtain ⟨d, hd, hmem⟩ := List.mem_flatMap.mp he
  exact h d hd e hmem

/-- An entry that is neither added nor in the bucket under the scan stays where it is. -/
theorem Adds.mem_bucket_iff (h : w.Adds es w') (hscanned : w'.scanned = []) (hes : e ∉ es)
    (hdue : e ∉ w.scanned) (i : Nat) : e ∈ w'.bucket i ↔ e ∈ w.bucket i := by
  by_cases hi : i = w.timeOutBucketIndex
  · have hnil : w'.bucket w.timeOutBucketIndex = [] := h.timeOut ▸ hscanned
    rw [hi, hnil]
    exact ⟨fun he => absurd he List.not_mem_nil, fun he => absurd he hdue⟩
  · by_cases hi' : i = w.latestIndex
    · rw [hi', h.mem_latest]
      exact ⟨fun he => he.resolve_right hes, .inl⟩
    · rw [h.bucket_of_ne i hi' hi]

/-- The bucket that has just timed out is the latest one in the tick, and empty. -/
theorem Tracks.not_mem_latest (h : w.Tracks ages) : e ∉ w.bucket w.begin.wheel.latestIndex := by
  have hempty := h.empty
  rw [scanned] at hempty
  rw [h.wellFormed.begin_latestIndex, hempty]
  exact List.not_mem_nil

theorem Tracks.tick (h : w.Tracks ages) (hnew : w.Legal (.tick adds)) :
    ∃ s, TimeWheel.tick (adding adds) w = .ok s ∧ s.fired = w.begin.wheel.scanned ∧
      s.wheel.Tracks (Deadline.older (w.bucketSize - 1) ages adds) ∧
        s.wheel.bucketSize = w.bucketSize := by
  obtain ⟨s, hok, hfired, hscanned, hadds⟩ := tick_adding adds h.wellFormed h.two_le
  have hplaced : s.wheel.Placed :=
    hadds.placed h.placed hnew.of_tick (by rw [hscanned]; exact List.nil_subset _)
  refine ⟨s, hok, hfired, ⟨hadds.wellFormed, hadds.bucketSize ▸ h.two_le, hplaced, hscanned, ?_⟩,
    hadds.bucketSize⟩
  intro e
  have hage : s.wheel.age = w.begin.wheel.age := by
    funext i
    rw [TimeWheel.age, TimeWheel.age, hadds.timeOut, hadds.bucketSize]
  rw [hage, hadds.index]
  by_cases hes : e ∈ w.begin.wheel.scanned.flatMap adds
  · -- the entry is added
    have hmem := (hadds.mem_latest e).mpr (.inr hes)
    rw [Deadline.older_of_added (h.added_iff.mpr hes), if_pos hes, if_pos hmem,
      (begin_wellFormed h.wellFormed).age_latestIndex]
  · have hadded := mt h.added_iff.mp hes
    rw [if_neg hes]
    by_cases hdue : e ∈ w.begin.wheel.scanned
    · -- the entry is called
      have hindex : w.begin.wheel.timeOutBucketIndex = w.indexInWheel e := h.placed e _ hdue
      have hgone : e ∉ s.wheel.bucket (w.indexInWheel e) := by
        rw [← hindex, ← hadds.timeOut]
        change e ∉ s.wheel.scanned
        rw [hscanned]
        exact List.not_mem_nil
      rw [Deadline.older_of_due hadded (h.due_iff.mpr hdue)]
      exact (if_neg hgone).symm
    · -- the entry keeps its bucket, if it has one
      have hbucket : ∀ i, e ∈ s.wheel.bucket i ↔ e ∈ w.bucket i :=
        hadds.mem_bucket_iff hscanned hes hdue
      rw [Deadline.older_of_not hadded (mt h.due_iff.mp hdue), h.age]
      change _ = if e ∈ s.wheel.bucket (w.indexInWheel e) then
        some (w.begin.wheel.age (w.indexInWheel e)) else none
      by_cases hmem : e ∈ w.bucket (w.indexInWheel e)
      · have hne : w.indexInWheel e ≠ w.timeOutBucketIndex := by
          intro heq
          rw [heq, ← h.wellFormed.begin_latestIndex] at hmem
          exact h.not_mem_latest hmem
        rw [if_pos hmem, if_pos ((hbucket _).mpr hmem),
          h.wellFormed.begin_age (h.wellFormed.index_lt e) hne]
        rfl
      · rw [if_neg hmem, if_neg (mt (hbucket _).mp hmem)]
        rfl

/-! ## Runs -/

/-- The wheel after a call. -/
def next (w : TimeWheel ε) (c : Deadline.Call ε) : Except Fault (TimeWheel ε) :=
  (w.step c).map Prod.fst

/-- Step lemma: a legal call is answered as the table of ages answers it. -/
theorem Tracks.step (h : w.Tracks ages) {c : Deadline.Call ε} (hc : w.Legal c) :
    ∃ w', w.step c = .ok (w', (Deadline.answer (w.bucketSize - 1) ages c).2) ∧
      w'.Tracks (Deadline.answer (w.bucketSize - 1) ages c).1 ∧
        w'.bucketSize = w.bucketSize := by
  cases c with
  | add e =>
      exact ⟨_, rfl, h.add hc, (h.wellFormed.addToWheel_moves e).bucketSize⟩
  | renew item =>
      cases item with
      | none => exact ⟨w, rfl, h, rfl⟩
      | some e =>
          obtain ⟨w', hok, htracks, hsize⟩ := h.renew (hc e rfl)
          refine ⟨w', ?_, htracks, hsize⟩
          rw [TimeWheel.step, hok]
          rfl
  | remove item =>
      cases item with
      | none => exact ⟨w, rfl, h, rfl⟩
      | some e =>
          obtain ⟨w', hok, htracks, hsize⟩ := h.remove e
          refine ⟨w', ?_, htracks, hsize⟩
          rw [TimeWheel.step, hok]
          rfl
  | tick adds =>
      obtain ⟨s, hok, hfired, htracks, hsize⟩ := h.tick hc
      refine ⟨s.wheel, ?_, htracks, hsize⟩
      have hcount : (fun e => s.fired.count e) =
          fun e => if Deadline.Due (w.bucketSize - 1) ages e then 1 else 0 := by
        funext e
        have hnodup : w.begin.wheel.scanned.Nodup := (begin_wellFormed h.wellFormed).nodup _
        rw [hfired, hnodup.count]
        exact if_congr h.due_iff.symm rfl rfl
      rw [TimeWheel.step, hok]
      exact congrArg (fun calls => Except.ok (s.wheel, calls)) hcount

/-- In the middle of a tick, too, the entries are placed. -/
theorem Tracks.rounds_placed (h : w.Tracks ages) (hnew : w.Legal (.tick adds)) {m : Nat}
    {s : Scan ε} (hs : rounds (adding adds) m w.begin = .ok s) : s.wheel.Placed := by
  obtain ⟨k, hk, hrounds⟩ : ∃ k, k ≤ w.begin.wheel.scanned.length ∧
      rounds (adding adds) k w.begin = .ok s := by
    rcases Nat.le_total m w.begin.wheel.scanned.length with hm | hm
    · exact ⟨m, hm, hs⟩
    · obtain ⟨j, rfl⟩ := Nat.exists_eq_add_of_le hm
      obtain ⟨t, hend, hit, -⟩ :=
        rounds_adding adds (begin_wellFormed h.wellFormed) h.two_le rfl rfl le_rfl
      rw [rounds_add, hend] at hs
      change rounds (adding adds) j t = _ at hs
      rw [rounds_of_none (by rw [hit, List.drop_length]; rfl)] at hs
      exact ⟨_, le_rfl, hend.trans hs⟩
  obtain ⟨t, hrounds', -, -, hscanned, hadds⟩ :=
    rounds_adding adds (begin_wellFormed h.wellFormed) h.two_le rfl rfl hk
  rw [hrounds] at hrounds'
  cases hrounds'
  refine hadds.placed h.placed ?_ ?_
  · intro e he
    apply hnew.of_tick e
    exact List.mem_flatMap.mpr ((List.mem_flatMap.mp he).imp fun d hd =>
      ⟨List.mem_of_mem_take hd.1, hd.2⟩)
  · rw [hscanned]
    exact List.drop_subset ..

/-- Over every sequence of legal calls, a fresh wheel of `n` buckets calls the entries
as the table of ages does with the period `n - 1`, and each entry is in the bucket of
its index only, between the calls and between the callbacks of a tick. -/
theorem deadline_law {n : Nat} (hn : 2 ≤ n) (calls : List (Deadline.Call ε))
    (hlegal : Run.Always next Legal (new n) calls) :
    ∃ w, Run.replies step (new n) calls =
        .ok (w, (Run.answers (Deadline.answer (n - 1)) (fun _ => none) calls).2) ∧
      w.Placed ∧ ∀ adds, w.Legal (.tick adds) → ∀ m s,
        rounds (adding adds) m w.begin = .ok s → s.wheel.Placed := by
  have hstep : ∀ (c : Deadline.Call ε) (cs : List (Deadline.Call ε)) (w : TimeWheel ε)
      (ages : Deadline.Ages ε),
      w.Tracks ages ∧ w.bucketSize = n ∧ Run.Always next Legal w (c :: cs) →
      ∃ w', w.step c = .ok (w', (Deadline.answer (n - 1) ages c).2) ∧
        w'.Tracks (Deadline.answer (n - 1) ages c).1 ∧ w'.bucketSize = n ∧
          Run.Always next Legal w' cs := by
    rintro c cs w ages ⟨htracks, hsize, hrest⟩
    obtain ⟨w', hok, htracks', hsize'⟩ := htracks.step hrest.1
    rw [hsize] at hok htracks' hsize'
    exact ⟨w', hok, htracks', hsize', hrest.2 w' (by rw [next, hok]; rfl)⟩
  obtain ⟨w, hrun, htracks, -⟩ := Run.replies_simulation
    (fun cs w ages => w.Tracks ages ∧ w.bucketSize = n ∧ Run.Always next Legal w cs)
    hstep calls (s := new n) (t := fun _ => none) ⟨new_tracks hn, rfl, hlegal⟩
  exact ⟨w, hrun, htracks.placed, fun adds hnew m s hs => htracks.rounds_placed hnew hs⟩

/-- Three buckets: an entry is renewed after one tick. -/
theorem deadline_law_three :
    ∃ w, Run.replies step (new 3)
          [.add (), .tick fun _ => [], .renew (some ()), .tick fun _ => []] =
        .ok (w, (Run.answers (Deadline.answer 2) (fun _ => none)
          [.add (), .tick fun _ => [], .renew (some ()), .tick fun _ => []]).2) ∧
      w.Placed ∧ ∀ adds, w.Legal (.tick adds) → ∀ m s,
        rounds (adding adds) m w.begin = .ok s → s.wheel.Placed := by
  apply deadline_law (n := 3) (by decide)
  refine ⟨?_, fun w₁ h₁ => ⟨fun d _ e he => absurd he List.not_mem_nil,
    fun w₂ h₂ => ⟨?_, fun w₃ h₃ =>
      ⟨fun d _ e he => absurd he List.not_mem_nil, fun w₄ _ => trivial⟩⟩⟩⟩
  · rintro ⟨i, hi⟩
    rw [new_bucket] at hi
    exact List.not_mem_nil hi
  · cases h₁
    cases h₂
    intro d _
    exact ⟨2, List.mem_singleton_self _⟩

end TimeWheel

end Netpp
