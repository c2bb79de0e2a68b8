import Netpp.Time.DeadlineLaw

/-!
# Callbacks that remove their own entry

An entry may want to leave the wheel in its own callback. The iterator of the tick
does not survive this, so a tick that succeeds has called only entries whose
callbacks leave the wheel alone, and it is a tick in which no callback does
anything.
-/

namespace Netpp

namespace TimeWheel

variable {ε : Type*} [DecidableEq ε]

/-- Each callback leaves the wheel alone, or removes entries, its own among them. -/
structure Removing (b : Behaviour ε) : Prop where
  erases : ∀ e, b.eraseOnTimeout e = true
  removes : ∀ e, b.onTimeout e = [] ∨
    (∀ action ∈ b.onTimeout e, ∃ d, action = .remove d) ∧ .remove (some e) ∈ b.onTimeout e

/-- `w'` is `w` less some entries; the others are where they were. -/
structure Loses (w w' : TimeWheel ε) : Prop where
  wellFormed : w'.WellFormed
  bucketSize : w'.bucketSize = w.bucketSize
  timeOut : w'.timeOutBucketIndex = w.timeOutBucketIndex
  index : w'.indexInWheel = w.indexInWheel
  bucket : ∀ i, w'.bucket i ⊆ w.bucket i

variable {w w' w'' : TimeWheel ε} {b : Behaviour ε} {s s' : Scan ε} {entry : ε}
variable {actions : List (Action ε)}

omit [DecidableEq ε] in
theorem WellFormed.loses_self (h : w.WellFormed) : w.Loses w :=
  ⟨h, rfl, rfl, rfl, fun _ => List.Subset.refl _⟩

omit [DecidableEq ε] in
theorem Loses.trans (h : w.Loses w') (h' : w'.Loses w'') : w.Loses w'' where
  wellFormed := h'.wellFormed
  bucketSize := h'.bucketSize.trans h.bucketSize
  timeOut := h'.timeOut.trans h.timeOut
  index := h'.index.trans h.index
  bucket i := List.Subset.trans (h'.bucket i) (h.bucket i)

omit [DecidableEq ε] in
theorem Loses.placed (h : w.Loses w') (hplaced : w.Placed) : w'.Placed := by
  intro e i he
  rw [h.index]
  exact hplaced e i (h.bucket i he)

omit [DecidableEq ε] in
theorem Loses.inWheel (h : w.Loses w') {e : ε} (he : w'.InWheel e) : w.InWheel e := by
  obtain ⟨i, hi⟩ := he
  exact ⟨i, h.bucket i hi⟩

/-- Removing an entry of a placed wheel takes it out of the wheel. -/
theorem WellFormed.remove_loses (h : w.WellFormed) {d : Option ε}
    (hok : w.removeFromWheel d = .ok w') :
    w.Loses w' ∧ (w.Placed → ∀ e, d = some e → ¬w'.InWheel e) := by
  cases d with
  | none =>
      cases hok
      exact ⟨h.loses_self, fun _ e he => by cases he⟩
  | some e =>
      obtain ⟨w₁, hremove, hwf, hmoves, hbucket⟩ := h.removeFromWheel e
      rw [hremove] at hok
      cases hok
      refine ⟨⟨hwf, hmoves.bucketSize, hmoves.timeOut, ?_, fun i => ?_⟩, ?_⟩
      · rw [hmoves.indexInWheel, Function.update_eq_self]
      · rw [hbucket]
        split
        · exact List.erase_subset
        · exact List.Subset.refl _
      · rintro hplaced d hd ⟨i, hi⟩
        cases hd
        rw [hbucket] at hi
        by_cases hindex : i = w.indexInWheel e
        · rw [if_pos hindex] at hi
          exact (h.nodup i).not_mem_erase hi
        · rw [if_neg hindex] at hi
          exact hindex (hplaced e i hi)

/-- A callback that removes its own entry invalidates the iterator. -/
theorem callback_removes {valid : Bool} (h : w.WellFormed) (hplaced : w.Placed)
    (hremove : ∀ action ∈ actions, ∃ d, action = .remove d)
    (hself : .remove (some entry) ∈ actions)
    (hok : callback entry actions w true = .ok (w', valid)) : valid = false := by
  induction actions generalizing w with
  | nil => cases hself
  | cons action actions ih =>
      obtain ⟨w₁, hact, hrest⟩ := Except.exists_of_bind_eq_ok hok
      obtain ⟨d, rfl⟩ := hremove action (List.mem_cons_self ..)
      obtain ⟨hloses, hgone⟩ := h.remove_loses hact
      by_cases hkeeps : keepsIterator entry w w₁ = true
      · rw [hkeeps] at hrest
        have hrest' : .remove (some entry) ∈ actions := by
          rcases List.mem_cons.mp hself with hd | hmem
          · -- the entry is not in the bucket under the scan any longer
            have hmem : entry ∈ w₁.scanned := by
              simp only [keepsIterator, Bool.and_eq_true, decide_eq_true_eq] at hkeeps
              exact hkeeps.1
            injection hd with hd
            exact absurd ⟨_, hmem⟩ (hgone hplaced entry hd.symm)
          · exact hmem
        exact ih hloses.wellFormed (hloses.placed hplaced)
          (fun action haction => hremove action (List.mem_cons_of_mem _ haction)) hrest' hrest
      · rw [eq_false_of_ne_true hkeeps] at hrest
        exact callback_false hrest

/-- A round that succeeds has called an entry that leaves the wheel alone. -/
theorem Removing.round (hb : Removing b) (h : s.wheel.WellFormed) (hplaced : s.wheel.Placed)
    (hok : round b s entry = .ok s') :
    b.onTimeout entry = [] ∧ round (adding fun _ => []) s entry = .ok s' ∧
      s.wheel.Loses s'.wheel ∧ s'.fired = s.fired ++ [entry] := by
  obtain ⟨⟨w, valid⟩, hcallback, hrest⟩ := Except.exists_of_bind_eq_ok hok
  cases valid with
  | false => cases hrest
  | true =>
      cases hrest
      have hsilent : b.onTimeout entry = [] := by
        rcases hb.removes entry with hnil | ⟨hremove, hself⟩
        · exact hnil
        · cases callback_removes h hplaced hremove hself hcallback
      rw [hsilent] at hcallback
      cases hcallback
      have herase := (h.eraseScanned entry).1
      have hbucket : ∀ i, (s.wheel.eraseScanned entry).bucket i ⊆ s.wheel.bucket i := by
        intro i
        have hlt : s.wheel.timeOutBucketIndex < s.wheel.buckets.length := h.length ▸ h.timeOut_lt
        rw [bucket, TimeWheel.eraseScanned, bucket_modify hlt]
        split
        · exact List.erase_subset
        · exact List.Subset.refl _
      refine ⟨hsilent, ?_, ?_, rfl⟩
      · simp only [TimeWheel.round, adding, List.map_nil, callback, Scan.next, hb.erases]
        rfl
      · simp only [Scan.next, hb.erases, if_true]
        exact ⟨herase.wellFormed, rfl, rfl, rfl, hbucket⟩

/-- Run lemma: rounds that succeed have called entries that leave the wheel alone. -/
theorem Removing.rounds (hb : Removing b) {n : Nat} (h : s.wheel.WellFormed)
    (hplaced : s.wheel.Placed) (hok : rounds b n s = .ok s') :
    rounds (adding fun _ => []) n s = .ok s' ∧ s.wheel.Loses s'.wheel ∧
      ∀ e ∈ s'.fired, e ∈ s.fired ∨ b.onTimeout e = [] := by
  induction n generalizing s with
  | zero =>
      cases hok
      exact ⟨rfl, h.loses_self, fun _ he => .inl he⟩
  | succ n ih =>
      cases hit : s.it with
      | none =>
          rw [rounds_of_none hit] at hok
          cases hok
          exact ⟨rounds_of_none hit, h.loses_self, fun _ he => .inl he⟩
      | some entry =>
          rw [rounds_of_some hit] at hok
          obtain ⟨s₁, hround, hrest⟩ := Except.exists_of_bind_eq_ok hok
          obtain ⟨hsilent, hround', hloses, hfired⟩ := hb.round h hplaced hround
          obtain ⟨hrest', hloses', hfired'⟩ := ih hloses.wellFormed (hloses.placed hplaced) hrest
          refine ⟨?_, hloses.trans hloses', ?_⟩
          · rw [rounds_of_some hit, hround']
            exact hrest'
          · intro e he
            rcases hfired' e he with he' | he'
            · rw [hfired, List.mem_append, List.mem_singleton] at he'
              rcases he' with hold | rfl
              · exact .inl hold
              · exact .inr hsilent
            · exact .inr he'

/-- A tick that succeeds is one in which the callbacks do nothing. -/
theorem Removing.tick (hb : Removing b) (h : w.WellFormed) (hplaced : w.Placed)
    (hok : tick b w = .ok s) :
    tick (adding fun _ => []) w = .ok s ∧ w.begin.wheel.Loses s.wheel ∧
      ∀ e ∈ s.fired, b.onTimeout e = [] := by
  obtain ⟨hrounds, hend⟩ := tick_ok hok
  obtain ⟨hrounds', hloses, hfired⟩ := hb.rounds (begin_wellFormed h) hplaced hrounds
  refine ⟨?_, hloses, fun e he => (hfired e he).resolve_left List.not_mem_nil⟩
  rw [TimeWheel.tick, hrounds']
  exact if_pos hend

/-! ## Callbacks that only remove

In such a tick of any wheel, no entry gets into a bucket. -/

theorem mem_of_mem_callback {valid valid' : Bool} {e : ε} {i : Nat}
    (hremove : ∀ action ∈ actions, ∃ d, action = .remove d)
    (hok : callback entry actions w valid = .ok (w', valid')) (h : e ∈ w'.bucket i) :
    e ∈ w.bucket i := by
  induction actions generalizing w valid with
  | nil =>
      cases hok
      exact h
  | cons action actions ih =>
      obtain ⟨w₁, hact, hrest⟩ := Except.exists_of_bind_eq_ok hok
      obtain ⟨d, rfl⟩ := hremove action (List.mem_cons_self ..)
      exact mem_of_mem_removeFromWheel hact
        (ih (fun action haction => hremove action (List.mem_cons_of_mem _ haction)) hrest)

theorem mem_of_mem_round {e : ε} {i : Nat}
    (hremove : ∀ action ∈ b.onTimeout entry, ∃ d, action = .remove d)
    (hok : TimeWheel.round b s entry = .ok s') (h : e ∈ s'.wheel.bucket i) :
    e ∈ s.wheel.bucket i := by
  obtain ⟨⟨w, valid⟩, hcallback, hrest⟩ := Except.exists_of_bind_eq_ok hok
  cases valid with
  | false => cases hrest
  | true =>
      cases hrest
      refine mem_of_mem_callback hremove hcallback ?_
      simp only [Scan.next] at h
      split at h
      next => exact mem_of_mem_modify (fun _ => List.mem_of_mem_erase) h
      next => exact h

theorem mem_of_mem_tick {e : ε} {i : Nat}
    (hremove : ∀ d, ∀ action ∈ b.onTimeout d, ∃ d', action = .remove d')
    (hok : TimeWheel.tick b w = .ok s) (h : e ∈ s.wheel.bucket i) : e ∈ w.bucket i := by
  obtain ⟨hrounds, -⟩ := tick_ok hok
  -- the wheel under the scan has the buckets of `w`
  change e ∈ w.begin.wheel.bucket i
  generalize w.begin.wheel.scanned.length = n at hrounds
  generalize w.begin = s₀ at hrounds ⊢
  induction n generalizing s₀ with
  | zero =>
      cases hrounds
      exact h
  | succ n ih =>
      cases hit : s₀.it with
      | none =>
          rw [rounds_of_none hit] at hrounds
          cases hrounds
          exact h
      | some entry =>
          rw [rounds_of_some hit] at hrounds
          obtain ⟨s₁, hround, hrounds⟩ := Except.exists_of_bind_eq_ok hrounds
          exact mem_of_mem_round (hremove entry) hround (ih s₁ hrounds)

end TimeWheel

end Netpp
