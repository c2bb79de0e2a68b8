import Netpp.Connection.Kick
import Netpp.Connection.Outbound

/-!
# The progress of a connection

Invariants of the connection and its wheel over the steps and ticks of a run. The
entries of the wheel stay in the buckets of their indices, so a tick that succeeds
only asks the connection to close; and the state moves from established to
half-closed to closed.
-/

namespace Netpp

namespace TcpConnection

/-! ## The wheel -/

section Wheel

variable {w w' : TimeWheel WheelEntry} {entry : WheelEntry}

/-- The wheel of a loop: it has no buckets, or its entries are in the buckets of
their indices. -/
def Usable (w : TimeWheel WheelEntry) : Prop :=
  (w.bucketSize = 0 ∧ w.buckets = []) ∨ (w.WellFormed ∧ w.Placed)

/-- A usable wheel with no entries but those of `w`. -/
def Usable.Within (w w' : TimeWheel WheelEntry) : Prop :=
  Usable w' ∧ ∀ entry, w'.InWheel entry → w.InWheel entry

theorem Usable.within_self (h : Usable w) : Usable.Within w w := ⟨h, fun _ => id⟩

theorem Usable.Within.trans {w'' : TimeWheel WheelEntry} (h : Usable.Within w w')
    (h' : Usable.Within w' w'') : Usable.Within w w'' :=
  ⟨h'.1, fun entry he => h.2 entry (h'.2 entry he)⟩

theorem lock_of_no_buckets (h : w.buckets = []) : w.lock entry = none := by
  simp [TimeWheel.lock, h]

theorem renew_placed (hwf : w.WellFormed) (hplaced : w.Placed) (hin : w.InWheel entry)
    (hok : w.renew (some entry) = .ok w') :
    w'.WellFormed ∧ w'.Placed ∧ ∀ e, w'.InWheel e → w.InWheel e := by
  by_cases hlatest : w.indexInWheel entry = w.latestIndex
  · rw [hwf.renew_of_latest hlatest] at hok
    cases hok
    exact ⟨hwf, hplaced, fun _ => id⟩
  · obtain ⟨i, hi⟩ := hin
    have hmem : entry ∈ w.bucket (w.indexInWheel entry) := by rwa [← hplaced entry i hi]
    obtain ⟨w₁, hrenew, hwf₁, hmoves, hbucket⟩ := hwf.renew_of_mem hlatest hmem
    rw [hrenew] at hok
    cases hok
    have hwhere : ∀ e j, e ∈ w'.bucket j →
        if e = entry then j = w.latestIndex else e ∈ w.bucket j := by
      intro e j he
      rw [hbucket] at he
      by_cases heq : e = entry
      · subst heq
        rw [if_pos rfl]
        by_contra hj
        rw [if_neg hj] at he
        split at he
        · exact (hwf.nodup j).not_mem_erase he
        · exact absurd (hplaced e j he) ‹_›
      · rw [if_neg heq]
        split at he
        · exact (List.mem_insert_iff.mp he).resolve_left heq
        · split at he
          · exact List.mem_of_mem_erase he
          · exact he
    refine ⟨hwf₁, ?_, ?_⟩
    · intro e j he
      have hj := hwhere e j he
      rw [hmoves.indexInWheel, Function.update_apply]
      split at hj
      · rw [if_pos ‹_›, hj]
      · rw [if_neg ‹_›, hplaced e j hj]
    · rintro e ⟨j, he⟩
      have hj := hwhere e j he
      split at hj
      · rename_i heq
        exact ⟨i, heq ▸ hi⟩
      · exact ⟨j, hj⟩

theorem renewIfAlive_within (h : Usable w) (watched : WheelEntry)
    (hok : renewIfAlive w watched .idle = .ok w') : Usable.Within w w' := by
  unfold renewIfAlive at hok
  split at hok
  · by_cases hin : w.InWheel .idle
    · rcases h with ⟨-, hbuckets⟩ | ⟨hwf, hplaced⟩
      · obtain ⟨i, hi⟩ := hin
        simp [TimeWheel.bucket, hbuckets] at hi
      · rw [lock_of_inWheel hin] at hok
        obtain ⟨hwf', hplaced', hwithin⟩ := renew_placed hwf hplaced hin hok
        exact ⟨.inr ⟨hwf', hplaced'⟩, hwithin⟩
    · rw [lock_of_not_inWheel hin] at hok
      cases hok
      exact h.within_self
  · cases hok
    exact h.within_self

theorem renewEntries_within (h : Usable w) (hok : renewEntries w = .ok w') :
    Usable.Within w w' := by
  obtain ⟨w₁, hidle, hhalfClose⟩ := Except.exists_of_bind_eq_ok hok
  have hwithin := renewIfAlive_within h .idle hidle
  exact hwithin.trans (renewIfAlive_within hwithin.1 .halfClose hhalfClose)

theorem removeLocked_within (h : Usable w) (hok : w.removeFromWheel (w.lock entry) = .ok w') :
    Usable.Within w w' := by
  rcases h with hzero | ⟨hwf, hplaced⟩
  · rw [lock_of_no_buckets hzero.2] at hok
    cases hok
    exact Usable.within_self (.inl hzero)
  · have hloses := (hwf.remove_loses hok).1
    exact ⟨.inr ⟨hloses.wellFormed, hloses.placed hplaced⟩, fun _ he => hloses.inWheel he⟩

theorem removeEntries_within (h : Usable w) (hok : removeEntries w = .ok w') :
    Usable.Within w w' := by
  obtain ⟨w₁, hidle, hhalfClose⟩ := Except.exists_of_bind_eq_ok hok
  have hwithin := removeLocked_within h hidle
  exact hwithin.trans (removeLocked_within hwithin.1 hhalfClose)

/-- An entry that is new is added. -/
theorem addToWheel_usable (h : Usable w) (hnew : ¬w.InWheel entry) :
    Usable (w.addToWheel entry) ∧
      ∀ e, (w.addToWheel entry).InWheel e → e = entry ∨ w.InWheel e := by
  rcases h with hzero | ⟨hwf, hplaced⟩
  · have hsame : w.addToWheel entry = w := by simp [TimeWheel.addToWheel, hzero.1]
    rw [hsame]
    exact ⟨.inl hzero, fun _ he => .inr he⟩
  · have hwhere : ∀ e i, e ∈ (w.addToWheel entry).bucket i →
        (e = entry ∧ i = w.latestIndex) ∨ e ∈ w.bucket i := by
      intro e i he
      rw [hwf.addToWheel_bucket] at he
      split at he
      · rename_i hi
        rcases List.mem_insert_iff.mp he with heq | hmem
        · exact .inl ⟨heq, hi⟩
        · exact .inr hmem
      · exact .inr he
    refine ⟨.inr ⟨hwf.addToWheel entry, ?_⟩, ?_⟩
    · intro e i he
      rw [(hwf.addToWheel_moves entry).indexInWheel, Function.update_apply]
      rcases hwhere e i he with ⟨heq, hi⟩ | hmem
      · rw [if_pos heq, hi]
      · have hne : e ≠ entry := fun heq => hnew ⟨i, heq ▸ hmem⟩
        rw [if_neg hne, hplaced e i hmem]
    · rintro e ⟨i, he⟩
      rcases hwhere e i he with ⟨heq, -⟩ | hmem
      · exact .inl heq
      · exact .inr ⟨i, hmem⟩

end Wheel

variable {c c' : TcpConnection} {e : Event}

/-- The wheel of the connection is usable, and an established connection has no
half-close entry. -/
def Wheeled (c : TcpConnection) : Prop :=
  ∀ w, c.wheel = some w → Usable w ∧ (c.state = .Established → ¬w.InWheel .halfClose)

theorem Turns.of_some {f : TimeWheel WheelEntry → Except Fault (TimeWheel WheelEntry)}
    {wheel wheel' : Option (TimeWheel WheelEntry)} {w' : TimeWheel WheelEntry}
    (h : Turns f wheel wheel') (hsome : wheel' = some w') :
    ∃ w, wheel = some w ∧ f w = .ok w' := by
  cases wheel with
  | none =>
      rw [hsome] at h
      cases h
  | some w =>
      obtain ⟨w₁, hw₁, hok⟩ := h
      rw [hsome] at hw₁
      cases hw₁
      exact ⟨w, rfl, hok⟩

theorem Wheeled.event (h : c.Wheeled) (hok : c.step e = .ok c') : c'.Wheeled := by
  intro w' hw'
  cases step_wheel hok with
  | kept hwheel hrenews hshuts hstate =>
      rw [hwheel] at hw'
      obtain ⟨husable, hnew⟩ := h w' hw'
      refine ⟨husable, fun hestablished => hnew ?_⟩
      rcases hstate with hsame | ⟨-, hhalfClose⟩
      · rw [← hsame, hestablished]
      · rw [hhalfClose] at hestablished
        cases hestablished
  | renewed hrenews hwheel hstate =>
      obtain ⟨w, hw, hturned⟩ := hwheel.of_some hw'
      obtain ⟨husable, hnew⟩ := h w hw
      obtain ⟨husable', hwithin⟩ := renewEntries_within husable hturned
      refine ⟨husable', fun hestablished hin => ?_⟩
      exact hnew (hstate.symm.trans hestablished) (hwithin _ hin)
  | closed wheel hrenewed hwheel hstate =>
      obtain ⟨w₁, hw₁, hturned⟩ := hwheel.of_some hw'
      have husable₁ : Usable w₁ := by
        rcases hrenewed with heq | ⟨-, hturns⟩
        · exact (h w₁ (heq ▸ hw₁)).1
        · obtain ⟨w, hw, hrenew⟩ := hturns.of_some hw₁
          exact (renewEntries_within (h w hw).1 hrenew).1
      refine ⟨(removeEntries_within husable₁ hturned).1, fun hestablished => ?_⟩
      rw [hstate] at hestablished
      cases hestablished
  | added hshuts hstate hstate' hwheel =>
      rw [hwheel] at hw'
      obtain ⟨w, hw, rfl⟩ := Option.map_eq_some_iff.mp hw'
      obtain ⟨husable, hnew⟩ := h w hw
      refine ⟨(addToWheel_usable husable (hnew hstate)).1, fun hestablished => ?_⟩
      rw [hstate'] at hestablished
      cases hestablished

/-- A tick may ask the connection to close, and nothing else about it changes. -/
theorem Wheeled.tick (h : c.Wheeled) (hok : c.tick = .ok c') :
    c'.Wheeled ∧ ∃ wheel closes,
      c' = { c with wheel := wheel, functors := c.functors ++ closes } := by
  cases hw : c.wheel with
  | none => simp [TcpConnection.tick, hw] at hok
  | some w =>
      obtain ⟨husable, hnew⟩ := h w hw
      rcases husable with ⟨hzero, -⟩ | ⟨hwf, hplaced⟩
      · simp [TcpConnection.tick, hw, hzero] at hok
      · obtain ⟨s, closes, -, hloses, -, rfl⟩ := tick_ok hw hwf hplaced hok
        refine ⟨?_, _, _, rfl⟩
        intro w' hw'
        cases hw'
        have hplaced' : w.begin.wheel.Placed := hplaced
        refine ⟨.inr ⟨hloses.wellFormed, hloses.placed hplaced'⟩, fun hestablished hin => ?_⟩
        exact hnew hestablished (hloses.inWheel hin)

/-! ## The states -/

/-- How a step, which may raise an exception or run `handleRdhup`, changes the
state. -/
structure Progress (c : TcpConnection) (raises rdhup : Prop) (c' : TcpConnection) : Prop where
  state : c'.state = c.state ∨ c'.state = .HalfClose ∨ c'.state = .Closed
  established : c'.state = .Established → c.state = .Established ∧ ¬rdhup ∧
    (c.epollEvent.watchingEvents .RDHUP = true → c'.epollEvent.watchingEvents .RDHUP = true)
  waiting : ¬raises → c.state = .HalfClose → c.isWaitWriting = true →
    c'.state = .Closed ∨ (c'.state = .HalfClose ∧ c'.isWaitWriting = true)

/-- A step that leaves the state, the mask and the flag as they were. -/
theorem Progress.same (raises : Prop) (hstate : c'.state = c.state)
    (hwatching : c'.epollEvent = c.epollEvent) (hwaiting : c'.isWaitWriting = c.isWaitWriting) :
    Progress c raises False c' where
  state := .inl hstate
  established h := ⟨hstate ▸ h, id, by rw [hwatching]; exact id⟩
  waiting _ hhalfClose h := .inr ⟨hstate.trans hhalfClose, hwaiting.trans h⟩

/-- A step that closes the connection. -/
theorem Progress.closes (raises rdhup : Prop) (hstate : c'.state = .Closed) :
    Progress c raises rdhup c' where
  state := .inr (.inr hstate)
  established h := by
    rw [hstate] at h
    cases h
  waiting _ _ _ := .inl hstate

/-- A step from an established connection to a half-closed one. -/
theorem Progress.halfCloses (raises rdhup : Prop) (hstate : c.state = .Established)
    (hstate' : c'.state = .HalfClose) : Progress c raises rdhup c' where
  state := .inr (.inl hstate')
  established h := by
    rw [hstate'] at h
    cases h
  waiting _ h := by
    rw [hstate] at h
    cases h

theorem HandleIn.progress {answer : Answer Nat} (h : HandleIn c answer c') (raises : Prop) :
    Progress c raises False c' := by
  cases h with
  | received wheel b taken hread => exact .same raises rfl rfl rfl
  | refused wheel e hstub => exact .closes raises False rfl
  | limited wheel e hstub => exact .same raises rfl rfl rfl

theorem HandleOut.progress {answer : Answer Nat} (h : HandleOut c answer c') (raises : Prop) :
    Progress c raises False c' := by
  cases h with
  | finished wheel b sent hwrite hstate =>
      refine ⟨.inl rfl, fun h => ⟨h, id, fun hwatching => ?_⟩, fun _ h => absurd h hstate⟩
      simpa [completed, transmitted, deactivate, call, EpollEvent.deactivate] using hwatching
  | closed wheel b sent hwrite hstate => exact .closes raises False rfl
  | unfinished wheel b sent hwrite => exact .same raises rfl rfl rfl
  | reset wheel e hstub => exact .closes raises False rfl
  | limited wheel e hstub => exact .same raises rfl rfl rfl

theorem HandleRdhup.progress (h : HandleRdhup c c') (raises : Prop) :
    Progress c raises True c' := by
  cases h with
  | closed wheel hstate hidle => exact .closes raises True rfl
  | halfClosed hstate hwaiting => exact .halfCloses raises True hstate rfl
  | ignored hstate =>
      exact ⟨.inl rfl, fun h => absurd h hstate, fun _ h hwaiting => .inr ⟨h, hwaiting⟩⟩

theorem RunFunctor.progress {f : Functor} (h : RunFunctor c f c') (raises : Prop) :
    Progress c raises False c' := by
  cases h with
  | send covers =>
      refine ⟨.inl rfl, fun h => ⟨h, id, fun hwatching => ?_⟩, fun _ h _ => .inr ⟨h, rfl⟩⟩
      simp [sendFunctor, active, EpollEvent.active, hwatching]
  | halfClosed hstate hwaiting => exact .halfCloses raises False hstate rfl
  | shutdown wheel hstate hidle => exact .halfCloses raises False hstate rfl
  | ignored hstate => exact .same raises rfl rfl rfl

/-- The next handler is `handleRdhup`. -/
def runsRdhup (c : TcpConnection) (e : Event) : Prop := c.onHandler (fun _ ev => ev = .RDHUP) e

theorem Stepped.progress (h : Stepped c e c') :
    Progress c (c.onHandler c.raises e) (c.runsRdhup e) c' := by
  cases h with
  | handler answer ev rest d hrunning hhandle =>
      have hrdhup : c.runsRdhup (.handler answer) ↔ ev = .RDHUP := onHandler_of_running hrunning
      rw [hrdhup]
      cases hhandle with
      | rdhup d h =>
          have hprogress := h.progress (c.onHandler c.raises (.handler answer))
          refine ⟨hprogress.state, fun h => ?_, hprogress.waiting⟩
          exact absurd trivial (hprogress.established h).2.1
      | receive d h =>
          have hprogress := h.progress (c.onHandler c.raises (.handler answer))
          exact ⟨hprogress.state, fun h => by simpa using hprogress.established h,
            hprogress.waiting⟩
      | transmit d h =>
          have hprogress := h.progress (c.onHandler c.raises (.handler answer))
          exact ⟨hprogress.state, fun h => by simpa using hprogress.established h,
            hprogress.waiting⟩
      | nothing ev hev =>
          have hprogress : Progress c (c.onHandler c.raises (.handler answer)) False
              { c with running := rest } := .same _ rfl rfl rfl
          exact ⟨hprogress.state, fun h => by simpa [hev.1] using hprogress.established h,
            hprogress.waiting⟩
  | functor f rest d hidle hfunctors halive hrun =>
      have hprogress := hrun.progress (c.onHandler c.raises .functor)
      exact ⟨hprogress.state, hprogress.established, hprogress.waiting⟩
  | _ => exact .same _ rfl rfl rfl

theorem Handle.running {answer : Answer Nat} {ev : EpollEv} (h : Handle c answer ev c') :
    c'.running = c.running := by
  cases h with
  | rdhup d h => cases h <;> rfl
  | receive d h => cases h <;> rfl
  | transmit d h => cases h <;> rfl
  | nothing ev hev => rfl

/-- The handlers that are still to run after a step. -/
theorem Stepped.running (h : Stepped c e c') : c'.running =
    match e with
    | .handler _ => c.running.tail
    | .dispatch mask => handleEvents mask
    | _ => c.running := by
  cases h with
  | handler answer ev rest d hrunning hhandle =>
      rw [hhandle.running, hrunning]
      rfl
  | functor f rest d hidle hfunctors halive hrun =>
      cases hrun <;> rfl
  | _ => rfl

end TcpConnection

end Netpp
