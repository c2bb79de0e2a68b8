import Netpp.Connection.Ticked

/-!
# Kicking half-closed connections

The wheel should force-close a half-closed connection only after `n - 1` ticks
without a handler, since each `handleIn` or `handleOut` should renew the half-close
entry. `renewWheel` looks at this entry and then renews the idle one, so the entry
keeps its deadline. The record is the countdown as it should be; the wheel follows
it as long as the handlers find the half-close entry in the latest bucket, where
there is nothing to renew.
-/

namespace Netpp

namespace TcpConnection

/-! ## The entries and their ages -/

section Ages

variable {w w' : TimeWheel WheelEntry} {ages : Deadline.Ages WheelEntry} {entry : WheelEntry}

theorem lock_isSome_iff : (w.lock entry).isSome ↔ w.InWheel entry := by
  have hlock : (w.lock entry).isSome ↔ ∃ bucket ∈ w.buckets, entry ∈ bucket := by
    unfold TimeWheel.lock
    split
    · rename_i hany
      simpa using hany
    · rename_i hany
      simpa using hany
  rw [hlock]
  constructor
  · rintro ⟨bucket, hbucket, hmem⟩
    obtain ⟨i, hi⟩ := List.mem_iff_getElem?.mp hbucket
    exact ⟨i, by rwa [TimeWheel.bucket, hi]⟩
  · rintro ⟨i, hi⟩
    cases hbucket : w.buckets[i]? with
    | none => simp [TimeWheel.bucket, hbucket] at hi
    | some bucket =>
        rw [TimeWheel.bucket, hbucket] at hi
        exact ⟨bucket, List.mem_of_getElem? hbucket, hi⟩

theorem lock_of_inWheel (h : w.InWheel entry) : w.lock entry = some entry := by
  have hsome := lock_isSome_iff.mpr h
  unfold TimeWheel.lock at hsome ⊢
  split at hsome
  · rename_i hany
    rw [if_pos hany]
  · cases hsome

theorem lock_of_not_inWheel (h : ¬w.InWheel entry) : w.lock entry = none := by
  rw [← lock_isSome_iff] at h
  simpa using h

theorem ages_eq_none_iff (h : w.Tracks ages) : ages entry = none ↔ ¬w.InWheel entry := by
  rw [h.inWheel_iff, h.age]
  split
  · simp_all
  · simp_all

/-- An entry that has an age is in the wheel. -/
theorem inWheel_of_age (h : w.Tracks ages) {k : Nat} (hage : ages entry = some k) :
    w.InWheel entry := by
  by_contra hnot
  rw [(ages_eq_none_iff h).mpr hnot] at hage
  cases hage

/-- `renewWheel` never changes the age of the half-close entry. -/
theorem renewIfAlive_tracks (h : w.Tracks ages) (watched : WheelEntry)
    (hok : renewIfAlive w watched .idle = .ok w') :
    ∃ ages', w'.Tracks ages' ∧ w'.bucketSize = w.bucketSize ∧
      ages' .halfClose = ages .halfClose := by
  unfold renewIfAlive at hok
  split at hok
  · by_cases hidle : w.InWheel .idle
    · obtain ⟨w₁, hrenew, htracks, hsize⟩ := h.renew hidle
      rw [lock_of_inWheel hidle, hrenew] at hok
      cases hok
      exact ⟨_, htracks, hsize, rfl⟩
    · rw [lock_of_not_inWheel hidle] at hok
      cases hok
      exact ⟨ages, h, rfl, rfl⟩
  · cases hok
    exact ⟨ages, h, rfl, rfl⟩

theorem renewEntries_tracks (h : w.Tracks ages) (hok : renewEntries w = .ok w') :
    ∃ ages', w'.Tracks ages' ∧ w'.bucketSize = w.bucketSize ∧
      ages' .halfClose = ages .halfClose := by
  obtain ⟨w₁, hidle, hhalfClose⟩ := Except.exists_of_bind_eq_ok hok
  obtain ⟨ages₁, htracks₁, hsize₁, hage₁⟩ := renewIfAlive_tracks h .idle hidle
  obtain ⟨ages₂, htracks₂, hsize₂, hage₂⟩ := renewIfAlive_tracks htracks₁ .halfClose hhalfClose
  exact ⟨ages₂, htracks₂, hsize₂.trans hsize₁, hage₂.trans hage₁⟩

/-- A removal of the entry takes it out of the wheel. -/
theorem removeLocked_tracks (h : w.Tracks ages) (entry : WheelEntry)
    (hok : w.removeFromWheel (w.lock entry) = .ok w') :
    w'.Tracks (Function.update ages entry none) ∧ w'.bucketSize = w.bucketSize := by
  by_cases hin : w.InWheel entry
  · obtain ⟨w₁, hremove, htracks, hsize⟩ := h.remove entry
    rw [lock_of_inWheel hin, hremove] at hok
    cases hok
    exact ⟨htracks, hsize⟩
  · rw [lock_of_not_inWheel hin] at hok
    cases hok
    have hage := (ages_eq_none_iff h).mpr hin
    refine ⟨?_, rfl⟩
    rwa [← hage, Function.update_eq_self]

theorem removeEntries_tracks (h : w.Tracks ages) (hok : removeEntries w = .ok w') :
    ∃ ages', w'.Tracks ages' ∧ w'.bucketSize = w.bucketSize ∧ ages' .halfClose = none := by
  obtain ⟨w₁, hidle, hhalfClose⟩ := Except.exists_of_bind_eq_ok hok
  obtain ⟨htracks₁, hsize₁⟩ := removeLocked_tracks h .idle hidle
  obtain ⟨htracks₂, hsize₂⟩ := removeLocked_tracks htracks₁ .halfClose hhalfClose
  exact ⟨_, htracks₂, hsize₂.trans hsize₁, Function.update_self ..⟩

end Ages

/-! ## The countdown -/

/-- The ticks since the half-close entry was added or a handler last ran. -/
def countdown (c : TcpConnection) (e : Timed) (silent : Nat) : Nat :=
  match e with
  | .tick => silent + 1
  | .event (.handler _) =>
      match c.running with
      | .IN :: _ => 0
      | .OUT :: _ => 0
      | _ => silent
  | .event .functor =>
      match c.functors with
      | .closeAfterWriteCompleted :: _ =>
          if c.alive ∧ c.state = .Established ∧ c.isWaitWriting = false then 0 else silent
      | _ => silent
  | .event _ => silent

/-- The tick calls the half-close entry exactly if it is the last one of the
countdown from `n - 1`. -/
def KicksSilent (n : Nat) (s : TcpConnection × Nat) : Timed → Prop
  | .tick => ∀ wheel, s.1.wheel = some wheel →
      (.halfClose ∈ wheel.begin.wheel.scanned ↔
        wheel.InWheel .halfClose ∧ s.2 + 1 = n - 1)
  | .event _ => True

/-- A handler that renews finds the half-close entry, if there is one, in the latest
bucket. -/
def RenewsLatest (s : TcpConnection × Nat) : Timed → Prop
  | .event e => s.1.onHandler renews e → ∀ wheel, s.1.wheel = some wheel →
      wheel.InWheel .halfClose → wheel.indexInWheel .halfClose = wheel.latestIndex
  | .tick => True

/-- The invariant: the age of the half-close entry is the countdown. -/
structure Counts (n : Nat) (s : TcpConnection × Nat) (wheel : TimeWheel WheelEntry)
    (ages : Deadline.Ages WheelEntry) : Prop where
  tracks : wheel.Tracks ages
  size : wheel.bucketSize = n
  age : ∀ k, ages .halfClose = some k → k = s.2
  established : s.1.state = .Established → ages .halfClose = none

/-- The connection has such a wheel. -/
def CountsDown (n : Nat) (s : TcpConnection × Nat) : Prop :=
  ∃ wheel ages, s.1.wheel = some wheel ∧ Counts n s wheel ages

variable {c c' : TcpConnection} {e : Event} {n silent : Nat}

theorem countdown_of_renews (h : c.onHandler renews e) : c.countdown (.event e) silent = 0 := by
  cases e with
  | handler answer =>
      obtain ⟨ev, hrunning, hev⟩ := h
      cases hlist : c.running with
      | nil => simp [hlist] at hrunning
      | cons ev' rest =>
          rw [hlist] at hrunning
          cases hrunning
          rcases hev with rfl | rfl
          · simp [countdown, hlist]
          · simp [countdown, hlist]
  | _ => cases h

theorem countdown_of_shuts (h : c.onFunctor c.shutsDown e) :
    c.countdown (.event e) silent = 0 := by
  cases e with
  | functor =>
      obtain ⟨halive, f, hfunctors, rfl, hstate, hidle⟩ := h
      cases hlist : c.functors with
      | nil => simp [hlist] at hfunctors
      | cons f' rest =>
          rw [hlist] at hfunctors
          cases hfunctors
          simp [countdown, hlist, halive, hstate, hidle]
  | _ => cases h

theorem countdown_of_not (hrenews : ¬c.onHandler renews e) (hshuts : ¬c.onFunctor c.shutsDown e) :
    c.countdown (.event e) silent = silent := by
  cases e with
  | handler answer =>
      cases hlist : c.running with
      | nil => simp [countdown, hlist]
      | cons ev rest =>
          rw [onHandler_of_running hlist] at hrenews
          cases ev <;> simp_all [countdown, renews]
  | functor =>
      cases hlist : c.functors with
      | nil => simp [countdown, hlist]
      | cons f rest =>
          cases f with
          | sendInLoop covers => simp [countdown, hlist]
          | closeAfterWriteCompleted =>
              have hno : ¬(c.alive ∧ c.state = .Established ∧ c.isWaitWriting = false) := by
                rintro ⟨halive, hstate, hidle⟩
                have hhead : c.functors.head? = some .closeAfterWriteCompleted := by rw [hlist]; rfl
                exact hshuts ⟨halive, .closeAfterWriteCompleted, hhead, rfl, hstate, hidle⟩
              simp only [countdown, hlist, if_neg hno]
  | _ => rfl

/-- Under the invariant the tick lemma is the deadline law for the half-close entry. -/
theorem CountsDown.kicksSilent {s : TcpConnection × Nat} (h : CountsDown n s) (e : Timed) :
    KicksSilent n s e := by
  cases e with
  | event e => trivial
  | tick =>
      obtain ⟨w, ages, hw, hcounts⟩ := h
      intro wheel hwheel
      rw [hw] at hwheel
      cases hwheel
      rw [← hcounts.tracks.due_iff, hcounts.size, Deadline.Due]
      cases hage : ages .halfClose with
      | none =>
          have hnot := (ages_eq_none_iff hcounts.tracks).mp hage
          simp [hnot]
      | some k =>
          have hin := inWheel_of_age hcounts.tracks hage
          rw [hcounts.age k hage]
          simp [hin]

/-- A renewal of the latest bucket finds the half-close entry with age zero. -/
theorem Counts.age_of_renews {s : TcpConnection × Nat} {w : TimeWheel WheelEntry}
    {ages : Deadline.Ages WheelEntry} (hcounts : Counts n s w ages) (hw : s.1.wheel = some w)
    (hlatest : RenewsLatest s (.event e)) (hrenews : s.1.onHandler renews e) {k : Nat}
    (hage : ages .halfClose = some k) : k = 0 := by
  have hin := inWheel_of_age hcounts.tracks hage
  have hindex := hlatest hrenews w hw hin
  rw [hcounts.tracks.age, if_pos (hcounts.tracks.inWheel_iff.mp hin), hindex,
    hcounts.tracks.wellFormed.age_latestIndex] at hage
  exact (Option.some_inj.mp hage).symm

/-- Step lemma for the connection: a step that renews only the latest bucket keeps
the countdown. -/
theorem CountsDown.event {s : TcpConnection × Nat} (h : CountsDown n s)
    (hlatest : RenewsLatest s (.event e)) (hok : s.1.step e = .ok c') :
    CountsDown n (c', s.1.countdown (.event e) s.2) := by
  obtain ⟨w, ages, hw, hcounts⟩ := h
  cases step_wheel hok with
  | kept hwheel hrenews hshuts hstate =>
      rw [countdown_of_not hrenews hshuts]
      refine ⟨w, ages, hwheel.trans hw, hcounts.tracks, hcounts.size, hcounts.age, ?_⟩
      intro hestablished
      rcases hstate with hsame | ⟨-, hhalfClose⟩
      · exact hcounts.established (hsame.symm.trans hestablished)
      · rw [hhalfClose] at hestablished
        cases hestablished
  | renewed hrenews hwheel hstate =>
      rw [hw] at hwheel
      obtain ⟨w', hw', hok'⟩ := hwheel
      obtain ⟨ages', htracks, hsize, hage⟩ := renewEntries_tracks hcounts.tracks hok'
      rw [countdown_of_renews hrenews]
      refine ⟨w', ages', hw', htracks, hsize.trans hcounts.size, ?_, ?_⟩
      · rw [hage]
        exact fun k hk => hcounts.age_of_renews hw hlatest hrenews hk
      · intro hestablished
        rw [hage]
        exact hcounts.established (hstate.symm.trans hestablished)
  | closed wheel hrenewed' hwheel hstate =>
      obtain ⟨w₁, ages₁, hw₁, htracks₁, hsize₁⟩ :
          ∃ w₁ ages₁, wheel = some w₁ ∧ w₁.Tracks ages₁ ∧ w₁.bucketSize = n := by
        rcases hrenewed' with rfl | ⟨-, hturns⟩
        · exact ⟨w, ages, hw, hcounts.tracks, hcounts.size⟩
        · rw [hw] at hturns
          obtain ⟨w₁, hw₁, hok₁⟩ := hturns
          obtain ⟨ages₁, htracks₁, hsize₁, -⟩ := renewEntries_tracks hcounts.tracks hok₁
          exact ⟨w₁, ages₁, hw₁, htracks₁, hsize₁.trans hcounts.size⟩
      rw [hw₁] at hwheel
      obtain ⟨w', hw', hok'⟩ := hwheel
      obtain ⟨ages', htracks, hsize, hage⟩ := removeEntries_tracks htracks₁ hok'
      refine ⟨w', ages', hw', htracks, hsize.trans hsize₁, ?_, fun _ => hage⟩
      intro k hk
      rw [hage] at hk
      cases hk
  | added hshuts hstate hstate' hwheel =>
      have hnew := (ages_eq_none_iff hcounts.tracks).mp (hcounts.established hstate)
      rw [countdown_of_shuts hshuts]
      refine ⟨w.addToWheel .halfClose, _, by rw [hwheel, hw]; rfl, hcounts.tracks.add hnew,
        ?_, ?_, ?_⟩
      · exact (hcounts.tracks.wellFormed.addToWheel_moves .halfClose).bucketSize.trans hcounts.size
      · intro k hk
        rw [Function.update_self] at hk
        exact (Option.some_inj.mp hk).symm
      · intro hestablished
        rw [hstate'] at hestablished
        cases hestablished

/-- Step lemma for the wheel: a tick makes the half-close entry one tick older. -/
theorem CountsDown.tick {s : TcpConnection × Nat} (h : CountsDown n s)
    (hok : s.1.tick = .ok c') : CountsDown n (c', s.1.countdown .tick s.2) := by
  obtain ⟨w, ages, hw, hcounts⟩ := h
  obtain ⟨t, closes, hadding, -, -, rfl⟩ :=
    tick_ok hw hcounts.tracks.wellFormed hcounts.tracks.placed hok
  have hlegal : w.Legal (.tick fun _ => []) := fun _ _ _ he => absurd he List.not_mem_nil
  obtain ⟨t', hadding', -, htracks, hsize⟩ := hcounts.tracks.tick hlegal
  rw [hadding] at hadding'
  cases hadding'
  have hadded : ¬Deadline.Added (w.bucketSize - 1) ages (fun _ => []) .halfClose := by
    rintro ⟨d, -, hd⟩
    cases hd
  refine ⟨t.wheel, _, rfl, htracks, hsize.trans hcounts.size, ?_, ?_⟩
  · intro k hk
    by_cases hdue : Deadline.Due (w.bucketSize - 1) ages .halfClose
    · rw [Deadline.older_of_due hadded hdue] at hk
      cases hk
    · rw [Deadline.older_of_not hadded hdue] at hk
      obtain ⟨k', hk', rfl⟩ := Option.map_eq_some_iff.mp hk
      rw [hcounts.age k' hk']
      rfl
  · intro hestablished
    have hnone := hcounts.established hestablished
    by_cases hdue : Deadline.Due (w.bucketSize - 1) ages .halfClose
    · exact Deadline.older_of_due hadded hdue
    · rw [Deadline.older_of_not hadded hdue, hnone]
      rfl

theorem makeTcpConnection_countsDown (epoll : Epoll Nat) (ctlAnswers : Nat → Answer Unit)
    {wheel : TimeWheel WheelEntry} (hwheel : wheel.WellFormed) (hsize : 2 ≤ wheel.bucketSize)
    (hempty : ∀ i, wheel.bucket i = []) (ptr : Nat) (fd : Int) :
    CountsDown wheel.bucketSize (makeTcpConnection epoll ctlAnswers (some wheel) ptr fd, 0) := by
  have htracks : wheel.Tracks fun _ => none := by
    refine ⟨hwheel, hsize, fun e i he => ?_, hempty _, fun e => ?_⟩
    · rw [hempty] at he
      cases he
    · rw [hempty, if_neg List.not_mem_nil]
  have hnew : ¬wheel.InWheel .idle := by
    rintro ⟨i, hi⟩
    rw [hempty] at hi
    cases hi
  have hhalfClose : Function.update (fun _ => none : Deadline.Ages WheelEntry) .idle (some 0)
      .halfClose = none := rfl
  refine ⟨wheel.addToWheel .idle, _, rfl, htracks.add hnew, ?_, ?_, fun _ => hhalfClose⟩
  · exact (hwheel.addToWheel_moves .idle).bucketSize
  · intro k hk
    rw [hhalfClose] at hk
    cases hk

/-- On a wheel of `n` buckets a half-closed connection is kicked on the last tick of
a countdown of `n - 1` ticks, which every handler starts again, in every run in
which handlers find its entry in the latest bucket. -/
theorem kicksSilent_of_renewsLatest (epoll : Epoll Nat) (ctlAnswers : Nat → Answer Unit)
    {wheel : TimeWheel WheelEntry} (hwheel : wheel.WellFormed) (hsize : 2 ≤ wheel.bucketSize)
    (hempty : ∀ i, wheel.bucket i = []) (ptr : Nat) (fd : Int) (events : List Timed)
    (hlatest : Run.Always (Run.recorded timedStep countdown) RenewsLatest
      (makeTcpConnection epoll ctlAnswers (some wheel) ptr fd, 0) events) :
    Run.Always (Run.recorded timedStep countdown) (KicksSilent wheel.bucketSize)
      (makeTcpConnection epoll ctlAnswers (some wheel) ptr fd, 0) events := by
  refine Run.always_of_always (J := CountsDown wheel.bucketSize) ?_ ?_ ?_ hlatest
  · rintro s e ⟨c', silent'⟩ hcounts hmeets hok
    obtain ⟨hstep, hrecord⟩ := Run.recorded_ok hok
    cases hrecord
    cases e with
    | event e => exact hcounts.event hmeets hstep
    | tick => exact hcounts.tick hstep
  · intro s e hcounts _
    exact hcounts.kicksSilent e
  · exact makeTcpConnection_countsDown epoll ctlAnswers hwheel hsize hempty ptr fd

/-- Three buckets: the connection is closed on one side, and two ticks go by. -/
theorem kicksSilent_of_renewsLatest_three :
    Run.Always (Run.recorded timedStep countdown) (KicksSilent 3)
      (makeTcpConnection Epoll.new (fun _ => .done ()) (some (TimeWheel.new 3)) 0 5, 0)
      [.event .close, .event .functor, .tick, .tick] := by
  apply kicksSilent_of_renewsLatest Epoll.new _ (TimeWheel.new_wellFormed (by decide)) (by decide)
    (TimeWheel.new_bucket 3)
  exact ⟨False.elim, fun _ _ => ⟨False.elim, fun _ _ => ⟨trivial, fun _ _ => ⟨trivial,
    fun _ _ => trivial⟩⟩⟩⟩

/-- Three buckets: a tick after the half-close, `handleIn` runs, and the next tick
kicks the connection nevertheless. -/
theorem kicksSilent_fails :
    ¬Run.Always (Run.recorded timedStep countdown) (KicksSilent 3)
      (makeTcpConnection Epoll.new (fun _ => .done ()) (some (TimeWheel.new 3)) 0 5, 0)
      [.event .close, .event .functor, .tick, .event (.dispatch (· == .IN)),
        .event (.handler (.done 0)), .tick] := by
  intro h
  have hkick := (((((h.2 _ rfl).2 _ rfl).2 _ rfl).2 _ rfl).2 _ rfl).1 _ rfl
  have hsilent := (hkick.mp (by decide)).2
  cases hsilent

end TcpConnection

end Netpp
