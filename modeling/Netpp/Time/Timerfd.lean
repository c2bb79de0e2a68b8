import Mathlib.Algebra.Order.Ring.Int
import Netpp.Library.Run
import Netpp.Time.TimerImpl

/-!
# A timer and its timerfd

The kernel keeps for a timerfd when it expires next and with which period. The
methods of `Timer` change its own fields and, under conditions that differ from method
to method, the settings of the timerfd; an expiry changes the timerfd only. `Matches`
says that the fields and the timerfd agree, and `KeepsMatching` is the condition on a
step under which they still do afterwards.

The callback of the user may call any of the methods, so what it does is the methods
that come after the expiry.
-/

namespace Netpp

/-- The settings of a timerfd, in nanoseconds; a timerfd that is not armed has no
next expiry. -/
structure Timerfd where
  expiry : Option Int
  interval : Int
  deriving DecidableEq

namespace Timerfd

/-- `::timerfd_settime` with an absolute time. The kernel refuses a `timespec` that is
negative or not normal, and a time of zero disarms. -/
def settime (t : Timerfd) (spec : Itimerspec) : Timerfd :=
  if (0 ≤ spec.value.sec ∧ spec.value.Normal) ∧ 0 ≤ spec.interval.sec ∧ spec.interval.Normal then
    ⟨if spec.value.toNanoseconds = 0 then none else some spec.value.toNanoseconds,
      spec.interval.toNanoseconds⟩
  else t -- EINVAL

/-- The timer expires: it is armed for the next period, if it has one. -/
def expire (t : Timerfd) (time : Int) : Timerfd :=
  { t with expiry := if t.interval = 0 then none else some (time + t.interval) }

end Timerfd

/-- An interval that a timer may be given: an `unsigned` of at least a millisecond. -/
structure Interval where
  mSec : Nat
  pos : 1 ≤ mSec
  lt : mSec < 2 ^ 32

/-- A timer with its timerfd, and the monotonic clock. -/
structure ArmedTimer where
  timer : Timer
  timerfd : Timerfd
  now : ClockReading
  /-- When the timer was last armed by a call of `setAndRun`, or last expired. It is no
  field of the program. -/
  since : Int

namespace ArmedTimer

/-! ## The methods -/

/-- `m_impl->triggerOnceIn`. -/
def triggerOnceIn (s : ArmedTimer) (startInMSec : Nat) : ArmedTimer :=
  { s with
    timerfd := s.timerfd.settime (TimerImpl.triggerOnceIn s.now startInMSec)
    since := s.now.toNanoseconds }

/-- `m_impl->runRepeatedly`. -/
def runRepeatedly (s : ArmedTimer) (intervalInMSec : Nat) : ArmedTimer :=
  { s with
    timerfd := s.timerfd.settime (TimerImpl.runRepeatedly s.now intervalInMSec)
    since := s.now.toNanoseconds }

def setInterval (s : ArmedTimer) (mSec : Nat) : ArmedTimer :=
  let s : ArmedTimer := { s with timer := s.timer.setInterval mSec }
  if s.timer.running then -- if running, affect immediately
    if s.timer.singleShot then s.triggerOnceIn mSec else s.runRepeatedly mSec
  else s

def setSingleShot (s : ArmedTimer) (singleShot : Bool) : ArmedTimer :=
  if s.timer.singleShot = singleShot then s
  else
    let s : ArmedTimer := { s with timer := s.timer.setSingleShot singleShot }
    if s.timer.running then
      -- if set to single shot, set interval to 0
      if s.timer.singleShot then s.triggerOnceIn 0 else s.runRepeatedly s.timer.interval
    else s

def start (s : ArmedTimer) : ArmedTimer :=
  if s.timer.running then s
  else
    let s : ArmedTimer := { s with timer := s.timer.start }
    if s.timer.singleShot then s.triggerOnceIn s.timer.interval
    else s.runRepeatedly s.timer.interval

def stop (s : ArmedTimer) : ArmedTimer :=
  if s.timer.running then
    { s with
      timer := { s.timer with running := false }
      timerfd := s.timerfd.settime TimerImpl.stop }
  else s

/-! ## Steps -/

inductive Event where
  | setInterval (interval : Interval)
  | setSingleShot (singleShot : Bool)
  | start
  | stop
  /-- The timerfd expires, and the loop calls `onTimeOut`, which changes no field. -/
  | expire
  /-- Time goes on. -/
  | tick (now : ClockReading)

inductive Halt where
  /-- The timerfd is not due, or the clock would go back. -/
  | disabled
  deriving DecidableEq

def step (s : ArmedTimer) : Event → Except Halt ArmedTimer
  | .setInterval interval => .ok (s.setInterval interval.mSec)
  | .setSingleShot singleShot => .ok (s.setSingleShot singleShot)
  | .start => .ok s.start
  | .stop => .ok s.stop
  | .expire =>
      match s.timerfd.expiry with
      | none => .error .disabled
      | some time =>
          if time ≤ s.now.toNanoseconds then
            .ok { s with timerfd := s.timerfd.expire time, since := time }
          else .error .disabled
  | .tick now =>
      if s.now.toNanoseconds ≤ now.toNanoseconds then .ok { s with now := now }
      else .error .disabled

/-- A timer that has just been made, whose handler's event is at `ptr`. -/
def new (ptr : Nat) (fd : Int) (now : ClockReading) : ArmedTimer :=
  ⟨Timer.new ptr fd, ⟨none, 0⟩, now, now.toNanoseconds⟩

/-! ## The property and the condition -/

/-- The settings that belong to an interval and to a time from which it counts. -/
def settings (since : Int) (interval : Nat) (singleShot : Bool) : Timerfd :=
  ⟨some (since + nanoseconds interval), if singleShot then 0 else nanoseconds interval⟩

/-- The fields and the timerfd agree: the timer is running exactly when the timerfd is
armed, and it is armed for the interval after the last arming or expiry, with the
interval as its period unless the timer is a single shot. -/
structure Matches (s : ArmedTimer) : Prop where
  running_iff : s.timer.running = true ↔ s.timerfd.expiry.isSome = true
  settings_eq : s.timerfd.expiry.isSome = true →
    s.timerfd = settings s.since s.timer.interval s.timer.singleShot

/-- After the step the fields and the timerfd agree, and a timer that has been started
is armed. -/
def StaysMatching (_ : ArmedTimer) (e : Event) (s' : ArmedTimer) : Prop :=
  s'.Matches ∧ (e = .start → s'.timerfd.expiry.isSome = true)

/-- Arming the timer for `interval` from now on works: the expiry is a normal time, or
the timerfd has these settings already. -/
def Armable (s : ArmedTimer) (interval : Nat) : Prop :=
  TimerImpl.NormalExpiry s.now interval ∨
    s.timerfd = settings s.now.toNanoseconds interval s.timer.singleShot

/-- The condition on a step: a timer that the call arms can be armed, one that runs is
not made a single shot, and no single shot expires. -/
def KeepsMatching (s : ArmedTimer) : Event → ArmedTimer → Prop
  | .setInterval interval, _ => s.timer.running = true → s.Armable interval.mSec
  | .setSingleShot singleShot, _ => s.timer.running = true → s.timer.singleShot ≠ singleShot →
      singleShot = false ∧ TimerImpl.NormalExpiry s.now s.timer.interval
  | .start, _ => s.timer.running = false → TimerImpl.NormalExpiry s.now s.timer.interval
  | .stop, _ => True
  | .expire, _ => s.timer.singleShot = false
  | .tick _, _ => True

/-! ## The kernel -/

theorem settime_of_normal (t : Timerfd) {now : ClockReading} {interval : Nat} (singleShot : Bool)
    (hpos : 1 ≤ interval) (h : TimerImpl.NormalExpiry now interval) :
    t.settime (TimerImpl.setAndRun now interval !singleShot) =
      settings now.toNanoseconds interval singleShot := by
  obtain ⟨hvalue, htime⟩ := TimerImpl.setAndRun_value_of_normal (!singleShot) h
  obtain ⟨hperiod, hlength⟩ := TimerImpl.setAndRun_interval now interval !singleShot
  have hpositive : 0 < now.toNanoseconds + nanoseconds interval := by
    simp only [ClockReading.toNanoseconds, nanoseconds]
    omega
  have hnonneg : 0 ≤ if (!singleShot) = true then nanoseconds interval else 0 := by
    simp only [nanoseconds]
    split <;> omega
  have hsec : 0 ≤ (TimerImpl.setAndRun now interval !singleShot).value.sec := by
    simp only [Timespec.toNanoseconds, Timespec.Normal] at htime hvalue
    omega
  have hperiodSec : 0 ≤ (TimerImpl.setAndRun now interval !singleShot).interval.sec := by
    rw [← hlength] at hnonneg
    simp only [Timespec.toNanoseconds, Timespec.Normal] at hnonneg hperiod
    omega
  rw [Timerfd.settime, if_pos ⟨⟨hsec, hvalue⟩, hperiodSec, hperiod⟩, htime, hlength,
    if_neg hpositive.ne', settings]
  cases singleShot <;> rfl

/-- The kernel refuses any other expiry. -/
theorem settime_of_not_normal (t : Timerfd) {now : ClockReading} {interval : Nat}
    (repeats : Bool) (hlt : interval < 2 ^ 32) (h : ¬TimerImpl.NormalExpiry now interval) :
    t.settime (TimerImpl.setAndRun now interval repeats) = t := by
  refine if_neg ?_
  rintro ⟨⟨hsec, hvalue⟩, -⟩
  by_cases hcarry : now.nsec + interval % 1000 * 1000000 = 1000000000
  · exact TimerImpl.setAndRun_value_of_carry hcarry hvalue
  · have hover : 2 ^ 63 * 1000000000 ≤ now.toNanoseconds + nanoseconds interval := by
      by_contra hfits
      exact h ⟨hcarry, not_le.mp hfits⟩
    exact absurd hsec (not_le.mpr (TimerImpl.setAndRun_value_of_overflow _ hlt hcarry hover))

/-- To be triggered in no time is to have no interval. -/
theorem settime_now (t : Timerfd) (now : ClockReading) :
    (t.settime (TimerImpl.triggerOnceIn now 0)).expiry = none ∨
      (t.settime (TimerImpl.triggerOnceIn now 0)).expiry = some now.toNanoseconds := by
  have hnormal : TimerImpl.NormalExpiry now 0 := by
    have hsec := now.sec_lt
    have hnsec := now.nsec_lt
    simp only [TimerImpl.NormalExpiry, ClockReading.toNanoseconds, nanoseconds]
    omega
  obtain ⟨hvalue, htime⟩ := TimerImpl.setAndRun_value_of_normal false hnormal
  obtain ⟨hperiod, hlength⟩ := TimerImpl.setAndRun_interval now 0 false
  rw [show nanoseconds 0 = 0 from rfl, add_zero] at htime
  have hsec : 0 ≤ (TimerImpl.setAndRun now 0 false).value.sec := by
    simp only [Timespec.toNanoseconds, Timespec.Normal, ClockReading.toNanoseconds] at htime hvalue
    omega
  rw [TimerImpl.triggerOnceIn, Timerfd.settime, if_pos ⟨⟨hsec, hvalue⟩, le_rfl, hperiod⟩, htime]
  by_cases hzero : now.toNanoseconds = 0
  · exact .inl (if_pos hzero)
  · exact .inr (if_neg hzero)

/-! ## One step -/

variable {s s' : ArmedTimer}

theorem matches_of_running (hrunning : s.timer.running = true) :
    s.Matches ↔ s.timerfd = settings s.since s.timer.interval s.timer.singleShot := by
  constructor
  · intro h
    exact h.settings_eq (h.running_iff.mp hrunning)
  · intro h
    have harmed : s.timerfd.expiry.isSome = true := by rw [h]; rfl
    exact ⟨by simp [hrunning, harmed], fun _ => h⟩

theorem matches_of_stopped (hstopped : s.timer.running = false) :
    s.Matches ↔ s.timerfd.expiry = none := by
  constructor
  · intro h
    rw [← Option.not_isSome_iff_eq_none, ← h.running_iff, hstopped]
    exact Bool.false_ne_true
  · intro h
    exact ⟨by simp [hstopped, h], by simp [h]⟩

/-- Arming the timer as its kind asks for, which `setInterval` and `start` do. -/
def arm (s : ArmedTimer) (interval : Nat) : ArmedTimer :=
  if s.timer.singleShot then s.triggerOnceIn interval else s.runRepeatedly interval

theorem arm_of_not_singleShot {interval : Nat} (h : s.timer.singleShot = false) :
    s.arm interval = s.runRepeatedly interval := by
  rw [arm, h, if_neg Bool.false_ne_true]

@[simp] theorem arm_timer (s : ArmedTimer) (interval : Nat) : (s.arm interval).timer = s.timer := by
  unfold arm
  split <;> rfl

@[simp] theorem arm_now (s : ArmedTimer) (interval : Nat) : (s.arm interval).now = s.now := by
  unfold arm
  split <;> rfl

@[simp] theorem arm_since (s : ArmedTimer) (interval : Nat) :
    (s.arm interval).since = s.now.toNanoseconds := by
  unfold arm
  split <;> rfl

theorem arm_timerfd (s : ArmedTimer) (interval : Nat) :
    (s.arm interval).timerfd =
      s.timerfd.settime (TimerImpl.setAndRun s.now interval !s.timer.singleShot) := by
  unfold arm
  cases s.timer.singleShot <;> rfl

/-- A timer that has been armed matches its timerfd exactly if it could be armed. -/
theorem arm_matches_iff (interval : Nat) (hrunning : s.timer.running = true)
    (hinterval : s.timer.interval = interval) (hpos : 1 ≤ interval) (hlt : interval < 2 ^ 32) :
    (s.arm interval).Matches ↔ s.Armable interval := by
  rw [matches_of_running (by rwa [arm_timer]), arm_timer, arm_since, arm_timerfd, hinterval]
  by_cases hnormal : TimerImpl.NormalExpiry s.now interval
  · rw [settime_of_normal _ _ hpos hnormal]
    exact ⟨fun _ => .inl hnormal, fun _ => rfl⟩
  · rw [settime_of_not_normal _ _ hlt hnormal]
    exact ⟨.inr, fun h => h.resolve_left hnormal⟩

/-- A timerfd with another expiry or another period does not have the settings already. -/
theorem armable_iff_of_ne {interval : Nat} (h : s.timerfd.expiry = none ∨
      s.timerfd.interval ≠ if s.timer.singleShot then 0 else nanoseconds interval) :
    s.Armable interval ↔ TimerImpl.NormalExpiry s.now interval := by
  refine or_iff_left ?_
  intro heq
  rw [heq] at h
  exact h.elim (fun hnone => Option.some_ne_none _ hnone) (fun hne => hne rfl)

/-- The invariant: the fields and the timerfd agree, and the interval is one that the
timer may be given. -/
structure InStep (s : ArmedTimer) : Prop where
  agrees : s.Matches
  pos : 1 ≤ s.timer.interval
  lt : s.timer.interval < 2 ^ 32

theorem new_inStep (ptr : Nat) (fd : Int) (now : ClockReading) : (new ptr fd now).InStep where
  agrees := (matches_of_stopped rfl).mpr rfl
  pos := show 1 ≤ 1000 by decide
  lt := show 1000 < 2 ^ 32 by decide

theorem InStep.setInterval_iff (h : s.InStep) (interval : Interval) :
    (s.setInterval interval.mSec).Matches ↔
      (s.timer.running = true → s.Armable interval.mSec) := by
  have harm : s.setInterval interval.mSec =
      if s.timer.running then
        arm { s with timer := s.timer.setInterval interval.mSec } interval.mSec
      else { s with timer := s.timer.setInterval interval.mSec } := rfl
  cases hrunning : s.timer.running with
  | false =>
      rw [harm, hrunning, if_neg Bool.false_ne_true, matches_of_stopped (s := { s with
        timer := s.timer.setInterval interval.mSec }) hrunning]
      simpa using (matches_of_stopped hrunning).mp h.agrees
  | true =>
      rw [harm, hrunning, if_pos rfl]
      rw [arm_matches_iff (s := { s with timer := s.timer.setInterval interval.mSec })
        interval.mSec hrunning rfl interval.pos interval.lt]
      exact ⟨fun harmable _ => harmable, fun harmable => harmable rfl⟩

/-- A running timer that becomes a single shot expires at once. -/
theorem triggerOnceIn_not_matches (hrunning : s.timer.running = true)
    (hpos : 1 ≤ s.timer.interval) : ¬(s.triggerOnceIn 0).Matches := by
  rw [matches_of_running (s := s.triggerOnceIn 0) hrunning]
  intro heq
  have hexpiry := congrArg Timerfd.expiry heq
  rcases settime_now s.timerfd s.now with hnone | hsome
  · rw [show (s.triggerOnceIn 0).timerfd.expiry = none from hnone] at hexpiry
    cases hexpiry
  · rw [show (s.triggerOnceIn 0).timerfd.expiry = _ from hsome] at hexpiry
    injection hexpiry with hexpiry
    change s.now.toNanoseconds = s.now.toNanoseconds + nanoseconds s.timer.interval at hexpiry
    simp only [nanoseconds] at hexpiry
    omega

theorem InStep.setSingleShot_iff (h : s.InStep) (singleShot : Bool) :
    (s.setSingleShot singleShot).Matches ↔
      (s.timer.running = true → s.timer.singleShot ≠ singleShot →
        singleShot = false ∧ TimerImpl.NormalExpiry s.now s.timer.interval) := by
  by_cases hsame : s.timer.singleShot = singleShot
  · rw [setSingleShot, if_pos hsame]
    exact ⟨fun _ _ hne => absurd hsame hne, fun _ => h.agrees⟩
  · rw [setSingleShot, if_neg hsame]
    dsimp only
    cases hrunning : s.timer.running with
    | false =>
        rw [Timer.setSingleShot_running, hrunning, if_neg Bool.false_ne_true,
          matches_of_stopped (s := { s with timer := s.timer.setSingleShot singleShot }) hrunning]
        simpa using (matches_of_stopped hrunning).mp h.agrees
    | true =>
        rw [Timer.setSingleShot_running, hrunning, if_pos rfl, Timer.setSingleShot_singleShot]
        cases singleShot with
        | true =>
            have hnot := triggerOnceIn_not_matches
              (s := { s with timer := s.timer.setSingleShot true }) hrunning h.pos
            simp [hnot, hsame]
        | false =>
            rw [Bool.not_eq_false] at hsame
            -- the timerfd has no period yet
            have hperiod : s.timerfd.interval ≠ nanoseconds s.timer.interval := by
              have hpos := h.pos
              rw [(matches_of_running hrunning).mp h.agrees, hsame]
              simp only [settings, if_true, nanoseconds]
              omega
            rw [if_neg Bool.false_ne_true, Timer.setSingleShot_interval,
              ← arm_of_not_singleShot (s := { s with timer := s.timer.setSingleShot false }) rfl,
              arm_matches_iff (s := { s with timer := s.timer.setSingleShot false })
                s.timer.interval hrunning rfl h.pos h.lt,
              armable_iff_of_ne (.inr hperiod)]
            simp [hsame]

theorem step_tick {now : ClockReading} (h : s.now.toNanoseconds ≤ now.toNanoseconds) :
    step s (.tick now) = .ok { s with now := now } :=
  if_pos h

theorem step_expire {time : Int} (hexpiry : s.timerfd.expiry = some time)
    (h : time ≤ s.now.toNanoseconds) :
    step s .expire = .ok { s with timerfd := s.timerfd.expire time, since := time } := by
  rw [step, hexpiry]
  exact if_pos h

theorem start_of_stopped (hstopped : s.timer.running = false) :
    s.start = arm { s with timer := s.timer.start } s.timer.interval := by
  rw [start, hstopped]
  rfl

theorem InStep.start_iff (h : s.InStep) :
    s.start.Matches ↔
      (s.timer.running = false → TimerImpl.NormalExpiry s.now s.timer.interval) := by
  cases hrunning : s.timer.running with
  | true =>
      rw [start, if_pos hrunning]
      simpa using h.agrees
  | false =>
      have hnone : s.timerfd.expiry = none := (matches_of_stopped hrunning).mp h.agrees
      rw [start_of_stopped hrunning, arm_matches_iff (s := { s with timer := s.timer.start })
        s.timer.interval rfl rfl h.pos h.lt,
        armable_iff_of_ne (s := { s with timer := s.timer.start }) (.inl hnone)]
      exact ⟨fun hnormal _ => hnormal, fun hnormal => hnormal rfl⟩

theorem InStep.stop (h : s.InStep) : s.stop.Matches := by
  unfold ArmedTimer.stop
  cases hrunning : s.timer.running with
  | true => exact (matches_of_stopped rfl).mpr rfl
  | false => exact h.agrees

/-- A periodic timer is armed again by its expiry, and a single shot is not. -/
theorem InStep.expire_iff (h : s.InStep) {time : Int} (hexpiry : s.timerfd.expiry = some time) :
    Matches { s with timerfd := s.timerfd.expire time, since := time } ↔
      s.timer.singleShot = false := by
  have hrunning : s.timer.running = true := h.agrees.running_iff.mpr (by rw [hexpiry]; rfl)
  have hsettings := (matches_of_running hrunning).mp h.agrees
  have hpos := h.pos
  rw [matches_of_running (s := { s with timerfd := s.timerfd.expire time, since := time }) hrunning]
  change s.timerfd.expire time = settings time s.timer.interval s.timer.singleShot ↔ _
  rw [hsettings]
  cases s.timer.singleShot with
  | true => simp [Timerfd.expire, settings]
  | false =>
      have hne : nanoseconds s.timer.interval ≠ 0 := by
        simp only [nanoseconds]
        omega
      simp [Timerfd.expire, settings, hne]

/-- Step lemma: a step of a timer that matches its timerfd keeps the two matching exactly
if it meets the condition. -/
theorem InStep.matches_iff (h : s.InStep) {e : Event} (hok : step s e = .ok s') :
    s'.Matches ↔ s.KeepsMatching e s' := by
  cases e with
  | setInterval interval =>
      cases hok
      exact h.setInterval_iff interval
  | setSingleShot singleShot =>
      cases hok
      exact h.setSingleShot_iff singleShot
  | start =>
      cases hok
      exact h.start_iff
  | stop =>
      cases hok
      exact ⟨fun _ => trivial, fun _ => h.stop⟩
  | expire =>
      rw [step] at hok
      cases hexpiry : s.timerfd.expiry with
      | none =>
          rw [hexpiry] at hok
          cases hok
      | some time =>
          simp only [hexpiry] at hok
          split at hok
          · cases hok
            exact h.expire_iff hexpiry
          · cases hok
  | tick now =>
      rw [step] at hok
      split at hok
      · cases hok
        exact ⟨fun _ => trivial, fun _ => ⟨h.agrees.running_iff, h.agrees.settings_eq⟩⟩
      · cases hok

/-- A timer that has been started runs. -/
theorem start_running (s : ArmedTimer) : s.start.timer.running = true := by
  unfold start
  by_cases hrunning : s.timer.running = true
  · rw [if_pos hrunning]
    exact hrunning
  · rw [if_neg hrunning]
    dsimp only
    split <;> rfl

theorem InStep.staysMatching_iff (h : s.InStep) {e : Event} (hok : step s e = .ok s') :
    s.StaysMatching e s' ↔ s.KeepsMatching e s' := by
  rw [← h.matches_iff hok]
  refine ⟨And.left, fun hmatches => ⟨hmatches, ?_⟩⟩
  rintro rfl
  cases hok
  exact hmatches.running_iff.mp s.start_running

/-- No step gives the timer an interval that it may not have. -/
theorem interval_step {e : Event} (hok : step s e = .ok s') :
    s'.timer.interval = s.timer.interval ∨
      ∃ interval : Interval, s'.timer.interval = interval.mSec := by
  cases e with
  | setInterval interval =>
      cases hok
      refine .inr ⟨interval, ?_⟩
      unfold setInterval
      dsimp only
      split
      · split <;> rfl
      · rfl
  | setSingleShot singleShot =>
      cases hok
      refine .inl ?_
      unfold setSingleShot
      dsimp only
      split
      · rfl
      · split
        · split <;> rfl
        · rfl
  | start =>
      cases hok
      refine .inl ?_
      unfold start
      dsimp only
      split
      · rfl
      · split <;> rfl
  | stop =>
      cases hok
      refine .inl ?_
      unfold stop
      split <;> rfl
  | expire =>
      rw [step] at hok
      split at hok
      · cases hok
      · split at hok
        · cases hok
          exact .inl rfl
        · cases hok
  | tick now =>
      rw [step] at hok
      split at hok
      · cases hok
        exact .inl rfl
      · cases hok

theorem InStep.step (h : s.InStep) {e : Event} (hkeeps : s.KeepsMatching e s')
    (hok : ArmedTimer.step s e = .ok s') : s'.InStep := by
  refine ⟨(h.matches_iff hok).mpr hkeeps, ?_, ?_⟩
  · rcases interval_step hok with hsame | ⟨interval, hnew⟩
    · exact hsame ▸ h.pos
    · exact hnew ▸ interval.pos
  · rcases interval_step hok with hsame | ⟨interval, hnew⟩
    · exact hsame ▸ h.lt
    · exact hnew ▸ interval.lt

/-- Along every run of the methods and the expiries of a new timer, the timer matches its
timerfd after each step exactly if each step meets the condition. -/
theorem staysMatching_iff_keepsMatching (ptr : Nat) (fd : Int) (now : ClockReading)
    (es : List Event) :
    Run.Always step (Run.Each step StaysMatching) (new ptr fd now) es ↔
      Run.Always step (Run.Each step KeepsMatching) (new ptr fd now) es := by
  apply Run.always_each_iff (J := InStep) _ _ (new_inStep ptr fd now)
  · intro s e s' h hkeeps hok
    exact h.step hkeeps hok
  · intro s e s' h hok
    exact h.staysMatching_iff hok

/-- A single shot is started at five seconds and expires at six: its timerfd is not armed
any more, but the timer is still running. -/
theorem staysMatching_fails :
    ¬Run.Always step (Run.Each step StaysMatching) (new 0 3 ⟨5, 0, by decide, by decide⟩)
      [.start, .tick ⟨6, 0, by decide, by decide⟩, .expire] := by
  intro h
  have hstart := start_of_stopped (s := new 0 3 ⟨5, 0, by decide, by decide⟩) rfl
  have hnow := congrArg ArmedTimer.now hstart
  have htimerfd := congrArg ArmedTimer.timerfd hstart
  rw [arm_now] at hnow
  rw [arm_timerfd] at htimerfd
  replace htimerfd := htimerfd.trans
    (settime_of_normal _ true (by decide : 1 ≤ 1000) (by decide))
  have hticked := (h.2 _ rfl).2 _ (step_tick (by rw [hnow]; decide))
  have hexpired := hticked.1 _ (step_expire (congrArg Timerfd.expiry htimerfd) (by decide))
  have harmed := hexpired.1.running_iff.mp (start_running _)
  rw [htimerfd] at harmed
  exact Bool.false_ne_true harmed

end ArmedTimer

end Netpp
