import Netpp.Library.Word
import Netpp.Time.Timer

/-!
# What a timer asks the kernel for

`TimerImpl::setAndRun` reads the monotonic clock and computes when the timer expires
next, as a `timespec` of seconds and nanoseconds. `timerfd_settime` accepts only a
`timespec` whose nanoseconds are less than a second, and the source carries from the
nanoseconds to the seconds. The carry is not made when the nanoseconds add up to
exactly one second. `DenotesExpiry` says what the settings must be and
`NormalExpiry` when they are.
-/

namespace Netpp

/-- `::timespec`. -/
structure Timespec where
  sec : Int
  nsec : Int
  deriving DecidableEq

namespace Timespec

/-- The time it denotes, in nanoseconds. -/
def toNanoseconds (t : Timespec) : Int := t.sec * 1000000000 + t.nsec

/-- The nanoseconds are less than a second. -/
def Normal (t : Timespec) : Prop := 0 ≤ t.nsec ∧ t.nsec < 1000000000

instance (t : Timespec) : Decidable t.Normal := inferInstanceAs (Decidable (_ ∧ _))

end Timespec

/-- `::itimerspec`: when the timer expires first, and its period. -/
structure Itimerspec where
  interval : Timespec
  value : Timespec
  deriving DecidableEq

/-- A reading of the monotonic clock. -/
structure ClockReading where
  sec : Nat
  nsec : Nat
  sec_lt : sec < 2 ^ 63
  nsec_lt : nsec < 1000000000

def ClockReading.toNanoseconds (now : ClockReading) : Int := now.sec * 1000000000 + now.nsec

/-- Milliseconds as nanoseconds. -/
def nanoseconds (mSec : Nat) : Int := mSec * 1000000

namespace TimerImpl

/-- The settings that `setAndRun` passes to `timerfd_settime`. The overflow of a
`time_t` is undefined; here it wraps around. -/
def setAndRun (now : ClockReading) (intervalInMSec : Nat) (repeats : Bool) : Itimerspec :=
  let sec := Signed64.add now.sec (intervalInMSec / 1000 : Nat)
  let nSec : Int := now.nsec + (intervalInMSec % 1000 : Nat) * 1000 * 1000
  let value : Timespec :=
    if 1000000000 < nSec then ⟨Signed64.add sec 1, nSec - 1000000000⟩ else ⟨sec, nSec⟩
  let interval : Timespec :=
    if repeats then
      ⟨(intervalInMSec / 1000 : Nat), (intervalInMSec % 1000 : Nat) * 1000 * 1000⟩
    else ⟨0, 0⟩ -- if one shot
  ⟨interval, value⟩

def triggerOnceIn (now : ClockReading) (startInMSec : Nat) : Itimerspec :=
  setAndRun now startInMSec false

def runRepeatedly (now : ClockReading) (intervalInMSec : Nat) : Itimerspec :=
  setAndRun now intervalInMSec true

/-- The settings that `stop` passes. -/
def stop : Itimerspec := ⟨⟨0, 0⟩, ⟨0, 0⟩⟩

/-! ## The absolute expiry -/

/-- The first expiry is a normal time and lies exactly the interval after the reading
of the clock; the period is the interval, or zero. -/
structure DenotesExpiry (now : ClockReading) (intervalInMSec : Nat) (repeats : Bool)
    (spec : Itimerspec) : Prop where
  value_normal : spec.value.Normal
  value : spec.value.toNanoseconds = now.toNanoseconds + nanoseconds intervalInMSec
  interval_normal : spec.interval.Normal
  interval : spec.interval.toNanoseconds = if repeats then nanoseconds intervalInMSec else 0

/-- The nanoseconds do not add up to exactly one second, and the expiry is a time that
a `time_t` can hold. -/
def NormalExpiry (now : ClockReading) (intervalInMSec : Nat) : Prop :=
  now.nsec + intervalInMSec % 1000 * 1000000 ≠ 1000000000 ∧
    now.toNanoseconds + nanoseconds intervalInMSec < 2 ^ 63 * 1000000000

instance (now : ClockReading) (intervalInMSec : Nat) :
    Decidable (NormalExpiry now intervalInMSec) :=
  inferInstanceAs (Decidable (_ ∧ _))

variable {now : ClockReading} {intervalInMSec : Nat} {repeats : Bool}

/-- The period is always right. -/
theorem setAndRun_interval (now : ClockReading) (intervalInMSec : Nat) (repeats : Bool) :
    (setAndRun now intervalInMSec repeats).interval.Normal ∧
      (setAndRun now intervalInMSec repeats).interval.toNanoseconds =
        if repeats then nanoseconds intervalInMSec else 0 := by
  have hmod := Nat.mod_lt intervalInMSec (y := 1000) (by decide)
  cases repeats with
  | false => simp [setAndRun, Timespec.Normal, Timespec.toNanoseconds]
  | true =>
      simp only [setAndRun, Timespec.Normal, Timespec.toNanoseconds, nanoseconds, if_true]
      omega

/-- With a carry the expiry is given by the next second. -/
theorem setAndRun_value_of_lt (h : 1000000000 < now.nsec + intervalInMSec % 1000 * 1000000) :
    (setAndRun now intervalInMSec repeats).value =
      ⟨Signed64.add (Signed64.add now.sec (intervalInMSec / 1000 : Nat)) 1,
        now.nsec + (intervalInMSec % 1000 : Nat) * 1000 * 1000 - 1000000000⟩ :=
  if_pos (by omega)

theorem setAndRun_value_of_le (h : now.nsec + intervalInMSec % 1000 * 1000000 ≤ 1000000000) :
    (setAndRun now intervalInMSec repeats).value =
      ⟨Signed64.add now.sec (intervalInMSec / 1000 : Nat),
        now.nsec + (intervalInMSec % 1000 : Nat) * 1000 * 1000⟩ :=
  if_neg (by omega)

/-- A normal expiry is the reading of the clock plus the interval. -/
theorem setAndRun_value_of_normal (repeats : Bool) (h : NormalExpiry now intervalInMSec) :
    (setAndRun now intervalInMSec repeats).value.Normal ∧
      (setAndRun now intervalInMSec repeats).value.toNanoseconds =
        now.toNanoseconds + nanoseconds intervalInMSec := by
  obtain ⟨hcarry, hfits⟩ := h
  have hmod := Nat.mod_lt intervalInMSec (y := 1000) (by decide)
  have hnsec := now.nsec_lt
  simp only [ClockReading.toNanoseconds, nanoseconds] at hfits
  have hsec : Signed64.add now.sec (intervalInMSec / 1000 : Nat) =
      now.sec + (intervalInMSec / 1000 : Nat) :=
    Signed64.add_of_lt (by omega) (by omega)
  rcases Nat.lt_or_ge 1000000000 (now.nsec + intervalInMSec % 1000 * 1000000) with hlt | hle
  · have hnext : Signed64.add (now.sec + (intervalInMSec / 1000 : Nat)) 1 =
        now.sec + (intervalInMSec / 1000 : Nat) + 1 :=
      Signed64.add_of_lt (by omega) (by omega)
    rw [setAndRun_value_of_lt hlt, hsec, hnext]
    simp only [Timespec.Normal, Timespec.toNanoseconds, ClockReading.toNanoseconds, nanoseconds]
    omega
  · rw [setAndRun_value_of_le hle, hsec]
    simp only [Timespec.Normal, Timespec.toNanoseconds, ClockReading.toNanoseconds, nanoseconds]
    omega

/-- A carry that is missing leaves a whole second in the nanoseconds. -/
theorem setAndRun_value_of_carry
    (h : now.nsec + intervalInMSec % 1000 * 1000000 = 1000000000) :
    ¬(setAndRun now intervalInMSec repeats).value.Normal := by
  rw [setAndRun_value_of_le (Nat.le_of_eq h)]
  simp only [Timespec.Normal]
  omega

/-- A time that a `time_t` cannot hold is before the start of the clock. -/
theorem setAndRun_value_of_overflow (repeats : Bool) (hinterval : intervalInMSec < 2 ^ 32)
    (hcarry : now.nsec + intervalInMSec % 1000 * 1000000 ≠ 1000000000)
    (h : 2 ^ 63 * 1000000000 ≤ now.toNanoseconds + nanoseconds intervalInMSec) :
    (setAndRun now intervalInMSec repeats).value.sec < 0 := by
  have hmod := Nat.mod_lt intervalInMSec (y := 1000) (by decide)
  have hsec := now.sec_lt
  have hnsec := now.nsec_lt
  simp only [ClockReading.toNanoseconds, nanoseconds] at h
  rcases Nat.lt_or_ge 1000000000 (now.nsec + intervalInMSec % 1000 * 1000000) with hlt | hle
  · rw [setAndRun_value_of_lt hlt]
    dsimp only
    rcases Int.lt_or_le (now.sec + (intervalInMSec / 1000 : Nat)) (2 ^ 63) with hfits | hwraps
    · rw [Signed64.add_of_lt (by omega) hfits, Signed64.add_of_le (by omega) (by omega)]
      omega
    · rw [Signed64.add_of_le hwraps (by omega), Signed64.add_of_lt (by omega) (by omega)]
      omega
  · rw [setAndRun_value_of_le hle]
    dsimp only
    rw [Signed64.add_of_le (by omega) (by omega)]
    omega

/-- The settings denote the expiry exactly if it is a normal one. -/
theorem denotesExpiry_iff (hinterval : intervalInMSec < 2 ^ 32) :
    DenotesExpiry now intervalInMSec repeats (setAndRun now intervalInMSec repeats) ↔
      NormalExpiry now intervalInMSec := by
  constructor
  · intro h
    have hcarry : now.nsec + intervalInMSec % 1000 * 1000000 ≠ 1000000000 :=
      fun hsecond => setAndRun_value_of_carry hsecond h.value_normal
    refine ⟨hcarry, ?_⟩
    by_contra hover
    have hneg := setAndRun_value_of_overflow repeats hinterval hcarry (Int.not_lt.mp hover)
    have hvalue := h.value
    have hnormal := h.value_normal
    simp only [Timespec.toNanoseconds, Timespec.Normal] at hvalue hnormal
    omega
  · intro h
    obtain ⟨hnormal, hvalue⟩ := setAndRun_value_of_normal repeats h
    obtain ⟨hintervalNormal, hperiod⟩ := setAndRun_interval now intervalInMSec repeats
    exact ⟨hnormal, hvalue, hintervalNormal, hperiod⟩

/-- A reading of a quarter of a second and an interval of half a second. -/
theorem denotesExpiry_iff_half :
    DenotesExpiry ⟨7, 250000000, by decide, by decide⟩ 500 true
        (setAndRun ⟨7, 250000000, by decide, by decide⟩ 500 true) ↔
      NormalExpiry ⟨7, 250000000, by decide, by decide⟩ 500 :=
  denotesExpiry_iff (by decide)

/-- A reading of half a second and an interval of half a second. -/
theorem denotesExpiry_fails : ¬∀ (now : ClockReading) (intervalInMSec : Nat) (repeats : Bool),
    intervalInMSec < 2 ^ 32 →
      DenotesExpiry now intervalInMSec repeats (setAndRun now intervalInMSec repeats) := by
  intro h
  have hnormal := (h ⟨7, 500000000, by decide, by decide⟩ 500 false (by decide)).value_normal
  exact absurd hnormal (by decide)

end TimerImpl

end Netpp
