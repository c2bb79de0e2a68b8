import Mathlib.Tactic.Common

/-!
# Signal numbers

`Signals` enumerates the signals that can be handled. The macro `NETPP_SINGAL` lists
them, and `toLinuxSignal` and `toNetppSignal` are a switch over this list each. The
second one takes every other number to `E_HUP`, so that it is an inverse of the first
one on its values only.
-/

namespace Netpp

inductive Signals where
  | hup | int | quit | ill | trap | abrt | bus | fpe | usr1 | segv | usr2 | pipe | alrm | term
  | stkflt | chld | cont | tstp | ttin | ttou | urg | xcpu | xfsz | vtalrm | prof | winch | io
  | pwr | sys
  deriving DecidableEq

namespace Signals

/-- `NETPP_SINGAL`. -/
def netppSignal : List Signals :=
  [hup, int, quit, ill, trap, abrt, bus, fpe, usr1, segv, usr2, pipe, alrm, term, stkflt, chld,
    cont, tstp, ttin, ttou, urg, xcpu, xfsz, vtalrm, prof, winch, io, pwr, sys]

/-- The numbers of the signals on Linux. -/
def toLinuxSignal : Signals → Nat
  | hup => 1
  | int => 2
  | quit => 3
  | ill => 4
  | trap => 5
  | abrt => 6
  | bus => 7
  | fpe => 8
  | usr1 => 10
  | segv => 11
  | usr2 => 12
  | pipe => 13
  | alrm => 14
  | term => 15
  | stkflt => 16
  | chld => 17
  | cont => 18
  | tstp => 20
  | ttin => 21
  | ttou => 22
  | urg => 23
  | xcpu => 24
  | xfsz => 25
  | vtalrm => 26
  | prof => 27
  | winch => 28
  | io => 29
  | pwr => 30
  | sys => 31

def toNetppSignal (signal : Nat) : Signals :=
  (netppSignal.find? fun s => s.toLinuxSignal == signal).getD hup

@[simp] theorem toNetppSignal_toLinuxSignal (s : Signals) :
    toNetppSignal s.toLinuxSignal = s := by
  cases s <;> rfl

theorem toLinuxSignal_injective : Function.Injective toLinuxSignal :=
  Function.LeftInverse.injective toNetppSignal_toLinuxSignal

/-- `SIGKILL` and `SIGSTOP` cannot be blocked, and are not listed. -/
theorem toLinuxSignal_ne (s : Signals) : s.toLinuxSignal ≠ 9 ∧ s.toLinuxSignal ≠ 19 := by
  cases s <;> decide

end Signals

end Netpp
