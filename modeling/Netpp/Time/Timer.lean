import Netpp.Epoll.Epoll

/-!
# Timers

A `Timer` has a timerfd that its `TimerHandler` watches, and the loop calls
`onTimeOut` when the timer expires. The methods follow `src/time/Timer.cpp` in what they
do with the fields; what they ask of the timerfd is in `Netpp.Time.Timerfd`.
-/

namespace Netpp

structure Timer where
  interval : Nat
  singleShot : Bool
  running : Bool
  /-- `m_epollEvent` of the handler, on the timerfd. -/
  handlerEvent : EpollEvent Nat

namespace Timer

/-- A timer whose handler's event is at `ptr`, before the event is activated. -/
def new (ptr : Nat) (fd : Int) : Timer :=
  ⟨1000, true, false, ⟨ptr, fd, fun _ => false⟩⟩

def setInterval (t : Timer) (mSec : Nat) : Timer := { t with interval := mSec }

def setSingleShot (t : Timer) (singleShot : Bool) : Timer := { t with singleShot := singleShot }

def start (t : Timer) : Timer := { t with running := true }

@[simp] theorem setSingleShot_running (t : Timer) (singleShot : Bool) :
    (t.setSingleShot singleShot).running = t.running := rfl

@[simp] theorem setSingleShot_singleShot (t : Timer) (singleShot : Bool) :
    (t.setSingleShot singleShot).singleShot = singleShot := rfl

@[simp] theorem setSingleShot_interval (t : Timer) (singleShot : Bool) :
    (t.setSingleShot singleShot).interval = t.interval := rfl

end Timer

end Netpp
