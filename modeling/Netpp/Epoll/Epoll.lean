import Mathlib.Logic.Function.Basic
import Netpp.Stub

/-!
# Epoll and its events

`Epoll::updateEvent` and `Epoll::removeEvent` keep a table `_events` from file
descriptors to the registered `EpollEvent`s and tell the kernel about each change
with `epoll_ctl`. The kernel has its own interest list, from file descriptors to
the pointer and the mask of the registration. An `EpollEvent` is known by its
pointer, of type `π`.
-/

namespace Netpp

/-- `EpollEv`. -/
inductive EpollEv where
  | IN | OUT | RDHUP | PRI | ERR | HUP
  deriving DecidableEq

/-- A set of events, as the bits of `epoll_event::events`. -/
abbrev EventMask := EpollEv → Bool

/-- `EpollEvent`: the object itself, the descriptor and `m_watchingEvents`. -/
structure EpollEvent (π : Type*) where
  ptr : π
  watchingFd : Int
  watchingEvents : EventMask

/-- The table `_events` and the interest list of the kernel. -/
structure Epoll (π : Type*) where
  events : Int → Option π
  interest : Int → Option (π × EventMask)

inductive CtlOp where
  | EPOLL_CTL_ADD | EPOLL_CTL_MOD | EPOLL_CTL_DEL
  deriving DecidableEq

namespace Epoll

variable {π : Type*}

def new : Epoll π := ⟨fun _ => none, fun _ => none⟩

/-- The answer of the kernel to `epoll_ctl`: whatever else happens, a descriptor
is not added twice, and only a registered one is changed or deleted. -/
def ctlAnswer (interest : Int → Option (π × EventMask)) (op : CtlOp) (fd : Int)
    (answer : Answer Unit) : Answer Unit :=
  match op, interest fd with
  | .EPOLL_CTL_ADD, some _ => .failed .EEXIST
  | .EPOLL_CTL_MOD, none => .failed .ENOENT
  | .EPOLL_CTL_DEL, none => .failed .ENOENT
  | _, _ => answer

/-- The interest list after `epoll_ctl`, which has no effect when it fails. -/
def ctlInterest (interest : Int → Option (π × EventMask)) (op : CtlOp)
    (event : EpollEvent π) (answer : Answer Unit) : Int → Option (π × EventMask) :=
  match ctlAnswer interest op event.watchingFd answer, op with
  | .failed _, _ => interest
  | .done _, .EPOLL_CTL_DEL => Function.update interest event.watchingFd none
  | .done _, _ =>
      Function.update interest event.watchingFd (some (event.ptr, event.watchingEvents))

/-- `stub::epoll_ctl`: the interest list, and the return value or the exception. -/
def epollCtl (interest : Int → Option (π × EventMask)) (op : CtlOp)
    (event : EpollEvent π) (answer : Answer Unit) :
    (Int → Option (π × EventMask)) × Except Exception (Option Unit) :=
  (ctlInterest interest op event answer,
    Stub.epollCtl (ctlAnswer interest op event.watchingFd answer))

variable [DecidableEq π]

/-- The table is changed before the system call. The return value is ignored and
the exception is caught, so nothing else depends on the answer. -/
def updateEvent (ep : Epoll π) (event : EpollEvent π) (answer : Answer Unit) : Epoll π :=
  match ep.events event.watchingFd with
  | none => -- add channel
      { events := Function.update ep.events event.watchingFd (some event.ptr)
        interest := (epollCtl ep.interest .EPOLL_CTL_ADD event answer).1 }
  | some registered => -- update channel
      { events :=
          if registered ≠ event.ptr then
            Function.update ep.events event.watchingFd (some event.ptr)
          else ep.events
        interest := (epollCtl ep.interest .EPOLL_CTL_MOD event answer).1 }

def removeEvent (ep : Epoll π) (event : EpollEvent π) (answer : Answer Unit) : Epoll π :=
  match ep.events event.watchingFd with
  | some _ =>
      { events := Function.update ep.events event.watchingFd none
        interest := (epollCtl ep.interest .EPOLL_CTL_DEL event answer).1 }
  | none => ep

/-- The kernel forgets a descriptor that is closed; the table does not. -/
def close (ep : Epoll π) (fd : Int) : Epoll π :=
  { ep with interest := Function.update ep.interest fd none }

end Epoll

namespace EpollEvent

variable {π : Type*}

/-- `EpollEvent::active`, before the update. -/
def active (event : EpollEvent π) (events : List EpollEv) : EpollEvent π :=
  { event with watchingEvents := fun e => event.watchingEvents e || events.contains e }

/-- `EpollEvent::deactivate`, before the update. -/
def deactivate (event : EpollEvent π) (events : List EpollEv) : EpollEvent π :=
  { event with watchingEvents := fun e => event.watchingEvents e && !events.contains e }

end EpollEvent

/-! ## What the calls do to the table -/

namespace Epoll

variable {π : Type*} (ep : Epoll π) (event : EpollEvent π) (answer : Answer Unit)

/-- A removal leaves no entry for the descriptor in the table. -/
theorem removeEvent_events :
    (ep.removeEvent event answer).events = Function.update ep.events event.watchingFd none := by
  cases h : ep.events event.watchingFd with
  | none =>
      have hsame : Function.update ep.events event.watchingFd none = ep.events := by
        rw [← h, Function.update_eq_self]
      simp only [removeEvent, h, hsame]
  | some registered => simp only [removeEvent, h]

variable [DecidableEq π]

/-- An update registers the event in the table, whatever the kernel answers. -/
theorem updateEvent_events :
    (ep.updateEvent event answer).events =
      Function.update ep.events event.watchingFd (some event.ptr) := by
  cases h : ep.events event.watchingFd with
  | none => simp only [updateEvent, h]
  | some registered =>
      simp only [updateEvent, h]
      by_cases hsame : registered = event.ptr
      · rw [if_neg (not_not.mpr hsame), ← hsame, ← h, Function.update_eq_self]
      · rw [if_pos hsame]

end Epoll

end Netpp
