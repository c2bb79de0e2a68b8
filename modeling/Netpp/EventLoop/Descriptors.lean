import Netpp.Connector.Steps

/-!
# The descriptors of an event loop

The timers and connectors of a loop share its epoll, whose table is keyed by the
number of the descriptor. The kernel may give an object any number that is not in
use, so also one that has just been closed. The destructor of a `Timer` closes its
timerfd at once, but only queues the removal of its handler.

The user may create and destroy the objects at any time. A functor of a connector
owns it, as the handler set of the loop does, so that a connector is destroyed only
when neither has it. An object is known by a number that stays the same, and a
functor is taken from the queue of its own object; the loop has one queue for all of
them, which leaves fewer orders.
-/

namespace Netpp

namespace EventLoop

/-- The holders of descriptors. A connector that has succeeded leaves its socket to
a `TcpConnection`, which is not followed any further. -/
inductive Object where
  | timer (t : Timer)
  | connector (c : Connector)
  | connection (fd : Int)

end EventLoop

open EventLoop in
structure EventLoop where
  epoll : Epoll Nat
  ctlAnswers : Nat → Answer Unit
  /-- Where the next event will be allocated. -/
  nextPtr : Nat
  /-- The numbers that are in use, by the objects or by anything else. -/
  isOpen : Int → Bool
  objects : Nat → Option Object
  /-- The `TimerHandler::remove` functors of objects that have been destroyed. -/
  removals : List (EpollEvent Nat)

/-- The descriptors that the connector holds. -/
def Connector.descriptors (c : Connector) : List Int :=
  c.epollEvent.watchingFd :: (c.retryTimer.map (·.handlerEvent.watchingFd)).toList

/-- The numbers that the kernel gives to what a step of a connector creates. A socket
that is not created has the number `-1`. -/
def Connector.Event.newFds : Connector.Event → List Int
  | .handleOut _ timerFd _ => [timerFd]
  | .handleIn (.done fd) => [fd]
  | .handleIn (.failed _) => [-1]
  | _ => []

namespace EventLoop

def Object.descriptors : Object → List Int
  | .timer t => [t.handlerEvent.watchingFd]
  | .connector c => c.descriptors
  | .connection fd => [fd]

def held (o : Option Object) : List Int := (o.map Object.descriptors).getD []

inductive Event where
  | createTimer (id : Nat) (fd : Int)
  | destroyTimer (id : Nat)
  | makeConnector (id : Nat) (fd : Int)
  | destroyConnector (id : Nat)
  /-- A step of the connector, whose user or loop it is. -/
  | connector (id : Nat) (e : Connector.Event)
  /-- The loop runs the removal functor of an object that has been destroyed. -/
  | remove

def Event.newFds : Event → List Int
  | .createTimer _ fd | .makeConnector _ fd => [fd]
  | .connector _ e => e.newFds
  | _ => []

def new (ctlAnswers : Nat → Answer Unit) (isOpen : Int → Bool) : EventLoop where
  epoll := Epoll.new
  ctlAnswers := ctlAnswers
  nextPtr := 0
  isOpen := isOpen
  objects := fun _ => none
  removals := []

/-- The object `id` becomes `o`: what it has held before is closed, and what it
holds now is open. -/
def replace (l : EventLoop) (id : Nat) (o : Option Object) : EventLoop :=
  { l with
    objects := Function.update l.objects id o
    isOpen := fun fd =>
      (l.isOpen fd && !(held (l.objects id)).contains fd) || (held o).contains fd }

/-- The constructor of `Timer`. -/
def createTimer (l : EventLoop) (id : Nat) (fd : Int) : EventLoop :=
  let timer := Timer.new l.nextPtr fd
  let timer := { timer with handlerEvent := timer.handlerEvent.active [.IN] }
  { l.replace id (some (.timer timer)) with
    epoll := l.epoll.updateEvent timer.handlerEvent (l.ctlAnswers 0)
    ctlAnswers := fun n => l.ctlAnswers (n + 1)
    nextPtr := l.nextPtr + 1 }

/-- The destructor of `Timer`. -/
def destroyTimer (l : EventLoop) (id : Nat) (timer : Timer) : EventLoop :=
  { l.replace id none with
    removals := l.removals ++ [timer.handlerEvent]
    epoll := l.epoll.close timer.handlerEvent.watchingFd }

def makeConnector (l : EventLoop) (id : Nat) (fd : Int) : EventLoop :=
  { l.replace id (some (.connector (Connector.makeConnector l.ctlAnswers l.nextPtr fd))) with
    nextPtr := l.nextPtr + 1 }

/-- The connector as part of the loop. -/
def enter (l : EventLoop) (c : Connector) : Connector :=
  { c with epoll := l.epoll, ctlAnswers := l.ctlAnswers, nextPtr := l.nextPtr }

/-- The loop after a step of its connector. -/
def leave (l : EventLoop) (id : Nat) (c : Connector) : EventLoop :=
  { l.replace id (some (.connector c)) with
    epoll := c.epoll
    ctlAnswers := c.ctlAnswers
    nextPtr := c.nextPtr }

/-- The handler set or a functor owns the connector. -/
def shared (c : Connector) : Bool :=
  c.inHandlers || c.functors.any fun
    | .remove _ => false
    | _ => true

/-- The handler that a functor removes. -/
def removal : Connector.Functor → Option (EpollEvent Nat)
  | .remove handlerEvent => some handlerEvent
  | _ => none

/-- The destructor of `Connector` destroys the retry timer, and the socket unless it
has been moved to a connection. -/
def destroyConnector (l : EventLoop) (id : Nat) (c : Connector) : EventLoop :=
  let rest := match c.socket with
    | some _ => none
    | none => some (Object.connection c.epollEvent.watchingFd)
  let c := (l.enter c).stopTimer
  { l.replace id rest with
    removals := l.removals ++ c.functors.filterMap removal
    epoll := match c.socket with
      | some socket => c.epoll.close socket.fd
      | none => c.epoll }

/-- The functor of `TimerHandler::remove`; its handler has never been in the handler
set. -/
def disable (l : EventLoop) (event : EpollEvent Nat) : EventLoop :=
  { l with
    epoll := l.epoll.removeEvent event (l.ctlAnswers 0)
    ctlAnswers := fun n => l.ctlAnswers (n + 1) }

/-- An event that its objects allow. -/
def handle (l : EventLoop) : Event → Except Connector.Halt EventLoop
  | .createTimer id fd =>
      match l.objects id with
      | none => .ok (l.createTimer id fd)
      | some _ => .error .disabled
  | .destroyTimer id =>
      match l.objects id with
      | some (.timer timer) => .ok (l.destroyTimer id timer)
      | _ => .error .disabled
  | .makeConnector id fd =>
      match l.objects id with
      | none => .ok (l.makeConnector id fd)
      | some _ => .error .disabled
  | .destroyConnector id =>
      match l.objects id with
      | some (.connector c) =>
          if shared c then .error .disabled else .ok (l.destroyConnector id c)
      | _ => .error .disabled
  | .connector id e =>
      match l.objects id with
      | some (.connector c) => ((l.enter c).step e).map (l.leave id)
      | _ => .error .disabled
  | .remove =>
      match l.removals with
      | [] => .error .disabled
      | event :: removals => .ok { l.disable event with removals := removals }

/-- A number that the kernel may give. -/
def available (l : EventLoop) (fd : Int) : Bool := decide (0 ≤ fd) && !l.isOpen fd

def step (l : EventLoop) (e : Event) : Except Connector.Halt EventLoop :=
  if e.newFds.all l.available then l.handle e else .error .disabled

end EventLoop

end Netpp
