import Netpp.Connection.Deliveries

/-!
# The dispatcher and the threads of its loops

An `EventLoopDispatcher` has a number of loops, each run by a thread of its own, and
hands them out in turn. `Acceptor::handleIn` and `Connector::handleOut` run in the
loop of the acceptor or connector and make a `TcpConnection` in a loop that the
dispatcher chooses. From then on epoll of that loop knows the connection, and its
thread may handle events while the other one is still on its way to `onConnected`.

A thread does one thing at a time: it runs the handlers of a mask, a functor, or one
of the two handlers that make a connection. The latter have three steps here, up to
the return of `makeTcpConnection`, the call of `lock` on the pointer it has returned,
and `onConnected`. The connections of a loop share its epoll.
-/

namespace Netpp

namespace EventLoopDispatcher

/-- A connection and the loop it lives in. -/
structure Connection where
  owner : Nat
  tcp : TcpConnection
  /-- `onConnected` has been called. -/
  connected : Bool

/-- How far the thread that has made a connection has come. -/
inductive Reporting where
  | made (id : Nat)
  | locked (id : Nat)
  deriving DecidableEq

end EventLoopDispatcher

open EventLoopDispatcher in
structure EventLoopDispatcher where
  loopsCount : Nat
  dispatchIndex : Nat
  /-- For each loop its epoll, and the answers that `epoll_ctl` will give. -/
  epolls : Nat → Epoll Nat
  ctlAnswers : Nat → Nat → Answer Unit
  /-- What a new connection sees of the time wheel, if the loops have one. -/
  wheel : Option (TimeWheel WheelEntry)
  /-- Where the next event will be allocated. -/
  nextPtr : Nat
  connections : List Connection
  /-- The loops whose threads are inside a handler that has made a connection. -/
  reporting : Nat → Option Reporting
  /-- The calls of `onError` by the acceptors. -/
  errors : List SocketError

namespace EventLoopDispatcher

/-- Why there is no next state. -/
inductive Halt where
  /-- The event cannot happen here. -/
  | disabled
  /-- The null pointer of a dispatcher without loops is used. -/
  | nullLoop
  /-- The pointer to a connection that is gone is used. -/
  | nullConnection
  | connection (halt : TcpConnection.Halt)

/-- The constructor. -/
def new (loopsCount : Nat) (ctlAnswers : Nat → Nat → Answer Unit)
    (wheel : Option (TimeWheel WheelEntry)) : EventLoopDispatcher where
  loopsCount := loopsCount
  dispatchIndex := 0
  epolls := fun _ => Epoll.new
  ctlAnswers := ctlAnswers
  wheel := wheel
  nextPtr := 0
  connections := []
  reporting := fun _ => none
  errors := []

def dispatchEventLoop (d : EventLoopDispatcher) : Option Nat × EventLoopDispatcher :=
  if d.loopsCount = 0 then (none, d)
  else if d.loopsCount ≤ d.dispatchIndex + 1 then (some 0, { d with dispatchIndex := 0 })
  else (some (d.dispatchIndex + 1), { d with dispatchIndex := d.dispatchIndex + 1 })

/-- The thread of the loop is not inside a handler. -/
def idle (d : EventLoopDispatcher) (loop : Nat) : Bool :=
  (d.reporting loop).isNone &&
    d.connections.all fun connection => connection.owner ≠ loop || connection.tcp.running.isEmpty

/-- The connection as part of its loop. -/
def enter (d : EventLoopDispatcher) (connection : Connection) : TcpConnection :=
  { connection.tcp with
    epoll := d.epolls connection.owner
    ctlAnswers := d.ctlAnswers connection.owner }

/-- The loop after a step of its connection. -/
def leave (d : EventLoopDispatcher) (owner : Nat) (tcp : TcpConnection) : EventLoopDispatcher :=
  { d with
    epolls := Function.update d.epolls owner tcp.epoll
    ctlAnswers := Function.update d.ctlAnswers owner tcp.ctlAnswers }

/-- `makeTcpConnection`, called in a loop for one that the dispatcher chooses. -/
def makeTcpConnection (d : EventLoopDispatcher) (loop : Nat) (fd : Int) :
    Except Halt EventLoopDispatcher :=
  match d.dispatchEventLoop with
  | (none, _) => .error .nullLoop
  | (some owner, d) =>
      let tcp := TcpConnection.makeTcpConnection (d.epolls owner) (d.ctlAnswers owner) d.wheel
        d.nextPtr fd
      .ok { d.leave owner tcp with
        nextPtr := d.nextPtr + 1
        connections := d.connections ++ [⟨owner, tcp, false⟩]
        reporting := Function.update d.reporting loop (some (.made d.connections.length)) }

/-- `Socket::accept`: the constructor of `Socket` throws for the number `-1`. -/
def accept (answer : Answer Int) : Except Exception Int := do
  let fd := (← Stub.accept4 answer).getD (-1)
  if fd = -1 then .error (.socketException .EBADF) else .ok fd

/-- `Acceptor::handleIn` up to the return of `makeTcpConnection`. -/
def handleIn (d : EventLoopDispatcher) (loop : Nat) (answer : Answer Int) :
    Except Halt EventLoopDispatcher :=
  match accept answer with
  | .ok fd => d.makeTcpConnection loop fd
  | .error (.socketException e) | .error (.resourceLimitException e) =>
      .ok { d with errors := d.errors ++ [getError e] }

/-- The thread locks the pointer that `makeTcpConnection` has returned. -/
def lock (d : EventLoopDispatcher) (loop : Nat) : Except Halt EventLoopDispatcher :=
  match d.reporting loop with
  | some (.made id) =>
      match d.connections[id]? with
      | some connection =>
          if connection.tcp.alive then
            .ok { d with reporting := Function.update d.reporting loop (some (.locked id)) }
          else .error .nullConnection
      | none => .error .disabled
  | _ => .error .disabled

/-- The thread calls `onConnected` and leaves the handler. -/
def onConnected (d : EventLoopDispatcher) (loop : Nat) : Except Halt EventLoopDispatcher :=
  match d.reporting loop with
  | some (.locked id) =>
      .ok { d with
        connections := d.connections.modify id fun connection =>
          { connection with connected := true }
        reporting := Function.update d.reporting loop none }
  | _ => .error .disabled

/-! ## Steps -/

inductive Event where
  /-- An acceptor or a connector is made, by any thread. -/
  | dispatchEventLoop
  /-- An acceptor in the loop has `EPOLLIN`. -/
  | handleIn (loop : Nat) (answer : Answer Int)
  /-- A connector in the loop has succeeded with this socket. -/
  | handleOut (loop : Nat) (fd : Int)
  | lock (loop : Nat)
  | onConnected (loop : Nat)
  /-- A step of a connection, of whatever thread. -/
  | connection (id : Nat) (e : TcpConnection.Event)

/-- The thread of the loop `owner` can take the step of a connection, if it is the one
to do so. -/
def free (d : EventLoopDispatcher) (owner : Nat) : TcpConnection.Event → Bool
  | .dispatch _ | .functor => d.idle owner
  | .handler _ => (d.reporting owner).isNone
  | _ => true

def step (d : EventLoopDispatcher) : Event → Except Halt EventLoopDispatcher
  | .dispatchEventLoop => .ok d.dispatchEventLoop.2
  | .handleIn loop answer =>
      if loop < d.loopsCount ∧ d.idle loop then d.handleIn loop answer else .error .disabled
  | .handleOut loop fd =>
      if loop < d.loopsCount ∧ d.idle loop then d.makeTcpConnection loop fd else .error .disabled
  | .lock loop => d.lock loop
  | .onConnected loop => d.onConnected loop
  | .connection id e =>
      match d.connections[id]? with
      | none => .error .disabled
      | some connection =>
          if d.free connection.owner e then
            match (d.enter connection).step e with
            | .error halt => .error (.connection halt)
            | .ok tcp =>
                .ok { d.leave connection.owner tcp with
                  connections := d.connections.set id { connection with tcp := tcp } }
          else .error .disabled

end EventLoopDispatcher

end Netpp
