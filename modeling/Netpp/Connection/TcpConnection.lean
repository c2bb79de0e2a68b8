import Netpp.Connection.TcpChannel
import Netpp.Connection.TimeWheel
import Netpp.Epoll.Epoll
import Netpp.Library.Run

/-!
# The connection

A `TcpConnection` lives in an event loop, which dispatches epoll events to its
handlers and runs the functors that other threads have queued for it. The state
of the model is that of the connection, of the parts of the loop that it uses
and of its environment: the user, who writes to and reads from the channel at
any time, and the peer, whose bytes arrive in order.

A step is one handler of an event mask, one functor, or one action of the user
or the peer, so actions may come between the handlers of one mask. The handlers
follow `src/internal/handlers/TcpConnection.cpp`; each takes the answer of its
system call.
-/

namespace Netpp

/-- `socket::TcpState`. -/
inductive TcpState where
  | Closed | Listen | Connecting | Established | HalfClose
  deriving DecidableEq

/-- A call of one of the user's callbacks. -/
inductive Callback where
  | onMessageReceived
  | onWriteCompleted
  | onDisconnect
  | onError (code : SocketError)
  deriving DecidableEq

/-- The entries of a connection in the time wheel. -/
inductive WheelEntry where
  | idle
  | halfClose
  deriving DecidableEq

/-- The functors a connection queues in its loop. That of `sendInLoop` carries
the number of bytes written when it was queued. -/
inductive Functor where
  | sendInLoop (covers : Nat)
  | closeAfterWriteCompleted
  deriving DecidableEq

/-- The bytes that have passed the ends of the connection. -/
structure History where
  /-- Written through `TcpChannel::writer()`. -/
  written : List UInt8
  /-- Accepted by `sendmsg`. -/
  accepted : List UInt8
  /-- Delivered by `recvmsg`. -/
  delivered : List UInt8
  /-- Retrieved through `TcpChannel::reader()`. -/
  retrieved : List UInt8
  /-- The number of bytes written that a processed functor of `sendInLoop` covers. -/
  announced : Nat

/-- The bytes the peer has sent, and whether a FIN follows them. -/
structure Peer where
  sent : List UInt8
  fin : Bool

structure TcpConnection where
  state : TcpState
  isWaitWriting : Bool
  channel : TcpChannel
  epollEvent : EpollEvent Nat
  /-- The epoll of the loop, and the answers that `epoll_ctl` will give. -/
  epoll : Epoll Nat
  ctlAnswers : Nat → Answer Unit
  wheel : Option (TimeWheel WheelEntry)
  /-- The loop owns the connection. -/
  inLoop : Bool
  /-- A thread inside `Channel::send` or `Channel::close` owns it. -/
  heldElsewhere : Bool
  /-- The functors of the connection in the queue of the loop. -/
  functors : List Functor
  /-- The handlers of the event mask being dispatched that are still to run. -/
  running : List EpollEv
  callbacks : List Callback
  shutdownWrites : Nat
  peer : Peer
  history : History

namespace TcpConnection

/-! ## Helpers of the handlers -/

def call (c : TcpConnection) (callback : Callback) : TcpConnection :=
  { c with callbacks := c.callbacks ++ [callback] }

/-- `m_epollEvent->active`. -/
def active (c : TcpConnection) (events : List EpollEv) : TcpConnection :=
  { c with
    epollEvent := c.epollEvent.active events
    epoll := c.epoll.updateEvent (c.epollEvent.active events) (c.ctlAnswers 0)
    ctlAnswers := fun n => c.ctlAnswers (n + 1) }

/-- `m_epollEvent->deactivate`. -/
def deactivate (c : TcpConnection) (events : List EpollEv) : TcpConnection :=
  { c with
    epollEvent := c.epollEvent.deactivate events
    epoll := c.epoll.updateEvent (c.epollEvent.deactivate events) (c.ctlAnswers 0)
    ctlAnswers := fun n => c.ctlAnswers (n + 1) }

/-- `m_epollEvent->disable`. -/
def disable (c : TcpConnection) : TcpConnection :=
  { c with
    epoll := c.epoll.removeEvent c.epollEvent (c.ctlAnswers 0)
    ctlAnswers := fun n => c.ctlAnswers (n + 1) }

/-- If the entry `watched` has not expired, renew the entry `renewed`. -/
def renewIfAlive (wheel : TimeWheel WheelEntry) (watched renewed : WheelEntry) :
    Except Fault (TimeWheel WheelEntry) :=
  if (wheel.lock watched).isSome then wheel.renew (wheel.lock renewed) else .ok wheel

/-- The source renews the idle entry in both cases. -/
def renewWheel (c : TcpConnection) : Except Fault TcpConnection :=
  match c.wheel with
  | none => .ok c
  | some wheel => do
      let wheel ← renewIfAlive wheel .idle .idle
      let wheel ← renewIfAlive wheel .halfClose .idle
      .ok { c with wheel := some wheel }

/-- The first lines of `forceClose`: both entries leave the wheel. -/
def removeFromWheel (c : TcpConnection) : Except Fault TcpConnection :=
  match c.wheel with
  | none => .ok c
  | some wheel => do
      let wheel ← wheel.removeFromWheel (wheel.lock .idle)
      let wheel ← wheel.removeFromWheel (wheel.lock .halfClose)
      .ok { c with wheel := some wheel }

/-- The rest of `forceClose`. -/
def disconnect (c : TcpConnection) : TcpConnection :=
  { (c.call .onDisconnect).disable with
    inLoop := false
    state := .Closed }

def forceClose (c : TcpConnection) : Except Fault TcpConnection :=
  c.removeFromWheel.map disconnect

/-! ## Handlers -/

/-- The bytes of the peer that have not been delivered. -/
def arriving (c : TcpConnection) : List UInt8 :=
  c.peer.sent.drop c.history.delivered.length

/-- The answer of `recvmsg` when so many of the arriving bytes are there. -/
def arrived (c : TcpConnection) : Answer Nat → Answer (List UInt8)
  | .done count => .done (c.arriving.take count)
  | .failed e => .failed e

def handleIn (c : TcpConnection) (answer : Answer Nat) : Except Fault TcpConnection := do
  let c ← c.renewWheel
  let converted := TcpChannelConversion.writeBufferConvert
  match ← SocketIO.read converted.io (c.channel.get converted.array) (c.arrived answer) with
  | .ok (b, taken) =>
      let c := { c with
        channel := c.channel.set converted.array b
        history := { c.history with delivered := c.history.delivered ++ taken } }
      .ok (c.call .onMessageReceived)
  | .error (.socketException e) => -- connection refused or not connected
      (c.call (.onError (getError e))).forceClose
  | .error (.resourceLimitException e) => .ok (c.call (.onError (getError e)))

def handleOut (c : TcpConnection) (answer : Answer Nat) : Except Fault TcpConnection := do
  let c ← c.renewWheel
  let converted := TcpChannelConversion.readBufferConvert
  match ← SocketIO.write converted.io (c.channel.get converted.array) answer with
  | .ok (b, sent, writeCompleted) =>
      let c := { c with
        channel := c.channel.set converted.array b
        history := { c.history with accepted := c.history.accepted ++ sent } }
      if writeCompleted then
        let c := (c.deactivate [.OUT]).call .onWriteCompleted
        let c : TcpConnection := { c with isWaitWriting := false }
        -- if write completed, and we are half-closing, force close this connection
        if c.state = .HalfClose then c.forceClose else .ok c
      else .ok c
  | .error (.socketException e) => -- connection reset or not connect or connect shutdown
      forceClose { (c.call (.onError (getError e))) with isWaitWriting := false }
  | .error (.resourceLimitException e) => .ok (c.call (.onError (getError e)))

def handleRdhup (c : TcpConnection) : Except Fault TcpConnection :=
  -- disable RDHUP and IN
  let c := c.deactivate [.RDHUP, .IN]
  if c.state = .Established then
    -- if state changed to HalfClose, and no data to write, close immediately
    if c.isWaitWriting then .ok { c with state := .HalfClose }
    else forceClose { c with state := .HalfClose }
  else .ok c

/-- The handler for an event; the base class handles the others by doing nothing. -/
def handle (c : TcpConnection) (answer : Answer Nat) : EpollEv → Except Fault TcpConnection
  | .RDHUP => c.handleRdhup
  | .IN => c.handleIn answer
  | .OUT => c.handleOut answer
  | _ => .ok c

/-- `EpollEvent::handleEvents`: the handlers of a mask, in order. -/
def handleEvents (mask : EventMask) : List EpollEv :=
  [EpollEv.ERR, .RDHUP, .IN, .OUT, .PRI, .HUP].filter mask

/-! ## Functors -/

/-- The functor of `closeAfterWriteCompleted`. -/
def closeFunctor (c : TcpConnection) : TcpConnection :=
  if c.state = .Established then
    if c.isWaitWriting then { c with state := .HalfClose }
    else
      -- disable RDHUP, shutdown write will wake up epoll_wait with EPOLLRDHUP and EPOLLIN
      let c := deactivate { c with
        state := .HalfClose
        shutdownWrites := c.shutdownWrites + 1 } [.RDHUP]
      { c with wheel := c.wheel.map fun wheel => wheel.addToWheel .halfClose }
  else c

/-- The functor of `sendInLoop`. -/
def sendFunctor (c : TcpConnection) (covers : Nat) : TcpConnection :=
  active { c with
    isWaitWriting := true
    history := { c.history with announced := max c.history.announced covers } } [.OUT]

def runFunctor (c : TcpConnection) : Functor → TcpConnection
  | .sendInLoop covers => c.sendFunctor covers
  | .closeAfterWriteCompleted => c.closeFunctor

/-! ## Steps -/

/-- The connection has not been destroyed: a weak pointer to it can be locked. -/
def alive (c : TcpConnection) : Bool := c.inLoop || c.heldElsewhere || !c.running.isEmpty

inductive Event where
  /-- The user writes through `TcpChannel::writer()`. -/
  | write (data : List UInt8)
  /-- The user retrieves through `TcpChannel::reader()`. -/
  | retrieve (length : Nat)
  /-- `Channel::send()`. -/
  | send
  /-- `Channel::close()`. -/
  | close
  /-- The thread in `Channel::send()` or `Channel::close()` keeps its pointer. -/
  | hold
  | release
  /-- The peer sends bytes, or a FIN after all its bytes. -/
  | peerSend (data : List UInt8)
  | peerFin
  /-- The loop dispatches an event mask. -/
  | dispatch (mask : EventMask)
  /-- The next handler of the mask runs, and this is its system call's answer. -/
  | handler (answer : Answer Nat)
  /-- The loop runs the next functor of the connection. -/
  | functor

/-- Why there is no next state. -/
inductive Halt where
  /-- The event cannot happen here. -/
  | disabled
  | fault (f : Fault)

def step (c : TcpConnection) : Event → Except Halt TcpConnection
  | .write data =>
      ((c.channel.write data).map fun channel => { c with
        channel := channel
        history := { c.history with written := c.history.written ++ data } }).mapError .fault
  | .retrieve length =>
      ((c.channel.retrieve length).map fun r => { c with
        channel := r.1
        history := { c.history with
          retrieved := c.history.retrieved ++ r.2.getD [] } }).mapError .fault
  | .send =>
      if c.alive then
        .ok { c with functors := c.functors ++ [.sendInLoop c.history.written.length] }
      else .ok c
  | .close =>
      if c.alive then .ok { c with functors := c.functors ++ [.closeAfterWriteCompleted] }
      else .ok c
  | .hold => if c.alive then .ok { c with heldElsewhere := true } else .error .disabled
  | .release => .ok { c with heldElsewhere := false }
  | .peerSend data =>
      if c.peer.fin then .error .disabled
      else .ok { c with peer := { c.peer with sent := c.peer.sent ++ data } }
  | .peerFin => .ok { c with peer := { c.peer with fin := true } }
  | .dispatch mask =>
      if c.running = [] ∧ c.alive then
        .ok { c with running := handleEvents mask }
      else .error .disabled
  | .handler answer =>
      match c.running with
      | [] => .error .disabled
      | ev :: rest => (handle { c with running := rest } answer ev).mapError .fault
  | .functor =>
      if c.running = [] then
        match c.functors with
        | [] => .error .disabled
        | f :: rest =>
            if c.alive then .ok (runFunctor { c with functors := rest } f)
            else .ok { c with functors := rest }
      else .error .disabled

/-- `makeTcpConnection`, for an event object at `ptr` with the socket `fd`. -/
def makeTcpConnection (epoll : Epoll Nat) (ctlAnswers : Nat → Answer Unit)
    (wheel : Option (TimeWheel WheelEntry)) (ptr : Nat) (fd : Int) : TcpConnection :=
  let c : TcpConnection :=
    { state := .Established
      isWaitWriting := false
      channel := TcpChannel.new
      epollEvent := ⟨ptr, fd, fun _ => false⟩
      epoll := epoll
      ctlAnswers := ctlAnswers
      wheel := wheel
      inLoop := true
      heldElsewhere := false
      functors := []
      running := []
      callbacks := []
      shutdownWrites := 0
      peer := ⟨[], false⟩
      history := ⟨[], [], [], [], 0⟩ }
  let c := c.active [.IN, .RDHUP]
  { c with wheel := c.wheel.map fun wheel => wheel.addToWheel .idle }

end TcpConnection

end Netpp
