import Netpp.Connection.Ticked
import Netpp.Library.Tagged

/-!
# The connections of a loop

A loop owns any number of connections. They share its epoll, its time wheel and its
queue of functors, and the loop runs one handler at a time. The entries in the wheel and
the functors in the queue carry the number of their connection.

The handlers are those of `src/internal/handlers/TcpConnection.cpp` once more, now with
what `_loopThisHandlerLiveIn` points to. A handler, a functor or an action of a user or a
peer is one step, as it is for a single connection; the wheel ticks, and connections are
made, between them.
-/

namespace Netpp

namespace SharedLoop

/-- The members of a connection, and what it has seen and done. -/
structure Conn where
  state : TcpState
  isWaitWriting : Bool
  channel : TcpChannel
  epollEvent : EpollEvent Nat
  inLoop : Bool
  heldElsewhere : Bool
  running : List EpollEv
  callbacks : List Callback
  shutdownWrites : Nat
  peer : Peer
  history : History

/-- What the connections share. -/
structure Parts where
  epoll : Epoll Nat
  ctlAnswers : Nat → Answer Unit
  wheel : Option (TimeWheel (Tagged Nat WheelEntry))
  functors : List (Tagged Nat Functor)

/-- A connection with the loop it lives in. -/
structure Acting extends Conn, Parts where
  id : Nat

end SharedLoop

/-- An event loop; its connections are numbered in the order in which they are made. -/
structure SharedLoop where
  conns : List SharedLoop.Conn
  parts : SharedLoop.Parts

namespace SharedLoop

open TcpConnection (Halt handleEvents)

/-! ## Helpers of the handlers -/

namespace Acting

def call (c : Acting) (callback : Callback) : Acting :=
  { c with callbacks := c.callbacks ++ [callback] }

def active (c : Acting) (events : List EpollEv) : Acting :=
  { c with
    epollEvent := c.epollEvent.active events
    epoll := c.epoll.updateEvent (c.epollEvent.active events) (c.ctlAnswers 0)
    ctlAnswers := fun n => c.ctlAnswers (n + 1) }

def deactivate (c : Acting) (events : List EpollEv) : Acting :=
  { c with
    epollEvent := c.epollEvent.deactivate events
    epoll := c.epoll.updateEvent (c.epollEvent.deactivate events) (c.ctlAnswers 0)
    ctlAnswers := fun n => c.ctlAnswers (n + 1) }

def disable (c : Acting) : Acting :=
  { c with
    epoll := c.epoll.removeEvent c.epollEvent (c.ctlAnswers 0)
    ctlAnswers := fun n => c.ctlAnswers (n + 1) }

def renewIfAlive (wheel : TimeWheel (Tagged Nat WheelEntry))
    (watched renewed : Tagged Nat WheelEntry) :
    Except Fault (TimeWheel (Tagged Nat WheelEntry)) :=
  if (wheel.lock watched).isSome then wheel.renew (wheel.lock renewed) else .ok wheel

def renewWheel (c : Acting) : Except Fault Acting :=
  match c.wheel with
  | none => .ok c
  | some wheel => do
      let wheel ← renewIfAlive wheel ⟨c.id, .idle⟩ ⟨c.id, .idle⟩
      let wheel ← renewIfAlive wheel ⟨c.id, .halfClose⟩ ⟨c.id, .idle⟩
      .ok { c with wheel := some wheel }

def removeFromWheel (c : Acting) : Except Fault Acting :=
  match c.wheel with
  | none => .ok c
  | some wheel => do
      let wheel ← wheel.removeFromWheel (wheel.lock ⟨c.id, .idle⟩)
      let wheel ← wheel.removeFromWheel (wheel.lock ⟨c.id, .halfClose⟩)
      .ok { c with wheel := some wheel }

def disconnect (c : Acting) : Acting :=
  { (c.call .onDisconnect).disable with
    inLoop := false
    state := .Closed }

def forceClose (c : Acting) : Except Fault Acting := c.removeFromWheel.map disconnect

/-! ## Handlers and functors -/

def arriving (c : Acting) : List UInt8 := c.peer.sent.drop c.history.delivered.length

def arrived (c : Acting) : Answer Nat → Answer (List UInt8)
  | .done count => .done (c.arriving.take count)
  | .failed e => .failed e

def handleIn (c : Acting) (answer : Answer Nat) : Except Fault Acting := do
  let c ← c.renewWheel
  let converted := TcpChannelConversion.writeBufferConvert
  match ← SocketIO.read converted.io (c.channel.get converted.array) (c.arrived answer) with
  | .ok (b, taken) =>
      let c := { c with
        channel := c.channel.set converted.array b
        history := { c.history with delivered := c.history.delivered ++ taken } }
      .ok (c.call .onMessageReceived)
  | .error (.socketException e) => (c.call (.onError (getError e))).forceClose
  | .error (.resourceLimitException e) => .ok (c.call (.onError (getError e)))

def handleOut (c : Acting) (answer : Answer Nat) : Except Fault Acting := do
  let c ← c.renewWheel
  let converted := TcpChannelConversion.readBufferConvert
  match ← SocketIO.write converted.io (c.channel.get converted.array) answer with
  | .ok (b, sent, writeCompleted) =>
      let c := { c with
        channel := c.channel.set converted.array b
        history := { c.history with accepted := c.history.accepted ++ sent } }
      if writeCompleted then
        let c := (c.deactivate [.OUT]).call .onWriteCompleted
        let c : Acting := { c with isWaitWriting := false }
        if c.state = .HalfClose then c.forceClose else .ok c
      else .ok c
  | .error (.socketException e) =>
      forceClose { (c.call (.onError (getError e))) with isWaitWriting := false }
  | .error (.resourceLimitException e) => .ok (c.call (.onError (getError e)))

def handleRdhup (c : Acting) : Except Fault Acting :=
  let c := c.deactivate [.RDHUP, .IN]
  if c.state = .Established then
    if c.isWaitWriting then .ok { c with state := .HalfClose }
    else forceClose { c with state := .HalfClose }
  else .ok c

def handle (c : Acting) (answer : Answer Nat) : EpollEv → Except Fault Acting
  | .RDHUP => c.handleRdhup
  | .IN => c.handleIn answer
  | .OUT => c.handleOut answer
  | _ => .ok c

def closeFunctor (c : Acting) : Acting :=
  if c.state = .Established then
    if c.isWaitWriting then { c with state := .HalfClose }
    else
      let c := deactivate { c with
        state := .HalfClose
        shutdownWrites := c.shutdownWrites + 1 } [.RDHUP]
      { c with wheel := c.wheel.map fun wheel => wheel.addToWheel ⟨c.id, .halfClose⟩ }
  else c

def sendFunctor (c : Acting) (covers : Nat) : Acting :=
  active { c with
    isWaitWriting := true
    history := { c.history with announced := max c.history.announced covers } } [.OUT]

def runFunctor (c : Acting) : Functor → Acting
  | .sendInLoop covers => c.sendFunctor covers
  | .closeAfterWriteCompleted => c.closeFunctor

/-! ## The steps of one connection -/

def alive (c : Acting) : Bool := c.inLoop || c.heldElsewhere || !c.running.isEmpty

/-- Everything but a functor, which the loop takes from the queue. -/
def step (c : Acting) : TcpConnection.Event → Except Halt Acting
  | .write data =>
      ((c.channel.write data).map fun channel => { c with
        channel := channel
        history := { c.history with written := c.history.written ++ data } }).mapError .fault
  | .retrieve length =>
      ((c.channel.retrieve length).map fun r => { c with
        channel := r.1
        history := { c.history with
          retrieved := c.history.retrieved ++ r.2.getD [] } }).mapError .fault
  | .send =>
      if c.alive then
        .ok { c with
          functors := c.functors ++ [⟨c.id, .sendInLoop c.history.written.length⟩] }
      else .ok c
  | .close =>
      if c.alive then
        .ok { c with functors := c.functors ++ [⟨c.id, .closeAfterWriteCompleted⟩] }
      else .ok c
  | .hold => if c.alive then .ok { c with heldElsewhere := true } else .error .disabled
  | .release => .ok { c with heldElsewhere := false }
  | .peerSend data =>
      if c.peer.fin then .error .disabled
      else .ok { c with peer := { c.peer with sent := c.peer.sent ++ data } }
  | .peerFin => .ok { c with peer := { c.peer with fin := true } }
  | .dispatch mask =>
      if c.running = [] ∧ c.alive then .ok { c with running := handleEvents mask }
      else .error .disabled
  | .handler answer =>
      match c.running with
      | [] => .error .disabled
      | ev :: rest => (handle { c with running := rest } answer ev).mapError .fault
  | .functor => .error .disabled

end Acting

/-! ## The steps of the loop -/

def acting (l : SharedLoop) (i : Nat) : Option Acting :=
  l.conns[i]?.map fun conn => { toConn := conn, toParts := l.parts, id := i }

def put (l : SharedLoop) (c : Acting) : SharedLoop where
  conns := l.conns.set c.id c.toConn
  parts := c.toParts

/-- No handler is running. -/
def idle (l : SharedLoop) : Bool := l.conns.all fun conn => conn.running.isEmpty

def makeTcpConnection (l : SharedLoop) (ptr : Nat) (fd : Int) : SharedLoop :=
  let conn : Conn :=
    { state := .Established
      isWaitWriting := false
      channel := TcpChannel.new
      epollEvent := ⟨ptr, fd, fun _ => false⟩
      inLoop := true
      heldElsewhere := false
      running := []
      callbacks := []
      shutdownWrites := 0
      peer := ⟨[], false⟩
      history := ⟨[], [], [], [], 0⟩ }
  let c : Acting := { toConn := conn, toParts := l.parts, id := l.conns.length }
  let c := c.active [.IN, .RDHUP]
  let c : Acting := { c with
    wheel := c.wheel.map fun wheel => wheel.addToWheel ⟨c.id, .idle⟩ }
  { conns := l.conns ++ [c.toConn], parts := c.toParts }

/-- The functor at the head of the queue; a weak pointer that has expired does nothing. -/
def runPending (l : SharedLoop) : Except Halt SharedLoop :=
  match l.parts.functors with
  | [] => .error .disabled
  | f :: rest =>
      let l : SharedLoop := { l with parts := { l.parts with functors := rest } }
      match l.acting f.tag with
      | none => .ok l
      | some c => .ok (if c.alive then l.put (c.runFunctor f.entry) else l)

/-- A weak pointer to the connection can be locked. -/
def alive (l : SharedLoop) (i : Nat) : Bool := (l.acting i).elim false Acting.alive

def behaviour (l : SharedLoop) (wheel : TimeWheel (Tagged Nat WheelEntry)) :
    TimeWheel.Behaviour (Tagged Nat WheelEntry) where
  onTimeout x :=
    match x.entry with
    | .idle => []
    | .halfClose =>
        if l.alive x.tag then [.remove (wheel.lock ⟨x.tag, .idle⟩), .remove (some x)] else []
  eraseOnTimeout _ := true

def onTimeout (l : SharedLoop) (x : Tagged Nat WheelEntry) : SharedLoop :=
  match l.acting x.tag with
  | none => l
  | some c =>
      if c.alive then
        match x.entry with
        | .idle => l.put { c with
            functors := c.functors ++ [⟨c.id, .closeAfterWriteCompleted⟩] }
        | .halfClose => l.put c.disconnect
      else l

def tick (l : SharedLoop) : Except Halt SharedLoop :=
  match l.parts.wheel with
  | none => .error .disabled
  | some wheel =>
      if l.idle ∧ wheel.bucketSize ≠ 0 then
        ((wheel.tick (l.behaviour wheel)).map fun s =>
          s.fired.foldl onTimeout { l with
            parts := { l.parts with wheel := some s.wheel } }).mapError .fault
      else .error .disabled

inductive Event where
  | make (ptr : Nat) (fd : Int)
  /-- An event of the connection with this number. -/
  | conn (i : Nat) (e : TcpConnection.Event)
  /-- The loop runs the next functor. -/
  | functor
  | tick

/-- The event is not the dispatch of a mask, or the loop is idle. -/
def mayStart (l : SharedLoop) : TcpConnection.Event → Bool
  | .dispatch _ => l.idle
  | _ => true

def step (l : SharedLoop) : Event → Except Halt SharedLoop
  | .make ptr fd => .ok (l.makeTcpConnection ptr fd)
  | .conn i e =>
      match l.acting i with
      | none => .error .disabled
      | some c => if l.mayStart e then (c.step e).map l.put else .error .disabled
  | .functor => if l.idle then l.runPending else .error .disabled
  | .tick => l.tick

/-- A loop without connections, with or without a wheel of so many buckets. -/
def new (ctlAnswers : Nat → Answer Unit) (bucketCount : Option Nat) : SharedLoop :=
  ⟨[], ⟨Epoll.new, ctlAnswers, bucketCount.map TimeWheel.new, []⟩⟩

end SharedLoop

end Netpp
