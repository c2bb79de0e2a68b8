import Netpp.Connection.TcpConnection
import Netpp.Time.Timer

/-!
# The connector

A `Connector` connects a socket to a given address. `connect` and `stopConnect`
may be called from any thread and queue functors in the loop; the loop also
delivers `EPOLLOUT` when the attempt has an outcome, and runs the retry timer
after an attempt that failed. On success the socket is handed to a
`TcpConnection`.

The state is that of the connector and of the parts of its loop that it uses. The
user keeps a pointer to the connector, so it is not destroyed. A pointer that
`epoll_wait` has returned stays in `batch` until its turn comes; by then the event
it points to may be gone, and the event of an attempt that has been stopped is
delivered all the same.
-/

namespace Netpp

namespace Connector

/-- A socket, and whether `connect` has been called on it. -/
structure Socket where
  fd : Int
  connectIssued : Bool

inductive Callback where
  | onConnected
  | onError (code : SocketError)
  deriving DecidableEq

/-- The functors in the queue of the loop. `connect` is called by the user and by
the retry timer. -/
inductive Functor where
  | connect (retry : Bool)
  | stopConnect
  /-- `TimerHandler::remove`. -/
  | remove (handlerEvent : EpollEvent Nat)

end Connector

structure Connector where
  state : TcpState
  socket : Option Connector.Socket
  epollEvent : EpollEvent Nat
  retryTimer : Option Timer
  connectionEstablished : Bool
  /-- The event of the `TcpConnection`, if it lives in the same loop. -/
  connection : Option (EpollEvent Nat)
  /-- The epoll of the loop, and the answers that `epoll_ctl` will give. -/
  epoll : Epoll Nat
  ctlAnswers : Nat → Answer Unit
  /-- The handler set of the loop has the connector. -/
  inHandlers : Bool
  functors : List Connector.Functor
  /-- The events that `epoll_wait` has returned and that are still to be handled. -/
  batch : List Nat
  callbacks : List Connector.Callback
  /-- Where the next event will be allocated. -/
  nextPtr : Nat
  /-- A functor of `stopConnect` has run, and none of a user's `connect` since. -/
  stopped : Bool

namespace Connector

/-! ## Helpers -/

def call (c : Connector) (callback : Callback) : Connector :=
  { c with callbacks := c.callbacks ++ [callback] }

/-- `EpollEvent::active` of an event, before which `event` has the new mask. -/
def update (c : Connector) (event : EpollEvent Nat) : Connector :=
  { c with
    epoll := c.epoll.updateEvent event (c.ctlAnswers 0)
    ctlAnswers := fun n => c.ctlAnswers (n + 1) }

/-- `m_epollEvent->active(OUT)`. -/
def activeOut (c : Connector) : Connector :=
  update { c with epollEvent := c.epollEvent.active [.OUT] } (c.epollEvent.active [.OUT])

/-- `EpollEvent::disable` of an event. -/
def disable (c : Connector) (event : EpollEvent Nat) : Connector :=
  { c with
    epoll := c.epoll.removeEvent event (c.ctlAnswers 0)
    ctlAnswers := fun n => c.ctlAnswers (n + 1) }

def runInLoop (c : Connector) (functor : Functor) : Connector :=
  { c with functors := c.functors ++ [functor] }

/-- The retry timer is stopped and destroyed: its handler queues its removal, and
the timerfd is closed. -/
def stopTimer (c : Connector) : Connector :=
  match c.retryTimer with
  | none => c
  | some timer =>
      { c.runInLoop (.remove timer.handlerEvent) with
        retryTimer := none
        epoll := c.epoll.close timer.handlerEvent.watchingFd }

/-- The constructor of `Timer` and `setupTimer`, for a new timerfd. -/
def setupTimer (c : Connector) (timerFd : Int) : Connector :=
  let timer := Timer.new c.nextPtr timerFd
  let timer := { timer with handlerEvent := timer.handlerEvent.active [.IN] }
  update { c with
    retryTimer := some (((timer.setSingleShot false).setInterval 100).start)
    nextPtr := c.nextPtr + 1 } timer.handlerEvent

/-- `reconnect`, when there is a retry timer. -/
def reconnect (c : Connector) : Connector :=
  { c.disable c.epollEvent with
    retryTimer := c.retryTimer.map fun timer =>
      if timer.interval < 4000 then timer.setInterval (timer.interval * 2) else timer }

/-- `TcpConnection::makeTcpConnection` in the loop of the connector. -/
def registerConnection (c : Connector) (fd : Int) : Connector :=
  let event : EpollEvent Nat := EpollEvent.active ⟨c.nextPtr, fd, fun _ => false⟩ [.IN, .RDHUP]
  update { c with connection := some event, nextPtr := c.nextPtr + 1 } event

/-! ## Functors and handlers -/

/-- Why there is no next state. -/
inductive Halt where
  /-- The event cannot happen here. -/
  | disabled
  /-- A null or moved-out socket is used. -/
  | nullSocket
  /-- An object that has been destroyed is used. -/
  | dangling
  /-- An exception leaves the loop. -/
  | uncaught (e : Exception)

/-- The functor of `connect`, with the answer of the system call `connect`. -/
def connectFunctor (c : Connector) (answer : Answer Unit) : Except Halt Connector :=
  if c.state = .Closed then
    -- connect may success immediately, manually enable read
    let c := activeOut { c with inHandlers := true }
    match c.socket with
    | none => .error .nullSocket
    | some socket =>
        let c := { c with socket := some { socket with connectIssued := true } }
        match Stub.connect answer with
        | .ok _ => .ok { c with state := .Connecting }
        | .error (.socketException e) =>
            if getError e = .INPROGRESS then .ok c else .ok (c.call (.onError (getError e)))
        | .error (.resourceLimitException e) => .error (.uncaught (.resourceLimitException e))
  else .ok c

/-- The functor of `stopConnect`. -/
def stopFunctor (c : Connector) : Connector :=
  if c.state = .Connecting then
    { c.stopTimer.disable c.epollEvent with
      inHandlers := false
      state := .Closed }
  else c

/-- The success of `handleOut`: clean up first, then make the connection. -/
def succeed (c : Connector) (socket : Socket) (sameLoop : Bool) : Connector :=
  let c := c.stopTimer.disable c.epollEvent
  let c := { c with socket := none }
  let c := if sameLoop then c.registerConnection socket.fd else c
  let c := { c with connectionEstablished := true }.call .onConnected
  { c with inHandlers := false }

/-- `handleOut` when `getError` returns `error`. A new timer would get `timerFd`,
and `sameLoop` says which loop a new connection lives in. -/
def handleOut (c : Connector) (error : SocketError) (timerFd : Int) (sameLoop : Bool) :
    Except Halt Connector :=
  match c.socket with
  | none => .error .nullSocket
  | some socket =>
      match error with
      | .TIMEDOUT | .CONNREFUSED =>
          if c.retryTimer.isSome then .ok c.reconnect
          else .ok (c.setupTimer timerFd).reconnect
      | .INPROGRESS => .ok c
      | .NOERROR => .ok (c.succeed socket sameLoop)
      | error => .ok (c.call (.onError error))

/-- The callback of the retry timer: a new socket and a new event replace the old
ones, and the old socket is closed at the end. -/
def onTimeOut (c : Connector) (answer : Answer Int) : Except Halt Connector :=
  match c.socket with
  | none => .error .nullSocket
  | some oldSocket =>
      match Stub.socket answer with
      | .error e => .error (.uncaught e)
      | .ok fd =>
          let fd := fd.getD (-1)
          let c := activeOut { c with
            socket := some ⟨fd, false⟩
            epollEvent := ⟨c.nextPtr, fd, fun _ => false⟩
            nextPtr := c.nextPtr + 1 }
          let c := c.runInLoop (.connect true)
          .ok { c with epoll := c.epoll.close oldSocket.fd }

/-! ## Steps -/

inductive Event where
  /-- The user calls `connect` or `stopConnect`. -/
  | connect
  | stopConnect
  /-- The loop runs the next functor; a call of `connect` has this answer. -/
  | functor (answer : Answer Unit)
  /-- `epoll_wait` returns, with these descriptors ready. -/
  | poll (ready : List Int)
  /-- The next event of the batch is the connector's and has `EPOLLOUT`. -/
  | handleOut (error : SocketError) (timerFd : Int) (sameLoop : Bool)
  /-- The next event of the batch is the retry timer's, whose `read` succeeds; the
  new socket has this answer. -/
  | handleIn (answer : Answer Int)
  /-- Nothing is done for the next event of the batch by the connector or its timer. -/
  | other

/-- A live event of the connector, its timer or its connection is at `ptr`. -/
def owns (c : Connector) (ptr : Nat) : Bool :=
  c.epollEvent.ptr = ptr || c.retryTimer.any (·.handlerEvent.ptr = ptr) ||
    c.connection.any (·.ptr = ptr)

def runFunctor (c : Connector) (answer : Answer Unit) : Functor → Except Halt Connector
  | .connect retry =>
      (c.connectFunctor answer).map fun c => { c with stopped := c.stopped && retry }
  | .stopConnect => .ok { c.stopFunctor with stopped := true }
  | .remove handlerEvent => .ok (c.disable handlerEvent)

def step (c : Connector) : Event → Except Halt Connector
  | .connect => .ok (c.runInLoop (.connect false))
  | .stopConnect => .ok (c.runInLoop .stopConnect)
  | .functor answer =>
      match c.functors with
      | [] => .error .disabled
      | functor :: functors => runFunctor { c with functors := functors } answer functor
  | .poll ready =>
      match c.batch with
      | [] => .ok { c with batch := ready.filterMap fun fd => (c.epoll.interest fd).map Prod.fst }
      | _ :: _ => .error .disabled
  | .handleOut error timerFd sameLoop =>
      match c.batch with
      | [] => .error .disabled
      | ptr :: batch =>
          if ptr = c.epollEvent.ptr then
            handleOut { c with batch := batch } error timerFd sameLoop
          else if c.owns ptr then .error .disabled else .error .dangling
  | .handleIn answer =>
      match c.batch with
      | [] => .error .disabled
      | ptr :: batch =>
          if c.retryTimer.any (·.handlerEvent.ptr = ptr) then
            onTimeOut { c with batch := batch } answer
          else if c.owns ptr then .error .disabled else .error .dangling
  | .other =>
      match c.batch with
      | [] => .error .disabled
      | ptr :: batch => if c.owns ptr then .ok { c with batch := batch } else .error .dangling

/-- `makeConnector`, for an event at `ptr` with the socket `fd`. -/
def makeConnector (ctlAnswers : Nat → Answer Unit) (ptr : Nat) (fd : Int) : Connector where
  state := .Closed
  socket := some ⟨fd, false⟩
  epollEvent := ⟨ptr, fd, fun _ => false⟩
  retryTimer := none
  connectionEstablished := false
  connection := none
  epoll := Epoll.new
  ctlAnswers := ctlAnswers
  inHandlers := false
  functors := []
  batch := []
  callbacks := []
  nextPtr := ptr + 1
  stopped := false

end Connector

end Netpp
