import Netpp.Connection.TcpConnection
import Netpp.Connector.Connector

/-!
# The client

`TcpClient::connect` makes a `Connector` and calls its `connect`, and
`TcpClient::disconnect`, which the destructor calls as well, goes by `m_connector`: it
stops that connector, or closes its connection if there is one. But the connector of
`connect` is a local variable. `m_connector` is null from the beginning, and the only
assignment to it is the one of null.

The state has all connectors that the client has made and the connections these have
made. The calls come from any thread at any time; a connector and a connection each
stand for the parts of their loop that they use.
-/

namespace Netpp

namespace TcpClient

/-- A connector that `connect` has made, and its connection. -/
structure Attempt where
  connector : Connector
  connection : Option TcpConnection
  /-- So many functors of the connection are to be run up to the one that `disconnect`
  has queued. -/
  queued : Nat

end TcpClient

structure TcpClient where
  /-- `m_connector`, by its place among the attempts. -/
  connector : Option Nat
  attempts : List TcpClient.Attempt

namespace TcpClient

/-- Why there is no next state. -/
inductive Halt where
  /-- The event cannot happen here. -/
  | disabled
  /-- The null pointer of a `makeConnector` that has failed is used. -/
  | nullConnector
  | connector (halt : Connector.Halt)
  | connection (halt : TcpConnection.Halt)

/-- The constructor. -/
def new : TcpClient := ⟨none, []⟩

/-- `connect`, with the answer for the new socket; its event will be at `ptr`. -/
def connect (client : TcpClient) (answer : Answer Int) (ctlAnswers : Nat → Answer Unit)
    (ptr : Nat) : Except Halt TcpClient :=
  match Stub.socket answer with
  | .error _ => .error .nullConnector
  | .ok fd =>
      let connector := Connector.makeConnector ctlAnswers ptr (fd.getD (-1))
      .ok { client with
        attempts := client.attempts ++ [⟨connector.runInLoop (.connect false), none, 0⟩] }

/-- `closeAfterWriteCompleted` of the connection, if it can be locked. -/
def Attempt.close (a : Attempt) : Attempt :=
  match a.connection with
  | none => a
  | some tcp =>
      if tcp.alive then
        { a with
          connection := some { tcp with functors := tcp.functors ++ [.closeAfterWriteCompleted] }
          queued := tcp.functors.length + 1 }
      else a

def disconnect (client : TcpClient) : TcpClient :=
  match client.connector with
  | none => client
  | some id =>
      { connector := none
        attempts := client.attempts.modify id fun a =>
          if a.connector.connectionEstablished then a.close
          else { a with connector := a.connector.runInLoop .stopConnect } }

/-! ## Steps -/

inductive Event where
  /-- The user calls `connect`. -/
  | connect (answer : Answer Int) (ctlAnswers : Nat → Answer Unit) (ptr : Nat)
  /-- The user calls `disconnect` or destroys the client. -/
  | disconnect
  /-- The loop of a connector takes a step. A connection that is made finds this epoll
  and this wheel in its loop. -/
  | connector (id : Nat) (e : Connector.Event) (epoll : Epoll Nat)
      (wheel : Option (TimeWheel WheelEntry))
  /-- A step of a connection, of whatever thread. -/
  | connection (id : Nat) (e : TcpConnection.Event)

/-- The loop takes the step. The client has the only other pointer to the connector. -/
def ofLoop : Connector.Event → Bool
  | .connect | .stopConnect => false
  | _ => true

/-- The connection that a step of the connector makes. -/
def made (c : Connector) (e : Connector.Event) (epoll : Epoll Nat)
    (wheel : Option (TimeWheel WheelEntry)) : Option TcpConnection :=
  match e, c.socket with
  | .handleOut .NOERROR _ _, some socket =>
      some (TcpConnection.makeTcpConnection epoll c.ctlAnswers wheel c.nextPtr socket.fd)
  | _, _ => none

/-- The functor that runs next is one of those up to that of `disconnect`. -/
def count (e : TcpConnection.Event) (queued : Nat) : Nat :=
  match e with
  | .functor => queued - 1
  | _ => queued

def step (client : TcpClient) : Event → Except Halt TcpClient
  | .connect answer ctlAnswers ptr => client.connect answer ctlAnswers ptr
  | .disconnect => .ok client.disconnect
  | .connector id e epoll wheel =>
      match client.attempts[id]? with
      | none => .error .disabled
      | some a =>
          if ofLoop e then
            match a.connector.step e with
            | .error halt => .error (.connector halt)
            | .ok connector =>
                .ok { client with
                  attempts := client.attempts.set id { a with
                    connector := connector
                    connection := (made a.connector e epoll wheel).or a.connection } }
          else .error .disabled
  | .connection id e =>
      match client.attempts[id]? with
      | none => .error .disabled
      | some a =>
          match a.connection with
          | none => .error .disabled
          | some tcp =>
              match tcp.step e with
              | .error halt => .error (.connection halt)
              | .ok tcp =>
                  .ok { client with
                    attempts := client.attempts.set id { a with
                      connection := some tcp
                      queued := count e a.queued } }

end TcpClient

end Netpp
