import Netpp.Client.TcpClient
import Netpp.Connection.Progress
import Netpp.Connector.Pursued

/-!
# What a disconnect does

After `disconnect` and the functors it has queued, no attempt of the client should be
outstanding and no connection of it established, until the next `connect`. As the
client has forgotten its connectors, a call of `disconnect` changes nothing, so this
holds exactly if there was nothing to disconnect. It does hold from then on: an attempt
that is at an end does not begin again, and a connection does not return to
`Established`.
-/

namespace Netpp

namespace TcpClient

/-- The attempt is not outstanding, and its connection has left `Established`. -/
def Attempt.Quiet (a : Attempt) : Prop :=
  ¬a.connector.Outstanding ∧ ∀ tcp, a.connection = some tcp → tcp.state ≠ .Established

def Quiet (client : TcpClient) : Prop := ∀ a ∈ client.attempts, a.Quiet

/-- The functors that `disconnect` has queued have run. -/
def Settled (client : TcpClient) : Prop :=
  ∀ a ∈ client.attempts, .stopConnect ∉ a.connector.functors ∧ a.queued = 0

/-- `disconnect` has been called, and `connect` has not been called since. -/
def recordDisconnected (_ : TcpClient) (e : Event) (disconnected : Bool) : Bool :=
  match e with
  | .connect .. => false
  | .disconnect => true
  | _ => disconnected

/-- After a call of `disconnect` and its functors there is nothing left to disconnect. -/
def Effective (s : TcpClient × Bool) : Prop := s.2 = true → s.1.Settled → s.1.Quiet

/-- `disconnect` is called only when there is nothing to disconnect. -/
def NothingToDisconnect (s : TcpClient × Bool) : Event → Prop
  | .disconnect => s.1.Quiet
  | _ => True

variable {client client' : TcpClient} {e : Event} {disconnected : Bool}

/-! ## Steps -/

/-- The outcomes of a step. -/
inductive Stepped (client : TcpClient) : Event → TcpClient → Prop
  | connect (answer ctlAnswers ptr fd) :
      Stepped client (.connect answer ctlAnswers ptr) { client with
        attempts := client.attempts ++
          [⟨(Connector.makeConnector ctlAnswers ptr fd).runInLoop (.connect false), none, 0⟩] }
  | disconnect : Stepped client .disconnect client.disconnect
  | connector (id : Nat) (e : Connector.Event) (epoll wheel a connector)
      (ha : client.attempts[id]? = some a) (hloop : ofLoop e)
      (hstep : a.connector.step e = .ok connector) :
      Stepped client (.connector id e epoll wheel) { client with
        attempts := client.attempts.set id { a with
          connector := connector
          connection := (made a.connector e epoll wheel).or a.connection } }
  | connection (id : Nat) (e : TcpConnection.Event) (a tcp tcp')
      (ha : client.attempts[id]? = some a) (hconnection : a.connection = some tcp)
      (hstep : tcp.step e = .ok tcp') :
      Stepped client (.connection id e) { client with
        attempts := client.attempts.set id { a with
          connection := some tcp'
          queued := count e a.queued } }

/-- A step that succeeds has one of the outcomes. -/
theorem step_ok (h : client.step e = .ok client') : Stepped client e client' := by
  cases e with
  | connect answer ctlAnswers ptr =>
      simp only [step, connect] at h
      split at h
      · cases h
      · rename_i fd hstub
        cases h
        exact .connect answer ctlAnswers ptr _
  | disconnect =>
      cases h
      exact .disconnect
  | connector id e epoll wheel =>
      simp only [step] at h
      split at h
      · cases h
      · rename_i a ha
        split at h
        · rename_i hloop
          split at h
          · cases h
          · rename_i connector hstep
            cases h
            exact .connector id e epoll wheel a connector ha hloop hstep
        · cases h
  | connection id e =>
      simp only [step] at h
      split at h
      · cases h
      · rename_i a ha
        split at h
        · cases h
        · rename_i tcp hconnection
          split at h
          · cases h
          · rename_i tcp' hstep
            cases h
            exact .connection id e a tcp tcp' ha hconnection hstep

/-! ## The invariant -/

/-- The client has no connector, and no one stops those it has made. -/
structure Forgotten (client : TcpClient) : Prop where
  connector : client.connector = none
  pursued : ∀ a ∈ client.attempts, a.connector.Pursued
  queued : ∀ a ∈ client.attempts, a.queued = 0

theorem new_forgotten : new.Forgotten where
  connector := rfl
  pursued _ h := by cases h
  queued _ h := by cases h

theorem Forgotten.disconnect (h : client.Forgotten) : client.disconnect = client := by
  unfold TcpClient.disconnect
  rw [h.connector]

theorem Forgotten.settled (h : client.Forgotten) : client.Settled :=
  fun a hmem => ⟨(h.pursued a hmem).unstopped, h.queued a hmem⟩

theorem connector_step_ne {e : Connector.Event} (h : ofLoop e) :
    e ≠ .connect ∧ e ≠ .stopConnect := by
  constructor <;> rintro rfl <;> cases h

/-- Step lemma: every step keeps the invariant. -/
theorem Forgotten.step (h : client.Forgotten) (hstep : Stepped client e client') :
    client'.Forgotten := by
  cases hstep with
  | connect answer ctlAnswers ptr fd =>
      refine ⟨h.connector, ?_, ?_⟩
      · intro a hmem
        rcases List.mem_append.mp hmem with hmem | hmem
        · exact h.pursued a hmem
        · rw [List.mem_singleton.mp hmem]
          exact Connector.makeConnector_pursued ctlAnswers ptr fd
      · intro a hmem
        rcases List.mem_append.mp hmem with hmem | hmem
        · exact h.queued a hmem
        · rw [List.mem_singleton.mp hmem]
  | disconnect =>
      rw [h.disconnect]
      exact h
  | connector id e epoll wheel a connector ha hloop hstep =>
      have hmem := List.mem_of_getElem? ha
      refine ⟨h.connector, ?_, ?_⟩
      · intro a' hmem'
        rcases List.mem_or_eq_of_mem_set hmem' with hmem' | rfl
        · exact h.pursued a' hmem'
        · exact (h.pursued a hmem).step (Connector.step_ok hstep) (connector_step_ne hloop).2
      · intro a' hmem'
        rcases List.mem_or_eq_of_mem_set hmem' with hmem' | rfl
        · exact h.queued a' hmem'
        · exact h.queued a hmem
  | connection id e a tcp tcp' ha hconnection hstep =>
      have hmem := List.mem_of_getElem? ha
      refine ⟨h.connector, ?_, ?_⟩
      · intro a' hmem'
        rcases List.mem_or_eq_of_mem_set hmem' with hmem' | rfl
        · exact h.pursued a' hmem'
        · exact h.pursued a hmem
      · intro a' hmem'
        rcases List.mem_or_eq_of_mem_set hmem' with hmem' | rfl
        · exact h.queued a' hmem'
        · have hqueued := h.queued a hmem
          cases e <;> simp [count, hqueued]

/-- An attempt that is at an end makes no connection. -/
theorem made_of_ended {c : Connector} (h : c.Pursued) (hended : ¬c.Outstanding)
    (e : Connector.Event) (epoll : Epoll Nat) (wheel : Option (TimeWheel WheelEntry)) :
    made c e epoll wheel = none := by
  have hnone := h.socket_eq_none hended
  unfold made
  rw [hnone]
  split
  · rename_i hsome
    cases hsome
  · rfl

/-- Step lemma: what is quiet stays so until the next `connect`. -/
theorem Forgotten.quiet (h : client.Forgotten) (hquiet : client.Quiet)
    (hstep : Stepped client e client') (hnoconnect : recordDisconnected client e true = true) :
    client'.Quiet := by
  cases hstep with
  | connect answer ctlAnswers ptr fd => cases hnoconnect
  | disconnect =>
      rw [h.disconnect]
      exact hquiet
  | connector id e epoll wheel a connector ha hloop hstep =>
      have hmem := List.mem_of_getElem? ha
      obtain ⟨hended, hleft⟩ := hquiet a hmem
      have hpursued := h.pursued a hmem
      intro a' hmem'
      rcases List.mem_or_eq_of_mem_set hmem' with hmem' | rfl
      · exact hquiet a' hmem'
      · refine ⟨?_, ?_⟩
        · exact hpursued.ended hended (Connector.step_ok hstep) (connector_step_ne hloop).1
        · rw [made_of_ended hpursued hended, Option.none_or]
          exact hleft
  | connection id e a tcp tcp' ha hconnection hstep =>
      have hmem := List.mem_of_getElem? ha
      obtain ⟨hended, hleft⟩ := hquiet a hmem
      have hprogress := (TcpConnection.step_ok hstep).progress
      intro a' hmem'
      rcases List.mem_or_eq_of_mem_set hmem' with hmem' | rfl
      · exact hquiet a' hmem'
      · refine ⟨hended, fun tcp'' hsome hestablished => ?_⟩
        cases hsome
        exact hleft tcp hconnection (hprogress.established hestablished).1

/-- The invariant, with what has been true since the last `disconnect`. -/
structure Parted (s : TcpClient × Bool) : Prop where
  forgotten : s.1.Forgotten
  quiet : s.2 = true → s.1.Quiet

theorem Parted.step (h : Parted (client, disconnected)) (hstep : Stepped client e client')
    (hnothing : NothingToDisconnect (client, disconnected) e) :
    Parted (client', recordDisconnected client e disconnected) where
  forgotten := h.forgotten.step hstep
  quiet := by
    intro hsince
    cases disconnected with
    | true => exact h.forgotten.quiet (h.quiet rfl) hstep hsince
    | false =>
        cases hstep with
        | disconnect => exact h.forgotten.quiet hnothing .disconnect rfl
        | _ => cases hsince

theorem Parted.effective_iff (h : Parted (client, disconnected))
    (hstep : Stepped client e client') :
    Effective (client', recordDisconnected client e disconnected) ↔
      NothingToDisconnect (client, disconnected) e := by
  constructor
  · intro heffective
    cases hstep with
    | disconnect =>
        rw [h.forgotten.disconnect] at heffective
        exact heffective rfl h.forgotten.settled
    | _ => trivial
  · intro hnothing hsince _
    exact (h.step hstep hnothing).quiet hsince

/-- In a run nothing is outstanding or established from each `disconnect` to the next
`connect`, if and only if that was so when `disconnect` was called. -/
theorem effective_iff_nothingToDisconnect (events : List Event) :
    Run.Always (Run.recorded step recordDisconnected)
        (Run.Each (Run.recorded step recordDisconnected) fun _ _ s => Effective s)
        (new, false) events ↔
      Run.Always (Run.recorded step recordDisconnected)
        (Run.Each (Run.recorded step recordDisconnected) fun s e _ => NothingToDisconnect s e)
        (new, false) events := by
  apply Run.always_each_iff (J := Parted)
  · rintro ⟨client, disconnected⟩ e ⟨client', disconnected'⟩ h hnothing hok
    obtain ⟨hstep, hrecord⟩ := Run.recorded_ok hok
    rw [show disconnected' = _ from hrecord]
    exact h.step (step_ok hstep) hnothing
  · rintro ⟨client, disconnected⟩ e ⟨client', disconnected'⟩ h hok
    obtain ⟨hstep, hrecord⟩ := Run.recorded_ok hok
    rw [show disconnected' = _ from hrecord]
    exact h.effective_iff (step_ok hstep)
  · exact ⟨new_forgotten, nofun⟩

/-- The client disconnects when the connection is established, and it stays so. -/
theorem effective_fails : ¬Run.Always (Run.recorded step recordDisconnected)
    (Run.Each (Run.recorded step recordDisconnected) fun _ _ s => Effective s) (new, false)
    [.connect (.done 5) (fun _ => .done ()) 0,
      .connector 0 (.functor (.failed .EINPROGRESS)) Epoll.new none,
      .connector 0 (.poll [5]) Epoll.new none,
      .connector 0 (.handleOut .NOERROR 6 false) Epoll.new none, .disconnect] := by
  intro h
  have heffective := ((((h.2 _ rfl).2 _ rfl).2 _ rfl).2 _ rfl).1 _ rfl
  have hquiet := heffective rfl ?_ _ (List.mem_singleton_self _)
  · exact hquiet.2 _ rfl rfl
  · intro a hmem
    rw [List.mem_singleton.mp hmem]
    exact ⟨List.not_mem_nil, rfl⟩

end TcpClient

end Netpp
