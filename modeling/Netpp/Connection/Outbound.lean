import Netpp.Connection.Steps
import Netpp.Socket.GatherView

/-!
# The outbound stream

`ChannelWriter` fills `m_writeArray`, and `handleOut` sends what
`readBufferConvert` gives it, which is `m_readArray`. Nothing ever fills that
array: the connection receives into `m_writeArray` as well. So it stays empty in
every run (`Unfilled`), nothing is ever accepted by `sendmsg` and nothing is
retrieved, and the bytes written are never among the bytes to send.
-/

namespace Netpp

namespace TcpConnection

variable {c c' : TcpConnection}

/-! ## The array that is never filled -/

/-- Nothing is in the array from which the connection sends and the user
retrieves, and nothing has been. -/
structure Unfilled (c : TcpConnection) : Prop where
  readArray : ByteArray.Holds ByteArray.memoryLimit c.channel.readArray []
  accepted : c.history.accepted = []
  retrieved : c.history.retrieved = []

theorem makeTcpConnection_unfilled (epoll : Epoll Nat) (ctlAnswers : Nat → Answer Unit)
    (wheel : Option (TimeWheel WheelEntry)) (ptr : Nat) (fd : Int) :
    (makeTcpConnection epoll ctlAnswers wheel ptr fd).Unfilled :=
  ⟨ByteArray.new_holds _, rfl, rfl⟩

theorem Unfilled.handling (h : c.Unfilled) (rest : List EpollEv) :
    Unfilled { c with running := rest } :=
  ⟨h.readArray, h.accepted, h.retrieved⟩

/-- A transmission has nothing to send. It counts as complete unless `sendmsg`
returns `-1`. -/
theorem Unfilled.write (h : c.Unfilled) {answer : Answer Nat} {b : ByteArray}
    {sent : List UInt8} {writeCompleted : Bool}
    (hwrite : SocketIO.write .reader c.channel.readArray answer =
      .ok (.ok (b, sent, writeCompleted)))
    (wheel : Option (TimeWheel WheelEntry)) :
    (c.transmitted wheel b sent).Unfilled ∧
      if writeCompleted then ∃ room, Stub.sendmsg answer = .ok (some room)
      else Stub.sendmsg answer = .ok none := by
  obtain ⟨hsent, hholds, hcompleted⟩ := h.readArray.write_nil hwrite
  refine ⟨⟨hholds, ?_, h.retrieved⟩, hcompleted⟩
  change c.history.accepted ++ sent = []
  rw [h.accepted, hsent, List.append_nil]

theorem Unfilled.retrieve (h : c.Unfilled) {length count : Nat} {b : ByteArray}
    {bytes : List UInt8}
    (hretrieve : c.channel.readArray.retrieveRaw length = .ok (b, count, bytes)) :
    ByteArray.Holds ByteArray.memoryLimit b [] ∧ bytes = [] := by
  rcases Nat.eq_zero_or_pos length with rfl | hpos
  · obtain ⟨b', hok, hholds⟩ := h.readArray.retrieveRaw ByteArray.memoryLimit_le (Nat.zero_le _)
    rw [hok] at hretrieve
    cases hretrieve
    exact ⟨hholds, rfl⟩
  · rw [h.readArray.retrieveRaw_of_lt hpos] at hretrieve
    cases hretrieve
    exact ⟨h.readArray, rfl⟩

/-- Step lemma: no step fills the array. -/
theorem Unfilled.step (h : c.Unfilled) {e : Event} (hstep : Stepped c e c') : c'.Unfilled := by
  have hsame : ∀ d : TcpConnection, d.channel.readArray = c.channel.readArray →
      d.history.accepted = c.history.accepted → d.history.retrieved = c.history.retrieved →
      d.Unfilled := by
    intro d hread haccepted hretrieved
    exact ⟨hread ▸ h.readArray, haccepted.trans h.accepted, hretrieved.trans h.retrieved⟩
  cases hstep with
  | retrieve length b count bytes hretrieve =>
      obtain ⟨hholds, hbytes⟩ := h.retrieve hretrieve
      refine ⟨hholds, h.accepted, ?_⟩
      change c.history.retrieved ++ bytes = []
      rw [h.retrieved, hbytes, List.append_nil]
  | handler answer ev rest d hrunning hhandle =>
      cases hhandle with
      | rdhup d hrdhup => cases hrdhup <;> exact hsame _ rfl rfl rfl
      | receive d hreceive => cases hreceive <;> exact hsame _ rfl rfl rfl
      | transmit d htransmit =>
          have hrest := h.handling rest
          cases htransmit with
          | finished wheel b sent hwrite =>
              have htransmitted := (hrest.write hwrite wheel).1
              exact ⟨htransmitted.readArray, htransmitted.accepted, htransmitted.retrieved⟩
          | closed wheel b sent hwrite =>
              have htransmitted := (hrest.write hwrite wheel).1
              exact ⟨htransmitted.readArray, htransmitted.accepted, htransmitted.retrieved⟩
          | unfinished wheel b sent hwrite => exact (hrest.write hwrite wheel).1
          | reset => exact hsame _ rfl rfl rfl
          | limited => exact hsame _ rfl rfl rfl
      | nothing => exact hsame _ rfl rfl rfl
  | functor f rest d hidle hfunctors halive hrun => cases hrun <;> exact hsame _ rfl rfl rfl
  | _ => exact hsame _ rfl rfl rfl

/-- In every run nothing is accepted by `sendmsg` and nothing is retrieved. -/
theorem final_unfilled (epoll : Epoll Nat) (ctlAnswers : Nat → Answer Unit)
    (wheel : Option (TimeWheel WheelEntry)) (ptr : Nat) (fd : Int) {events : List Event}
    (h : Run.final step (makeTcpConnection epoll ctlAnswers wheel ptr fd) events = .ok c) :
    c.Unfilled := by
  apply Run.final_invariant _ (makeTcpConnection_unfilled epoll ctlAnswers wheel ptr fd) h
  intro c e c' hunfilled hstep
  exact hunfilled.step (step_ok hstep)

/-! ## The bytes written -/

/-- The bytes that the user writes in an event. -/
def Event.written : Event → List UInt8
  | .write data => data
  | _ => []

theorem Stepped.written {e : Event} (h : Stepped c e c') :
    c'.history.written = c.history.written ++ e.written := by
  have hsame : ∀ d : TcpConnection, d.history.written = c.history.written →
      d.history.written = c.history.written ++ [] := by
    intro d hd
    rw [hd, List.append_nil]
  cases h with
  | write data => rfl
  | handler answer ev rest d hrunning hhandle =>
      cases hhandle with
      | rdhup d hrdhup => cases hrdhup <;> exact hsame _ rfl
      | receive d hreceive => cases hreceive <;> exact hsame _ rfl
      | transmit d htransmit => cases htransmit <;> exact hsame _ rfl
      | nothing => exact hsame _ rfl
  | functor f rest d hidle hfunctors halive hrun => cases hrun <;> exact hsame _ rfl
  | _ => exact hsame _ rfl

/-! ## Integrity -/

/-- The bytes stored for sending. They are those of `m_readArray`, which `readBufferConvert`
gives `handleOut` to pass to `sendmsg`, and not those of `m_writeArray`, where the written bytes
are (`pending` counts these). -/
def toSend (c : TcpConnection) : List UInt8 :=
  (c.channel.get TcpChannelConversion.readBufferConvert.array).unread

/-- The outbound stream is that of the bytes written. -/
structure SendsWritten (c : TcpConnection) : Prop where
  accepted : c.history.accepted <+: c.history.written
  stored : c.history.accepted ++ c.toSend = c.history.written

/-- As nothing is accepted and nothing is stored for sending, nothing must have
been written. -/
theorem Unfilled.sendsWritten_iff (h : c.Unfilled) : c.SendsWritten ↔ c.history.written = [] := by
  have hstored : c.history.accepted ++ c.toSend = [] := by
    rw [h.accepted, List.nil_append]
    exact h.readArray.1
  constructor
  · intro hsends
    rw [← hsends.stored, hstored]
  · intro hwritten
    refine ⟨?_, by rw [hstored, hwritten]⟩
    rw [h.accepted]
    exact List.nil_prefix

/-- The outbound stream of a connection is that of the bytes written exactly if
every write is empty. -/
theorem sendsWritten_iff_writesNothing (epoll : Epoll Nat) (ctlAnswers : Nat → Answer Unit)
    (wheel : Option (TimeWheel WheelEntry)) (ptr : Nat) (fd : Int) (events : List Event) :
    Run.Always step (Run.Each step fun _ _ c => c.SendsWritten)
        (makeTcpConnection epoll ctlAnswers wheel ptr fd) events ↔
      Run.Always step (Run.Each step fun _ e _ => e.written = [])
        (makeTcpConnection epoll ctlAnswers wheel ptr fd) events := by
  apply Run.always_each_iff (J := fun c => c.Unfilled ∧ c.history.written = [])
  · rintro c e c' ⟨hunfilled, hwritten⟩ hnothing h
    refine ⟨hunfilled.step (step_ok h), ?_⟩
    rw [(step_ok h).written, hwritten, hnothing, List.append_nil]
  · rintro c e c' ⟨hunfilled, hwritten⟩ h
    rw [(hunfilled.step (step_ok h)).sendsWritten_iff, (step_ok h).written, hwritten,
      List.nil_append]
  · exact ⟨makeTcpConnection_unfilled epoll ctlAnswers wheel ptr fd, rfl⟩

/-- A byte that is written and announced is not sent: `handleOut` offers the
kernel nothing and takes the write to be complete. -/
theorem sendsWritten_fails :
    ¬ Run.Always step (Run.Each step fun _ _ c => c.SendsWritten)
      (makeTcpConnection Epoll.new (fun _ => .done ()) none 0 5)
      [.write [1], .send, .functor, .dispatch (· == .OUT), .handler (.done 1)] := by
  intro h
  have hstored := (h.1 _ rfl).stored
  change [] ++ [] = [1] at hstored
  cases hstored

end TcpConnection

end Netpp
