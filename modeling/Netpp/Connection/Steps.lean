import Netpp.Connection.TcpConnection

/-!
# What a step of the connection does

The handlers and functors are inverted here once. For each handler there is a
relation whose constructors are its outcomes, and a theorem that a handler that
returns has one of them. The time wheel matters to none of the properties of the
connection itself, so the outcomes leave it open.
-/

namespace Netpp

namespace TcpConnection

variable {c c' : TcpConnection}

/-! ## The wheel -/

theorem renewWheel_ok (h : c.renewWheel = .ok c') : ∃ wheel, c' = { c with wheel := wheel } := by
  unfold renewWheel at h
  cases hwheel : c.wheel with
  | none =>
      rw [hwheel] at h
      cases h
      exact ⟨none, by rw [← hwheel]⟩
  | some wheel =>
      rw [hwheel] at h
      obtain ⟨w₁, -, h⟩ := Except.exists_of_bind_eq_ok h
      obtain ⟨w₂, -, h⟩ := Except.exists_of_bind_eq_ok h
      cases h
      exact ⟨some w₂, rfl⟩

theorem removeFromWheel_ok (h : c.removeFromWheel = .ok c') :
    ∃ wheel, c' = { c with wheel := wheel } := by
  unfold removeFromWheel at h
  cases hwheel : c.wheel with
  | none =>
      rw [hwheel] at h
      cases h
      exact ⟨none, by rw [← hwheel]⟩
  | some wheel =>
      rw [hwheel] at h
      obtain ⟨w₁, -, h⟩ := Except.exists_of_bind_eq_ok h
      obtain ⟨w₂, -, h⟩ := Except.exists_of_bind_eq_ok h
      cases h
      exact ⟨some w₂, rfl⟩

theorem forceClose_ok (h : c.forceClose = .ok c') :
    ∃ wheel, c' = disconnect { c with wheel := wheel } := by
  obtain ⟨c₁, hremove, rfl⟩ := Except.exists_of_map_eq_ok h
  obtain ⟨wheel, rfl⟩ := removeFromWheel_ok hremove
  exact ⟨wheel, rfl⟩

/-! ## Outcomes of the handlers -/

/-- `recvmsg` has delivered bytes, perhaps none, or has returned `-1`. -/
def received (c : TcpConnection) (wheel : Option (TimeWheel WheelEntry)) (b : ByteArray)
    (taken : List UInt8) : TcpConnection :=
  call { c with
    wheel := wheel
    channel := { c.channel with writeArray := b }
    history := { c.history with delivered := c.history.delivered ++ taken } } .onMessageReceived

/-- `sendmsg` has accepted bytes, perhaps none, or has returned `-1`. -/
def transmitted (c : TcpConnection) (wheel : Option (TimeWheel WheelEntry)) (b : ByteArray)
    (sent : List UInt8) : TcpConnection :=
  { c with
    wheel := wheel
    channel := { c.channel with readArray := b }
    history := { c.history with accepted := c.history.accepted ++ sent } }

/-- The write is taken to be complete. -/
def completed (c : TcpConnection) : TcpConnection :=
  { (c.deactivate [.OUT]).call .onWriteCompleted with isWaitWriting := false }

/-- The outcomes of `handleIn`. -/
inductive HandleIn (c : TcpConnection) (answer : Answer Nat) : TcpConnection → Prop
  | received (wheel b taken)
      (hread : SocketIO.read .reader c.channel.writeArray (c.arrived answer) =
        .ok (.ok (b, taken))) :
      HandleIn c answer (c.received wheel b taken)
  | refused (wheel e) (hstub : Stub.recvmsg (c.arrived answer) = .error (.socketException e)) :
      HandleIn c answer (disconnect { c.call (.onError (getError e)) with wheel := wheel })
  | limited (wheel e)
      (hstub : Stub.recvmsg (c.arrived answer) = .error (.resourceLimitException e)) :
      HandleIn c answer { c.call (.onError (getError e)) with wheel := wheel }

/-- The outcomes of `handleOut`. -/
inductive HandleOut (c : TcpConnection) (answer : Answer Nat) : TcpConnection → Prop
  | finished (wheel b sent)
      (hwrite : SocketIO.write .reader c.channel.readArray answer = .ok (.ok (b, sent, true)))
      (hstate : c.state ≠ .HalfClose) :
      HandleOut c answer (c.transmitted wheel b sent).completed
  | closed (wheel b sent)
      (hwrite : SocketIO.write .reader c.channel.readArray answer = .ok (.ok (b, sent, true)))
      (hstate : c.state = .HalfClose) :
      HandleOut c answer (c.transmitted wheel b sent).completed.disconnect
  | unfinished (wheel b sent)
      (hwrite : SocketIO.write .reader c.channel.readArray answer = .ok (.ok (b, sent, false))) :
      HandleOut c answer (c.transmitted wheel b sent)
  | reset (wheel e) (hstub : Stub.sendmsg answer = .error (.socketException e)) :
      HandleOut c answer (disconnect { c.call (.onError (getError e)) with
        wheel := wheel
        isWaitWriting := false })
  | limited (wheel e) (hstub : Stub.sendmsg answer = .error (.resourceLimitException e)) :
      HandleOut c answer { c.call (.onError (getError e)) with wheel := wheel }

/-- The outcomes of `handleRdhup`. -/
inductive HandleRdhup (c : TcpConnection) : TcpConnection → Prop
  | closed (wheel) (hstate : c.state = .Established) (hidle : c.isWaitWriting = false) :
      HandleRdhup c (disconnect { c.deactivate [.RDHUP, .IN] with
        wheel := wheel
        state := .HalfClose })
  | halfClosed (hstate : c.state = .Established) (hwaiting : c.isWaitWriting = true) :
      HandleRdhup c { c.deactivate [.RDHUP, .IN] with state := .HalfClose }
  | ignored (hstate : c.state ≠ .Established) : HandleRdhup c (c.deactivate [.RDHUP, .IN])

/-- An exception of `SocketIO::read` is one of `recvmsg`. -/
theorem read_error {io : ByteArray2IOVec} {b : ByteArray} {answer : Answer (List UInt8)}
    {e : Exception} (h : SocketIO.read io b answer = .ok (.error e)) :
    Stub.recvmsg answer = .error e := by
  unfold SocketIO.read at h
  cases hstub : Stub.recvmsg answer with
  | error e' =>
      rw [hstub] at h
      injection h with h
      injection h with h
      rw [h]
  | ok arrived =>
      rw [hstub] at h
      cases arrived with
      | none => cases h
      | some arrived =>
          obtain ⟨vec, -, h⟩ := Except.exists_of_bind_eq_ok h
          obtain ⟨nodes, -, h⟩ := Except.exists_of_bind_eq_ok h
          obtain ⟨b', -, h⟩ := Except.exists_of_bind_eq_ok h
          cases h

/-- Without an exception of `SocketIO::read` there is none of `recvmsg`. -/
theorem read_ok {io : ByteArray2IOVec} {b : ByteArray} {answer : Answer (List UInt8)}
    {r : ByteArray × List UInt8} (h : SocketIO.read io b answer = .ok (.ok r)) :
    ∃ arrived, Stub.recvmsg answer = .ok arrived := by
  cases hstub : Stub.recvmsg answer with
  | error e =>
      unfold SocketIO.read at h
      rw [hstub] at h
      cases h
  | ok arrived => exact ⟨arrived, rfl⟩

/-- An exception of `SocketIO::write` is one of `sendmsg`. -/
theorem write_error {io : ByteArray2IOVec} {b : ByteArray} {answer : Answer Nat}
    {e : Exception} (h : SocketIO.write io b answer = .ok (.error e)) :
    Stub.sendmsg answer = .error e := by
  unfold SocketIO.write at h
  cases hstub : Stub.sendmsg answer with
  | error e' =>
      rw [hstub] at h
      injection h with h
      injection h with h
      rw [h]
  | ok room =>
      rw [hstub] at h
      cases room with
      | none => cases h
      | some room =>
          obtain ⟨vec, -, h⟩ := Except.exists_of_bind_eq_ok h
          obtain ⟨bytes, -, h⟩ := Except.exists_of_bind_eq_ok h
          obtain ⟨b', -, h⟩ := Except.exists_of_bind_eq_ok h
          cases h

theorem handleIn_ok {answer : Answer Nat} (h : c.handleIn answer = .ok c') :
    HandleIn c answer c' := by
  obtain ⟨c₁, hrenew, h⟩ := Except.exists_of_bind_eq_ok h
  obtain ⟨wheel, rfl⟩ := renewWheel_ok hrenew
  obtain ⟨result, hread, h⟩ := Except.exists_of_bind_eq_ok h
  cases result with
  | ok r =>
      obtain ⟨b, taken⟩ := r
      cases h
      exact .received wheel b taken hread
  | error e =>
      cases e with
      | socketException e =>
          obtain ⟨wheel', rfl⟩ := forceClose_ok h
          exact .refused wheel' e (read_error hread)
      | resourceLimitException e =>
          cases h
          exact .limited wheel e (read_error hread)

theorem handleOut_ok {answer : Answer Nat} (h : c.handleOut answer = .ok c') :
    HandleOut c answer c' := by
  obtain ⟨c₁, hrenew, h⟩ := Except.exists_of_bind_eq_ok h
  obtain ⟨wheel, rfl⟩ := renewWheel_ok hrenew
  obtain ⟨result, hwrite, h⟩ := Except.exists_of_bind_eq_ok h
  cases result with
  | ok r =>
      obtain ⟨b, sent, writeCompleted⟩ := r
      cases writeCompleted with
      | false =>
          cases h
          exact .unfinished wheel b sent hwrite
      | true =>
          change (if c.state = .HalfClose then (c.transmitted wheel b sent).completed.forceClose
            else .ok (c.transmitted wheel b sent).completed) = _ at h
          by_cases hstate : c.state = .HalfClose
          · rw [if_pos hstate] at h
            obtain ⟨wheel', rfl⟩ := forceClose_ok h
            exact .closed wheel' b sent hwrite hstate
          · rw [if_neg hstate] at h
            cases h
            exact .finished wheel b sent hwrite hstate
  | error e =>
      cases e with
      | socketException e =>
          obtain ⟨wheel', rfl⟩ := forceClose_ok h
          exact .reset wheel' e (write_error hwrite)
      | resourceLimitException e =>
          cases h
          exact .limited wheel e (write_error hwrite)

theorem handleRdhup_ok (h : c.handleRdhup = .ok c') : HandleRdhup c c' := by
  change (if c.state = .Established then
    if c.isWaitWriting then
      Except.ok { c.deactivate [.RDHUP, .IN] with state := .HalfClose }
    else forceClose { c.deactivate [.RDHUP, .IN] with state := .HalfClose }
    else .ok (c.deactivate [.RDHUP, .IN])) = _ at h
  by_cases hstate : c.state = .Established
  · rw [if_pos hstate] at h
    cases hwaiting : c.isWaitWriting with
    | true =>
        rw [if_pos hwaiting] at h
        cases h
        exact .halfClosed hstate hwaiting
    | false =>
        rw [if_neg (by rw [hwaiting]; decide)] at h
        obtain ⟨wheel, rfl⟩ := forceClose_ok h
        exact .closed wheel hstate hwaiting
  · rw [if_neg hstate] at h
    cases h
    exact .ignored hstate

/-! ## Outcomes of the functors -/

inductive RunFunctor (c : TcpConnection) : Functor → TcpConnection → Prop
  | send (covers) : RunFunctor c (.sendInLoop covers) (c.sendFunctor covers)
  | halfClosed (hstate : c.state = .Established) (hwaiting : c.isWaitWriting = true) :
      RunFunctor c .closeAfterWriteCompleted { c with state := .HalfClose }
  | shutdown (wheel) (hstate : c.state = .Established) (hidle : c.isWaitWriting = false) :
      RunFunctor c .closeAfterWriteCompleted { deactivate { c with
        state := .HalfClose
        shutdownWrites := c.shutdownWrites + 1 } [.RDHUP] with wheel := wheel }
  | ignored (hstate : c.state ≠ .Established) : RunFunctor c .closeAfterWriteCompleted c

theorem runFunctor_spec (c : TcpConnection) (f : Functor) : RunFunctor c f (c.runFunctor f) := by
  cases f with
  | sendInLoop covers => exact .send covers
  | closeAfterWriteCompleted =>
      change RunFunctor c _ c.closeFunctor
      unfold closeFunctor
      by_cases hstate : c.state = .Established
      · rw [if_pos hstate]
        by_cases hwaiting : c.isWaitWriting = true
        · rw [if_pos hwaiting]
          exact .halfClosed hstate hwaiting
        · rw [if_neg hwaiting]
          exact .shutdown _ hstate (Bool.not_eq_true _ ▸ hwaiting)
      · rw [if_neg hstate]
        exact .ignored hstate

/-! ## Outcomes of a step -/

/-- The outcomes of the handler for an event. -/
inductive Handle (c : TcpConnection) (answer : Answer Nat) : EpollEv → TcpConnection → Prop
  | rdhup (d) (h : HandleRdhup c d) : Handle c answer .RDHUP d
  | receive (d) (h : HandleIn c answer d) : Handle c answer .IN d
  | transmit (d) (h : HandleOut c answer d) : Handle c answer .OUT d
  | nothing (ev) (hev : ev ≠ .RDHUP ∧ ev ≠ .IN ∧ ev ≠ .OUT) : Handle c answer ev c

theorem handle_ok {answer : Answer Nat} {ev : EpollEv} (h : c.handle answer ev = .ok c') :
    Handle c answer ev c' := by
  cases ev with
  | IN => exact .receive c' (handleIn_ok h)
  | OUT => exact .transmit c' (handleOut_ok h)
  | RDHUP => exact .rdhup c' (handleRdhup_ok h)
  | PRI =>
      cases h
      exact .nothing _ (by decide)
  | ERR =>
      cases h
      exact .nothing _ (by decide)
  | HUP =>
      cases h
      exact .nothing _ (by decide)

/-- The outcomes of a step. -/
inductive Stepped (c : TcpConnection) : Event → TcpConnection → Prop
  | write (data b)
      (hmemory : c.channel.writeArray.readableBytes + data.length < ByteArray.memoryLimit)
      (hwrite : c.channel.writeArray.writeRaw data = .ok b) :
      Stepped c (.write data) { c with
        channel := { c.channel with writeArray := b }
        history := { c.history with written := c.history.written ++ data } }
  | retrieve (length b count bytes)
      (hretrieve : c.channel.readArray.retrieveRaw length = .ok (b, count, bytes)) :
      Stepped c (.retrieve length) { c with
        channel := { c.channel with readArray := b }
        history := { c.history with retrieved := c.history.retrieved ++ bytes } }
  | retrieveNone (length) : Stepped c (.retrieve length) c
  | send (functors)
      (hfunctors : functors = c.functors ∨
        functors = c.functors ++ [.sendInLoop c.history.written.length]) :
      Stepped c .send { c with functors := functors }
  | close (functors)
      (hfunctors : functors = c.functors ∨ functors = c.functors ++ [.closeAfterWriteCompleted]) :
      Stepped c .close { c with functors := functors }
  | hold : Stepped c .hold { c with heldElsewhere := true }
  | release : Stepped c .release { c with heldElsewhere := false }
  | peerSend (data) (hfin : c.peer.fin = false) :
      Stepped c (.peerSend data) { c with peer := { c.peer with sent := c.peer.sent ++ data } }
  | peerFin : Stepped c .peerFin { c with peer := { c.peer with fin := true } }
  | dispatch (mask) (hidle : c.running = []) :
      Stepped c (.dispatch mask) { c with running := handleEvents mask }
  | handler (answer ev rest d) (hrunning : c.running = ev :: rest)
      (h : Handle { c with running := rest } answer ev d) : Stepped c (.handler answer) d
  | functor (f rest d) (hidle : c.running = []) (hfunctors : c.functors = f :: rest)
      (halive : c.alive) (h : RunFunctor { c with functors := rest } f d) : Stepped c .functor d
  | expired (f rest) (hfunctors : c.functors = f :: rest) (hdead : ¬c.alive) :
      Stepped c .functor { c with functors := rest }

/-- A step that succeeds has one of the outcomes. -/
theorem step_ok {e : Event} (h : step c e = .ok c') : Stepped c e c' := by
  cases e with
  | write data =>
      obtain ⟨channel, hchannel, rfl⟩ :=
        Except.exists_of_map_eq_ok (Except.eq_ok_of_mapError_eq_ok h)
      unfold TcpChannel.write at hchannel
      by_cases hmemory :
          ByteArray.memoryLimit ≤ c.channel.writeArray.readableBytes + data.length
      · rw [if_pos hmemory] at hchannel
        cases hchannel
      · rw [if_neg hmemory] at hchannel
        obtain ⟨b, hwrite, rfl⟩ := Except.exists_of_map_eq_ok hchannel
        exact .write data b (by omega) hwrite
  | retrieve length =>
      obtain ⟨r, hchannel, rfl⟩ :=
        Except.exists_of_map_eq_ok (Except.eq_ok_of_mapError_eq_ok h)
      unfold TcpChannel.retrieve at hchannel
      by_cases hlength : length ≤ c.channel.readArray.readableBytes
      · rw [if_pos hlength] at hchannel
        obtain ⟨⟨b, count, bytes⟩, hretrieve, rfl⟩ := Except.exists_of_map_eq_ok hchannel
        exact .retrieve length b count bytes hretrieve
      · rw [if_neg hlength] at hchannel
        cases hchannel
        simpa using Stepped.retrieveNone (c := c) length
  | send =>
      simp only [step] at h
      split at h
      · cases h
        exact .send _ (.inr rfl)
      · cases h
        exact .send c.functors (.inl rfl)
  | close =>
      simp only [step] at h
      split at h
      · cases h
        exact .close _ (.inr rfl)
      · cases h
        exact .close c.functors (.inl rfl)
  | hold =>
      simp only [step] at h
      split at h
      · cases h
        exact .hold
      · cases h
  | release =>
      cases h
      exact .release
  | peerSend data =>
      simp only [step] at h
      split at h
      · cases h
      · rename_i hfin
        cases h
        exact .peerSend data (by simpa using hfin)
  | peerFin =>
      cases h
      exact .peerFin
  | dispatch mask =>
      simp only [step] at h
      split at h
      · rename_i hdispatch
        cases h
        exact .dispatch mask hdispatch.1
      · cases h
  | handler answer =>
      simp only [step] at h
      split at h
      · cases h
      · rename_i ev rest hrunning
        exact .handler answer ev rest c' hrunning
          (handle_ok (Except.eq_ok_of_mapError_eq_ok h))
  | functor =>
      simp only [step] at h
      split at h
      · rename_i hidle
        split at h
        · cases h
        · rename_i f rest hfunctors
          split at h
          · rename_i halive
            cases h
            exact .functor f rest _ hidle hfunctors halive (runFunctor_spec _ f)
          · rename_i hdead
            cases h
            exact .expired f rest hfunctors hdead
      · cases h

end TcpConnection

end Netpp
