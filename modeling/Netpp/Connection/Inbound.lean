import Netpp.Connection.Effects

/-!
# The inbound stream

`handleIn` receives into what `writeBufferConvert` gives it, which is a reader of
`m_writeArray`: the kernel is offered the bytes that the user has written and not
the free space, so bytes arrive only while such bytes are there, and none arrives
in `m_readArray`, from which `ChannelReader` retrieves. The handler for
`EPOLLRDHUP` runs before that for `EPOLLIN` and does not drain the socket.
-/

namespace Netpp

namespace TcpConnection

variable {c c' : TcpConnection} {e : Event} {answer : Answer Nat}

/-- `recvmsg` in `handleIn` has bytes to deliver and is offered some space. -/
def takes (c : TcpConnection) (answer : Answer Nat) (ev : EpollEv) : Prop :=
  ev = .IN ∧ c.channel.writeArray.readableBytes ≠ 0 ∧
    ∃ arrived, Stub.recvmsg (c.arrived answer) = .ok (some arrived) ∧ arrived ≠ []

/-- Nothing has been delivered, and the array that receptions go to is well formed. -/
structure Undelivered (c : TcpConnection) : Prop where
  delivered : c.history.delivered = []
  writeArray : ∃ q, ByteArray.Holds ByteArray.memoryLimit c.channel.writeArray q

theorem Undelivered.received_iff (h : c.Undelivered) {b : ByteArray} {taken : List UInt8}
    (hread : SocketIO.read .reader c.channel.writeArray (c.arrived answer) = .ok (.ok (b, taken))) :
    taken = [] ↔ ¬c.takes answer .IN := by
  obtain ⟨q, hholds⟩ := h.writeArray
  have hempty : c.channel.writeArray.readableBytes = 0 ↔ q = [] := by
    rw [hholds.readableBytes, List.length_eq_zero_iff]
  rw [hholds.read_taken hread, ← hempty]
  constructor
  · rintro hnone ⟨-, hspace, arrived, hstub, harrived⟩
    exact (hnone arrived hstub).elim harrived hspace
  · intro htakes arrived hstub
    by_contra hboth
    rw [not_or] at hboth
    exact htakes ⟨rfl, hboth.2, arrived, hstub, hboth.1⟩

/-- Step lemma: bytes are delivered exactly if `recvmsg` has some and space. -/
theorem Undelivered.delivered_iff (h : c.Undelivered) (hstep : Stepped c e c') :
    c'.history.delivered = [] ↔ ¬c.onHandler c.takes e := by
  cases hstep with
  | handler answer ev rest d hrunning hhandle =>
      rw [onHandler_of_running hrunning]
      cases hhandle with
      | rdhup d hrdhup =>
          have htakes : ¬c.takes answer .RDHUP := by simp [takes]
          cases hrdhup <;> exact iff_of_true h.delivered htakes
      | receive d hreceive =>
          cases hreceive with
          | received wheel b taken hread =>
              change c.history.delivered ++ taken = [] ↔ _
              rw [h.delivered, List.nil_append]
              exact h.received_iff hread
          | refused wheel err hstub =>
              change Stub.recvmsg (c.arrived answer) = _ at hstub
              exact iff_of_true h.delivered (by simp [takes, hstub])
          | limited wheel err hstub =>
              change Stub.recvmsg (c.arrived answer) = _ at hstub
              exact iff_of_true h.delivered (by simp [takes, hstub])
      | transmit d htransmit =>
          have htakes : ¬c.takes answer .OUT := by simp [takes]
          cases htransmit <;> exact iff_of_true h.delivered htakes
      | nothing ev hev => exact iff_of_true h.delivered fun htakes => hev.2.1 htakes.1
  | functor f rest d hidle hfunctors halive hrun =>
      cases hrun <;> exact iff_of_true h.delivered id
  | _ => exact iff_of_true h.delivered id

theorem Undelivered.step (h : c.Undelivered) (hstep : Stepped c e c')
    (htakes : ¬c.onHandler c.takes e) : c'.Undelivered where
  delivered := (h.delivered_iff hstep).mpr htakes
  writeArray := by
    obtain ⟨q, hholds⟩ := h.writeArray
    cases hstep with
    | write data b hmemory hwrite =>
        rw [hholds.readableBytes] at hmemory
        obtain ⟨b', hok, hholds'⟩ := hholds.writeRaw data ByteArray.memoryLimit_le hmemory
        rw [hok] at hwrite
        cases hwrite
        exact ⟨_, hholds'⟩
    | handler answer ev rest d hrunning hhandle =>
        rw [onHandler_of_running hrunning] at htakes
        cases hhandle with
        | rdhup d hrdhup => cases hrdhup <;> exact ⟨q, hholds⟩
        | receive d hreceive =>
            cases hreceive with
            | received wheel b taken hread =>
                rw [(h.received_iff hread).mpr htakes] at hread
                exact ⟨q, hholds.read_nil hread⟩
            | refused => exact ⟨q, hholds⟩
            | limited => exact ⟨q, hholds⟩
        | transmit d htransmit => cases htransmit <;> exact ⟨q, hholds⟩
        | nothing => exact ⟨q, hholds⟩
    | functor f rest d hidle hfunctors halive hrun => cases hrun <;> exact ⟨q, hholds⟩
    | _ => exact ⟨q, hholds⟩

/-! ## Integrity -/

/-- The bytes that can be read through `TcpChannel::reader()`. -/
def readable (c : TcpConnection) : List UInt8 := c.channel.readArray.unread

/-- The step from `c` to `c'` keeps the inbound stream whole. -/
structure ReceivesSent (c c' : TcpConnection) : Prop where
  /-- The bytes retrieved and those still readable are the bytes delivered. -/
  stored : c'.history.retrieved ++ c'.readable = c'.history.delivered
  /-- If `onDisconnect` is called in the step and the peer has sent its FIN, all
  bytes of the peer have been delivered. -/
  drained : .onDisconnect ∈ c'.callbacks.drop c.callbacks.length → c.peer.fin →
    c'.history.delivered = c.peer.sent

/-- The step delivers no bytes, and it does not force-close the connection when
the peer has sent bytes and its FIN. -/
def ReceivesNothing (c : TcpConnection) (e : Event) : Prop :=
  ¬c.onHandler c.takes e ∧ (c.onHandler c.closes e → c.peer.fin → c.peer.sent = [])

theorem receivesSent_iff_receivesNothing_step (hunfilled : c.Unfilled) (h : c.Undelivered)
    (hstep : Stepped c e c') : c.ReceivesSent c' ↔ c.ReceivesNothing e := by
  have hunfilled' := hunfilled.step hstep
  have hreadable : c'.history.retrieved ++ c'.readable = [] := by
    rw [hunfilled'.retrieved, List.nil_append]
    exact hunfilled'.readArray.1
  have hcalled : .onDisconnect ∈ c'.callbacks.drop c.callbacks.length ↔ c.onHandler c.closes e := by
    obtain ⟨called, hcallbacks, -, -, hdisconnect⟩ := (hstep.effects hunfilled).callbacks
    rw [hcallbacks, List.drop_left, hdisconnect]
  constructor
  · rintro ⟨hstored, hdrained⟩
    have hdelivered : c'.history.delivered = [] := by rw [← hstored, hreadable]
    refine ⟨(h.delivered_iff hstep).mp hdelivered, ?_⟩
    intro hcloses hfin
    rw [← hdrained (hcalled.mpr hcloses) hfin, hdelivered]
  · rintro ⟨htakes, hcloses⟩
    have hdelivered := (h.delivered_iff hstep).mpr htakes
    refine ⟨by rw [hreadable, hdelivered], ?_⟩
    intro hdisconnect hfin
    rw [hdelivered, hcloses (hcalled.mp hdisconnect) hfin]

/-- The inbound stream of a connection is that of the bytes sent exactly if no
bytes are delivered and no connection is force-closed whose peer has sent bytes
and its FIN. -/
theorem receivesSent_iff_receivesNothing (epoll : Epoll Nat) (ctlAnswers : Nat → Answer Unit)
    (wheel : Option (TimeWheel WheelEntry)) (ptr : Nat) (fd : Int) (events : List Event) :
    Run.Always step (Run.Each step fun c _ c' => c.ReceivesSent c')
        (makeTcpConnection epoll ctlAnswers wheel ptr fd) events ↔
      Run.Always step (Run.Each step fun c e _ => c.ReceivesNothing e)
        (makeTcpConnection epoll ctlAnswers wheel ptr fd) events := by
  apply Run.always_each_iff (J := fun c => c.Unfilled ∧ c.Undelivered)
  · rintro c e c' ⟨hunfilled, hundelivered⟩ hnothing h
    exact ⟨hunfilled.step (step_ok h), hundelivered.step (step_ok h) hnothing.1⟩
  · rintro c e c' ⟨hunfilled, hundelivered⟩ h
    exact receivesSent_iff_receivesNothing_step hunfilled hundelivered (step_ok h)
  · exact ⟨makeTcpConnection_unfilled epoll ctlAnswers wheel ptr fd, rfl, [],
      ByteArray.new_holds _⟩

/-- The peer sends a byte and a FIN, and both arrive in one mask: the handler for
`EPOLLRDHUP` force-closes the connection before the byte is received. -/
theorem receivesSent_fails :
    ¬Run.Always step (Run.Each step fun c _ c' => c.ReceivesSent c')
      (makeTcpConnection Epoll.new (fun _ => .done ()) none 0 5)
      [.peerSend [7], .peerFin, .dispatch fun ev => ev == .RDHUP || ev == .IN,
        .handler (.done 1)] := by
  intro h
  have hreceives := ((((h.2 _ rfl).2 _ rfl).2 _ rfl).1 _ rfl)
  have hdelivered := hreceives.drained (by decide) rfl
  cases hdelivered

end TcpConnection

end Netpp
