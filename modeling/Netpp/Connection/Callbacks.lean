import Netpp.Connection.Effects

/-!
# The callbacks of a connection

After `onDisconnect` a user expects no callback of the connection. A handler does
not look at the state before it calls back, and one mask may run a handler that
force-closes the connection and then others. So the order of the callbacks holds
exactly as long as no handler calls back on a closed connection.
-/

namespace Netpp

namespace TcpConnection

variable {c c' : TcpConnection} {e : Event}

/-- The connection is closed if `onDisconnect` has been called, and then that
was the last callback. -/
structure Protocol (c : TcpConnection) : Prop where
  closed_iff : c.state = .Closed ↔ .onDisconnect ∈ c.callbacks
  last : DisconnectLast c.callbacks

theorem disconnectLast_append_iff {callbacks called : List Callback}
    (h : DisconnectLast callbacks) (hcalled : DisconnectLast called) :
    DisconnectLast (callbacks ++ called) ↔ (.onDisconnect ∈ callbacks → called = []) := by
  constructor
  · intro happend hmem
    cases called with
    | nil => rfl
    | cons callback rest =>
        have hlater := (List.pairwise_append.mp happend).2.2 _ hmem callback (List.mem_cons_self ..)
        exact absurd rfl hlater
  · intro hempty
    apply List.pairwise_append.mpr
    refine ⟨h, hcalled, ?_⟩
    rintro earlier hearlier later hlater rfl
    rw [hempty hearlier] at hlater
    cases hlater

/-- Step lemma: the protocol goes on exactly if nothing calls back on a closed
connection. -/
theorem Protocol.step_iff (h : c.Protocol) (hunfilled : c.Unfilled) (hstep : Stepped c e c') :
    DisconnectLast c'.callbacks ↔ (c.state = .Closed → ¬c.onHandler c.callsBack e) := by
  obtain ⟨called, hcallbacks, hlast, hnone, -⟩ := (hstep.effects hunfilled).callbacks
  rw [hcallbacks, disconnectLast_append_iff h.last hlast, h.closed_iff, hnone]

theorem Protocol.step (h : c.Protocol) (hunfilled : c.Unfilled) (hstep : Stepped c e c')
    (hsilent : c.state = .Closed → ¬c.onHandler c.callsBack e) : c'.Protocol where
  closed_iff := by
    have heffects := hstep.effects hunfilled
    obtain ⟨called, hcallbacks, -, -, hdisconnect⟩ := heffects.callbacks
    rw [heffects.closed, h.closed_iff, hcallbacks, List.mem_append, hdisconnect]
  last := (h.step_iff hunfilled hstep).mpr hsilent

/-- In a run `onDisconnect` is called at most once and no callback follows it,
exactly if no handler calls back on a closed connection. -/
theorem disconnectLast_iff_silentWhenClosed (epoll : Epoll Nat)
    (ctlAnswers : Nat → Answer Unit) (wheel : Option (TimeWheel WheelEntry)) (ptr : Nat)
    (fd : Int) (events : List Event) :
    Run.Always step (Run.Each step fun _ _ c => DisconnectLast c.callbacks)
        (makeTcpConnection epoll ctlAnswers wheel ptr fd) events ↔
      Run.Always step
        (Run.Each step fun c e _ => c.state = .Closed → ¬c.onHandler c.callsBack e)
        (makeTcpConnection epoll ctlAnswers wheel ptr fd) events := by
  apply Run.always_each_iff (J := fun c => c.Unfilled ∧ c.Protocol)
  · rintro c e c' ⟨hunfilled, hprotocol⟩ hsilent h
    exact ⟨hunfilled.step (step_ok h), hprotocol.step hunfilled (step_ok h) hsilent⟩
  · rintro c e c' ⟨hunfilled, hprotocol⟩ h
    exact hprotocol.step_iff hunfilled (step_ok h)
  · refine ⟨makeTcpConnection_unfilled epoll ctlAnswers wheel ptr fd, ?_, List.Pairwise.nil⟩
    simp [makeTcpConnection, active]

/-- One mask with `EPOLLRDHUP` and `EPOLLIN`: the first handler force-closes the
connection, and the second calls `onMessageReceived`. -/
theorem disconnectLast_fails :
    ¬Run.Always step (Run.Each step fun _ _ c => DisconnectLast c.callbacks)
      (makeTcpConnection Epoll.new (fun _ => .done ()) none 0 5)
      [.peerFin, .dispatch fun ev => ev == .RDHUP || ev == .IN, .handler (.done 0),
        .handler (.done 0)] := by
  intro h
  have hlast := ((((h.2 _ rfl).2 _ rfl).2 _ rfl).1 _ rfl)
  change DisconnectLast [.onDisconnect, .onMessageReceived] at hlast
  revert hlast
  simp [DisconnectLast]

end TcpConnection

end Netpp
