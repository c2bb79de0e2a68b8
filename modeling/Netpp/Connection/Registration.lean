import Netpp.Connection.Effects

/-!
# The registration of a closed connection

`forceClose` removes the connection's event from epoll, but every later `active`
or `deactivate` adds it again. So a closed connection stays out of epoll exactly
as long as nothing activates or deactivates its events.
-/

namespace Netpp

namespace TcpConnection

variable {c c' : TcpConnection} {e : Event}

/-- If the connection is closed, epoll has no entry for its event. -/
def Unregistered (c : TcpConnection) : Prop :=
  c.state = .Closed → c.epoll.events c.epollEvent.watchingFd ≠ some c.epollEvent.ptr

/-- The step activates or deactivates events. -/
def registersIn (c : TcpConnection) (e : Event) : Prop :=
  c.onHandler registers e ∨ c.onFunctor c.functorRegisters e

/-- A closed connection is closed again only by an exception, and then nothing
is registered. -/
theorem not_closes_of_registersIn (hclosed : c.state = .Closed) (h : c.registersIn e) :
    ¬c.onHandler c.closes e := by
  cases e with
  | handler answer =>
      rintro ⟨ev, hrunning, hraises | ⟨-, hstate⟩ | ⟨-, hstate, -⟩⟩
      · rcases h with ⟨ev', hrunning', hregisters⟩ | h
        · rw [hrunning] at hrunning'
          cases hrunning'
          exact not_registers_of_raises hraises hregisters
        · cases h
      · rw [hclosed] at hstate
        cases hstate
      · rw [hclosed] at hstate
        cases hstate
  | _ => exact id

/-- Step lemma: a step keeps a closed connection out of epoll exactly if it does
not activate or deactivate events of a connection that is closed. -/
theorem Unregistered.step_iff (h : c.Unregistered) (hunfilled : c.Unfilled)
    (hstep : Stepped c e c') :
    c'.Unregistered ↔ (c.state = .Closed → ¬c.registersIn e) := by
  have heffects := hstep.effects hunfilled
  constructor
  · intro hunregistered hclosed hregisters
    have hopen := not_closes_of_registersIn hclosed hregisters
    exact hunregistered (heffects.closed.mpr (.inl hclosed)) (heffects.added hopen hregisters)
  · intro hquiet hclosed'
    by_cases hcloses : c.onHandler c.closes e
    · rw [heffects.dropped hcloses]
      simp
    · have hclosed := (heffects.closed.mp hclosed').resolve_right hcloses
      obtain ⟨hepoll, hevent⟩ := heffects.kept hcloses (hquiet hclosed)
      rw [hepoll, hevent]
      exact h hclosed

/-- In a run epoll never has an entry for a closed connection exactly if no step
activates or deactivates events of a connection that is closed. -/
theorem unregistered_iff_quietWhenClosed (epoll : Epoll Nat) (ctlAnswers : Nat → Answer Unit)
    (wheel : Option (TimeWheel WheelEntry)) (ptr : Nat) (fd : Int) (events : List Event) :
    Run.Always step (Run.Each step fun _ _ c => c.Unregistered)
        (makeTcpConnection epoll ctlAnswers wheel ptr fd) events ↔
      Run.Always step (Run.Each step fun c e _ => c.state = .Closed → ¬c.registersIn e)
        (makeTcpConnection epoll ctlAnswers wheel ptr fd) events := by
  apply Run.always_each_iff (J := fun c => c.Unfilled ∧ c.Unregistered)
  · rintro c e c' ⟨hunfilled, hunregistered⟩ hquiet h
    exact ⟨hunfilled.step (step_ok h), (hunregistered.step_iff hunfilled (step_ok h)).mpr hquiet⟩
  · rintro c e c' ⟨hunfilled, hunregistered⟩ h
    exact hunregistered.step_iff hunfilled (step_ok h)
  · refine ⟨makeTcpConnection_unfilled epoll ctlAnswers wheel ptr fd, ?_⟩
    intro hclosed
    cases hclosed

/-- A thread is inside `Channel::send` and has queued its functor when the peer's
FIN closes the connection. The functor still runs and adds the event again. -/
theorem unregistered_fails :
    ¬Run.Always step (Run.Each step fun _ _ c => c.Unregistered)
      (makeTcpConnection Epoll.new (fun _ => .done ()) none 0 5)
      [.hold, .send, .peerFin, .dispatch (· == .RDHUP), .handler (.done 0), .functor] := by
  intro h
  have hunregistered := (((((h.2 _ rfl).2 _ rfl).2 _ rfl).2 _ rfl).2 _ rfl).1 _ rfl
  exact hunregistered rfl rfl

end TcpConnection

end Netpp
