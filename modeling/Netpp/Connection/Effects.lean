import Netpp.Connection.Outbound

/-!
# The visible effects of a step

A step may force-close the connection, call the user's callbacks and update the
registration in epoll. For each of these effects there is a predicate on the
branch of the handler or functor that runs (`closes`, `callsBack`, `registers`),
which depends on the state before and on the answer of the system call alone. The
step lemma says that the steps with the effect are those that take such a branch.
-/

namespace Netpp

namespace TcpConnection

variable {c c' : TcpConnection} {e : Event} {answer : Answer Nat}

/-! ## Branches -/

/-- The system call of the handler throws a `SocketException`. -/
def raises (c : TcpConnection) (answer : Answer Nat) : EpollEv → Prop
  | .IN => ∃ err, Stub.recvmsg (c.arrived answer) = .error (.socketException err)
  | .OUT => ∃ err, Stub.sendmsg answer = .error (.socketException err)
  | _ => False

/-- `sendmsg` in `handleOut` accepts bytes, perhaps none. -/
def completes (answer : Answer Nat) : EpollEv → Prop
  | .OUT => ∃ room, Stub.sendmsg answer = .ok (some room)
  | _ => False

/-- `handleRdhup` finds the connection established and not waiting to write. -/
def endsIdle (c : TcpConnection) (ev : EpollEv) : Prop :=
  ev = .RDHUP ∧ c.state = .Established ∧ c.isWaitWriting = false

/-- The handler force-closes the connection. -/
def closes (c : TcpConnection) (answer : Answer Nat) (ev : EpollEv) : Prop :=
  c.raises answer ev ∨ (completes answer ev ∧ c.state = .HalfClose) ∨ c.endsIdle ev

/-- The handler calls one of the user's callbacks. -/
def callsBack (c : TcpConnection) (answer : Answer Nat) (ev : EpollEv) : Prop :=
  ev = .IN ∨ (ev = .OUT ∧ Stub.sendmsg answer ≠ .ok none) ∨ c.endsIdle ev

/-- The handler deactivates events. -/
def registers (answer : Answer Nat) (ev : EpollEv) : Prop :=
  ev = .RDHUP ∨ completes answer ev

/-- The functor activates or deactivates events. -/
def functorRegisters (c : TcpConnection) : Functor → Prop
  | .sendInLoop _ => True
  | .closeAfterWriteCompleted => c.state = .Established ∧ c.isWaitWriting = false

/-- The next handler of the mask runs, and `P` holds of it and its answer. -/
def onHandler (c : TcpConnection) (P : Answer Nat → EpollEv → Prop) : Event → Prop
  | .handler answer => ∃ ev, c.running.head? = some ev ∧ P answer ev
  | _ => False

/-- The next functor runs, and `P` holds of it. -/
def onFunctor (c : TcpConnection) (P : Functor → Prop) : Event → Prop
  | .functor => c.alive ∧ ∃ f, c.functors.head? = some f ∧ P f
  | _ => False

theorem onHandler_of_running {P : Answer Nat → EpollEv → Prop} {ev : EpollEv}
    {rest : List EpollEv} (h : c.running = ev :: rest) :
    c.onHandler P (.handler answer) ↔ P answer ev := by
  simp [onHandler, h]

theorem onFunctor_of_functors {P : Functor → Prop} {f : Functor} {rest : List Functor}
    (h : c.functors = f :: rest) (halive : c.alive) : c.onFunctor P .functor ↔ P f := by
  simp [onFunctor, h, halive]

/-- A handler whose system call throws does not deactivate events. -/
theorem not_registers_of_raises {ev : EpollEv} (h : c.raises answer ev) :
    ¬registers answer ev := by
  cases ev with
  | OUT =>
      obtain ⟨err, hstub⟩ := h
      simp [registers, completes, hstub]
  | IN => simp [registers, completes]
  | _ => cases h

/-! ## Effects -/

/-- No callback follows `onDisconnect`. -/
def DisconnectLast (callbacks : List Callback) : Prop :=
  callbacks.Pairwise fun earlier _ => earlier ≠ .onDisconnect

/-- What the step from `c` to `c'` does, when the propositions say whether it
closes, calls back and registers. -/
structure Effects (c c' : TcpConnection) (closes callsBack registers : Prop) : Prop where
  closed : c'.state = .Closed ↔ c.state = .Closed ∨ closes
  callbacks : ∃ called, c'.callbacks = c.callbacks ++ called ∧ DisconnectLast called ∧
    (called = [] ↔ ¬callsBack) ∧ (.onDisconnect ∈ called ↔ closes)
  dropped : closes → c'.epoll.events c'.epollEvent.watchingFd = none
  added : ¬closes → registers →
    c'.epoll.events c'.epollEvent.watchingFd = some c'.epollEvent.ptr
  kept : ¬closes → ¬registers → c'.epoll = c.epoll ∧ c'.epollEvent = c.epollEvent

theorem disconnect_events (c : TcpConnection) :
    c.disconnect.epoll.events c.disconnect.epollEvent.watchingFd = none := by
  simp [disconnect, disable, call, Epoll.removeEvent_events]

theorem disconnectLast_of_not_mem {callbacks : List Callback}
    (h : .onDisconnect ∉ callbacks) : DisconnectLast callbacks := by
  apply List.pairwise_of_forall_mem_list
  rintro earlier hearlier - - rfl
  exact h hearlier

theorem Effects.congr {p p' q q' r r' : Prop} (h : Effects c c' p q r) (hp : p ↔ p')
    (hq : q ↔ q') (hr : r ↔ r') : Effects c c' p' q' r' := by
  rwa [← propext hp, ← propext hq, ← propext hr]

/-- A step that does not end in `forceClose`. -/
theorem Effects.stays (called : List Callback) (registers : Prop)
    (hstate : c'.state = .Closed ↔ c.state = .Closed)
    (hcallbacks : c'.callbacks = c.callbacks ++ called) (hcalled : .onDisconnect ∉ called)
    (hadded : registers →
      c'.epoll.events c'.epollEvent.watchingFd = some c'.epollEvent.ptr)
    (hkept : ¬registers → c'.epoll = c.epoll ∧ c'.epollEvent = c.epollEvent) :
    Effects c c' False (called ≠ []) registers where
  closed := by rw [hstate, or_false]
  callbacks := ⟨called, hcallbacks, disconnectLast_of_not_mem hcalled, by simp, by simp [hcalled]⟩
  dropped := False.elim
  added _ := hadded
  kept _ := hkept

/-- A step that ends in `forceClose`, after callbacks other than `onDisconnect`. -/
theorem Effects.disconnects {d : TcpConnection} (called : List Callback) (registers : Prop)
    (hcallbacks : d.callbacks = c.callbacks ++ called) (hcalled : .onDisconnect ∉ called) :
    Effects c d.disconnect True True registers where
  closed := by simp [disconnect]
  callbacks := by
    refine ⟨called ++ [.onDisconnect], ?_, ?_, by simp, by simp⟩
    · change d.callbacks ++ [.onDisconnect] = _
      rw [hcallbacks, List.append_assoc]
    · apply List.pairwise_append.mpr
      refine ⟨disconnectLast_of_not_mem hcalled, List.pairwise_singleton .., ?_⟩
      rintro earlier hearlier - - rfl
      exact hcalled hearlier
  dropped _ := disconnect_events d
  added h := absurd trivial h
  kept h := absurd trivial h

theorem HandleRdhup.effects (h : HandleRdhup c c') :
    Effects c c' (c.closes answer .RDHUP) (c.callsBack answer .RDHUP)
      (registers answer .RDHUP) := by
  cases h with
  | closed wheel hstate hidle =>
      apply Effects.congr (Effects.disconnects [] True _ _) <;>
        simp [closes, callsBack, registers, raises, endsIdle, deactivate, hstate, hidle]
  | halfClosed hstate hwaiting =>
      apply Effects.congr (Effects.stays [] True _ _ _ _ _) <;>
        simp [closes, callsBack, registers, raises, completes, endsIdle, deactivate,
          EpollEvent.deactivate, Epoll.updateEvent_events, hstate, hwaiting]
  | ignored hstate =>
      apply Effects.congr (Effects.stays [] True _ _ _ _ _) <;>
        simp [closes, callsBack, registers, raises, completes, endsIdle, deactivate,
          EpollEvent.deactivate, Epoll.updateEvent_events, hstate]

theorem HandleIn.effects (h : HandleIn c answer c') :
    Effects c c' (c.closes answer .IN) (c.callsBack answer .IN) (registers answer .IN) := by
  cases h with
  | received wheel b taken hread =>
      obtain ⟨arrived, hstub⟩ := read_ok hread
      apply Effects.congr
          (Effects.stays [.onMessageReceived] False _ _ _ _ _) <;>
        simp [closes, callsBack, registers, raises, completes, endsIdle, TcpConnection.received,
          call, hstub]
  | refused wheel err hstub =>
      apply Effects.congr
          (Effects.disconnects [.onError (getError err)] False _ _) <;>
        simp [closes, callsBack, registers, raises, completes, call, hstub]
  | limited wheel err hstub =>
      apply Effects.congr
          (Effects.stays [.onError (getError err)] False _ _ _ _ _) <;>
        simp [closes, callsBack, registers, raises, completes, endsIdle, call, hstub]

theorem HandleOut.effects (hunfilled : c.Unfilled) (h : HandleOut c answer c') :
    Effects c c' (c.closes answer .OUT) (c.callsBack answer .OUT) (registers answer .OUT) := by
  cases h with
  | finished wheel b sent hwrite hstate =>
      obtain ⟨-, room, hstub⟩ := hunfilled.write hwrite wheel
      apply Effects.congr
          (Effects.stays [.onWriteCompleted] True _ _ _ _ _) <;>
        simp [closes, callsBack, registers, raises, completes, endsIdle, transmitted, completed,
          deactivate, EpollEvent.deactivate, Epoll.updateEvent_events, call, hstub, hstate]
  | closed wheel b sent hwrite hstate =>
      obtain ⟨-, room, hstub⟩ := hunfilled.write hwrite wheel
      apply Effects.congr
          (Effects.disconnects [.onWriteCompleted] True _ _) <;>
        simp [closes, callsBack, registers, completes, transmitted, completed, deactivate, call,
          hstub, hstate]
  | unfinished wheel b sent hwrite =>
      obtain ⟨-, hstub⟩ := hunfilled.write hwrite wheel
      rw [if_neg (by decide)] at hstub
      apply Effects.congr (Effects.stays [] False _ _ _ _ _) <;>
        simp [closes, callsBack, registers, raises, completes, endsIdle, transmitted, hstub]
  | reset wheel err hstub =>
      apply Effects.congr
          (Effects.disconnects [.onError (getError err)] False _ _) <;>
        simp [closes, callsBack, registers, raises, completes, call, hstub]
  | limited wheel err hstub =>
      apply Effects.congr
          (Effects.stays [.onError (getError err)] False _ _ _ _ _) <;>
        simp [closes, callsBack, registers, raises, completes, endsIdle, call, hstub]

theorem Handle.effects (hunfilled : c.Unfilled) {ev : EpollEv} (h : Handle c answer ev c') :
    Effects c c' (c.closes answer ev) (c.callsBack answer ev) (registers answer ev) := by
  cases h with
  | rdhup d h => exact h.effects
  | receive d h => exact h.effects
  | transmit d h => exact h.effects hunfilled
  | nothing ev hev =>
      apply Effects.congr (Effects.stays [] False _ _ _ _ _)
      all_goals cases ev <;> simp_all [closes, callsBack, registers, raises, completes, endsIdle]

theorem RunFunctor.effects {f : Functor} (h : RunFunctor c f c') :
    Effects c c' False False (c.functorRegisters f) := by
  cases h with
  | send covers =>
      apply Effects.congr (Effects.stays [] True _ _ _ _ _) <;>
        simp [functorRegisters, sendFunctor, active, EpollEvent.active, Epoll.updateEvent_events]
  | halfClosed hstate hwaiting =>
      apply Effects.congr (Effects.stays [] False _ _ _ _ _) <;>
        simp [functorRegisters, hstate, hwaiting]
  | shutdown wheel hstate hidle =>
      apply Effects.congr (Effects.stays [] True _ _ _ _ _) <;>
        simp [functorRegisters, deactivate, EpollEvent.deactivate, Epoll.updateEvent_events,
          hstate, hidle]
  | ignored hstate =>
      apply Effects.congr (Effects.stays [] False _ _ _ _ _) <;>
        simp [functorRegisters, hstate]

/-- Step lemma: the effects of a step. -/
theorem Stepped.effects (hunfilled : c.Unfilled) (h : Stepped c e c') :
    Effects c c' (c.onHandler c.closes e) (c.onHandler c.callsBack e)
      (c.onHandler registers e ∨ c.onFunctor c.functorRegisters e) := by
  cases h with
  | handler answer ev rest d hrunning hhandle =>
      have hrest := hunfilled.handling rest
      have heffects := hhandle.effects hrest
      have hsame :
          Effects c c' (c.closes answer ev) (c.callsBack answer ev) (registers answer ev) :=
        ⟨heffects.closed, heffects.callbacks, heffects.dropped, heffects.added, heffects.kept⟩
      apply hsame.congr (onHandler_of_running hrunning).symm (onHandler_of_running hrunning).symm
      rw [onHandler_of_running hrunning]
      simp [onFunctor]
  | functor f rest d hidle hfunctors halive hrun =>
      have heffects := hrun.effects
      have hsame : Effects c c' False False (c.functorRegisters f) :=
        ⟨heffects.closed, heffects.callbacks, heffects.dropped, heffects.added, heffects.kept⟩
      apply hsame.congr Iff.rfl Iff.rfl
      rw [onFunctor_of_functors hfunctors halive]
      simp [onHandler]
  | expired f rest hfunctors hdead =>
      apply Effects.congr (Effects.stays [] False _ _ _ _ _) <;>
        simp [onHandler, onFunctor, hdead]
  | _ =>
      apply Effects.congr (Effects.stays [] False _ _ _ _ _) <;>
        simp [onHandler, onFunctor]

end TcpConnection

end Netpp
