import Netpp.Connection.Inbound
import Netpp.Connection.Progress
import Netpp.Connection.Registration

/-!
# Both directions shut

A connection on which both the user and the peer have closed should be closed. If
the peer's FIN comes first, `handleRdhup` sees to it, at once or when the pending
output has been sent. If the user closes first and nothing is pending, the functor
shuts down the write side and stops watching `EPOLLRDHUP`; `recvmsg` then returns 0
for the FIN, which `handleIn` passes on as a message, and nothing closes the
connection. `ShutsInOrder` leaves this order out, and the steps after which a closed
connection is registered again.
-/

namespace Netpp

namespace TcpConnection

/-- What has been done to shut the two directions: a functor of
`closeAfterWriteCompleted` has run, the mask being handled is that of the peer's FIN,
and the FIN has been handled. -/
structure Shutting where
  closeRun : Bool
  finMask : Bool
  finHandled : Bool

/-- The mask is one with which the loop learns of the FIN. `EPOLLHUP` has no handler
and makes no difference. -/
def carriesFin (c : TcpConnection) (mask : EventMask) : Bool :=
  c.peer.fin && mask .IN && (!c.epollEvent.watchingEvents .RDHUP || mask .RDHUP)

/-- What `recvmsg` in `handleIn` returns when so many of the arriving bytes are there. It is
offered the stretches of the unread bytes of `m_writeArray`. -/
def recvCount (c : TcpConnection) (count : Nat) : Nat :=
  min (c.arriving.take count).length c.channel.writeArray.readableBytes

/-- In the mask of the FIN, `recvmsg` returns 0. That may be with bytes of the peer before the
FIN, when no stretches are offered. -/
def readsFin (c : TcpConnection) (s : Shutting) : Event → Bool
  | .handler (.done count) =>
      s.finMask && c.running.head? == some .IN && c.recvCount count == 0
  | _ => false

def shutting (c : TcpConnection) (e : Timed) (s : Shutting) : Shutting :=
  match e with
  | .event .functor =>
      { s with closeRun := s.closeRun || c.functors.head? == some .closeAfterWriteCompleted }
  | .event (.dispatch mask) => { s with finMask := c.carriesFin mask }
  | .event (.handler answer) =>
      { s with finHandled := s.finHandled || c.readsFin s (.handler answer) }
  | _ => s

/-- The local close has been processed and nothing waits to be written, and the FIN
has been handled. -/
def BothShut (c : TcpConnection) (s : Shutting) : Prop :=
  s.closeRun = true ∧ c.isWaitWriting = false ∧ s.finHandled = true

/-- The connection is closed, its event is disabled, and the user has been told once. -/
def Finished (c : TcpConnection) : Prop :=
  c.state = .Closed ∧ c.epoll.events c.epollEvent.watchingFd ≠ some c.epollEvent.ptr ∧
    c.callbacks.count .onDisconnect = 1

/-- No system call of a handler throws a `SocketException`. -/
def NoIoError (s : TcpConnection × Shutting) : Timed → Prop
  | .event e => ¬s.1.onHandler s.1.raises e
  | .tick => True

/-- The FIN is not read by a connection that has shut down its write side, and
nothing activates or deactivates events of a closed connection. -/
def ShutsInOrder (s : TcpConnection × Shutting) : Timed → Prop
  | .event e =>
      (s.1.readsFin s.2 e = true → ¬(s.1.state = .HalfClose ∧ s.1.isWaitWriting = false)) ∧
        (s.1.state = .Closed → ¬s.1.registersIn e)
  | .tick => True

/-- The invariant. In the mask of a FIN, `handleRdhup` runs before `handleIn`. -/
structure Shuts (c : TcpConnection) (s : Shutting) : Prop where
  unfilled : c.Unfilled
  wheeled : c.Wheeled
  unregistered : c.Unregistered
  state : c.state = .Established ∨ c.state = .HalfClose ∨ c.state = .Closed
  once : c.callbacks.count .onDisconnect = if c.state = .Closed then 1 else 0
  watching : c.state = .Established → c.epollEvent.watchingEvents .RDHUP = true
  ordered : c.running.Pairwise fun earlier later => ¬(earlier = .IN ∧ later = .RDHUP)
  fin : s.finMask = true → c.state = .Established → .IN ∈ c.running → .RDHUP ∈ c.running
  handled : s.finHandled = true →
    c.state = .Closed ∨ (c.state = .HalfClose ∧ c.isWaitWriting = true)

variable {c c' : TcpConnection} {e : Event} {s : Shutting}

theorem Shuts.finished (h : c.Shuts s) (hboth : c.BothShut s) : c.Finished := by
  obtain ⟨-, hwaiting, hfin⟩ := hboth
  rcases h.handled hfin with hclosed | ⟨-, hwaits⟩
  · refine ⟨hclosed, h.unregistered hclosed, ?_⟩
    rw [h.once, if_pos hclosed]
  · rw [hwaiting] at hwaits
    cases hwaits

/-- `recvmsg` returns 0 exactly if no bytes are delivered. -/
theorem recvCount_eq_zero_iff (c : TcpConnection) (count : Nat) :
    c.recvCount count = 0 ↔ ¬c.takes (.done count) .IN := by
  simp only [recvCount, takes, arrived, Stub.recvmsg]
  rw [Nat.min_eq_zero_iff, List.length_eq_zero_iff]
  constructor
  · rintro (hnone | hspace) ⟨-, hne, arrived, harrived, htaken⟩
    · cases harrived
      exact htaken hnone
    · exact hne hspace
  · intro hnot
    by_contra hneither
    rw [not_or] at hneither
    exact hnot ⟨trivial, hneither.2, _, rfl, hneither.1⟩

/-! ## Steps -/

/-- Without exceptions a closed connection is not closed again. -/
theorem not_closes_of_closed (hclosed : c.state = .Closed) (hraises : ¬c.onHandler c.raises e) :
    ¬c.onHandler c.closes e := by
  cases e with
  | handler answer =>
      rintro ⟨ev, hrunning, hraise | ⟨-, hstate⟩ | ⟨-, hstate, -⟩⟩
      · exact hraises ⟨ev, hrunning, hraise⟩
      · rw [hclosed] at hstate
        cases hstate
      · rw [hclosed] at hstate
        cases hstate
  | _ => exact id

/-- A system call that succeeds throws nothing. -/
theorem not_raises_of_done (c : TcpConnection) (count : Nat) :
    ¬c.onHandler c.raises (.handler (.done count)) := by
  rintro ⟨ev, -, hraises⟩
  cases ev with
  | IN =>
      obtain ⟨err, hstub⟩ := hraises
      cases hstub
  | OUT =>
      obtain ⟨err, hstub⟩ := hraises
      cases hstub
  | _ => exact hraises

theorem count_onDisconnect {called : List Callback} (hlast : DisconnectLast called) :
    called.count .onDisconnect = if .onDisconnect ∈ called then 1 else 0 := by
  induction called with
  | nil => rfl
  | cons callback called ih =>
      obtain ⟨hfirst, hrest⟩ := List.pairwise_cons.mp hlast
      by_cases hcallback : callback = .onDisconnect
      · cases called with
        | nil => simp [hcallback]
        | cons later called => exact absurd hcallback (hfirst later (List.mem_cons_self ..))
      · rw [List.count_cons_of_ne hcallback, ih hrest]
        simp [Ne.symm hcallback]

/-- The callback is made once, when the connection is closed. -/
theorem Shuts.once_step (h : c.Shuts s) (hstep : Stepped c e c')
    (hraises : ¬c.onHandler c.raises e) :
    c'.callbacks.count .onDisconnect = if c'.state = .Closed then 1 else 0 := by
  have heffects := hstep.effects h.unfilled
  obtain ⟨called, hcallbacks, hlast, -, hcloses⟩ := heffects.callbacks
  rw [hcallbacks, List.count_append, h.once, count_onDisconnect hlast]
  by_cases hclosed : c.state = .Closed
  · have hnot := not_closes_of_closed hclosed hraises
    rw [if_pos hclosed, if_neg (mt hcloses.mp hnot), if_pos (heffects.closed.mpr (.inl hclosed))]
  · by_cases hcloses' : c.onHandler c.closes e
    · rw [if_neg hclosed, if_pos (hcloses.mpr hcloses'),
        if_pos (heffects.closed.mpr (.inr hcloses'))]
    · have hopen : c'.state ≠ .Closed := fun hstate =>
        hcloses' ((heffects.closed.mp hstate).resolve_left hclosed)
      rw [if_neg hclosed, if_neg (mt hcloses.mp hcloses'), if_neg hopen]

theorem handleEvents_ordered (mask : EventMask) :
    (handleEvents mask).Pairwise fun earlier later => ¬(earlier = .IN ∧ later = .RDHUP) := by
  apply List.Pairwise.filter
  decide

theorem mem_handleEvents {mask : EventMask} {ev : EpollEv} :
    ev ∈ handleEvents mask ↔ mask ev = true := by
  cases ev <;> simp [handleEvents]

/-- In the mask of a FIN, an established connection has `handleRdhup` to run first. -/
theorem Shuts.fin_step (h : c.Shuts s) (hstep : Stepped c e c')
    (hfin : (c.shutting (.event e) s).finMask = true) (hestablished : c'.state = .Established)
    (hin : .IN ∈ c'.running) : .RDHUP ∈ c'.running := by
  obtain ⟨hbefore, hrdhup, -⟩ := hstep.progress.established hestablished
  rw [hstep.running] at hin ⊢
  cases e with
  | dispatch mask =>
      simp only [shutting, carriesFin, h.watching hbefore, Bool.and_eq_true, Bool.not_true,
        Bool.false_or] at hfin
      exact mem_handleEvents.mpr hfin.2
  | handler answer =>
      have hmem := h.fin hfin hbefore (List.mem_of_mem_tail hin)
      cases hrunning : c.running with
      | nil =>
          rw [hrunning] at hmem
          cases hmem
      | cons ev rest =>
          rw [hrunning] at hmem
          have hne : ev ≠ .RDHUP := by
            rintro rfl
            exact hrdhup ⟨.RDHUP, by rw [hrunning]; rfl, rfl⟩
          exact (List.mem_cons.mp hmem).resolve_left hne.symm
  | _ => exact h.fin hfin hbefore hin

/-- An established connection does not read the FIN: `handleRdhup` has run before. -/
theorem Shuts.readsFin_state (h : c.Shuts s) (hreads : c.readsFin s e = true) :
    c.state = .HalfClose ∨ c.state = .Closed := by
  rcases h.state with hestablished | hother
  · cases e with
    | handler answer =>
        cases answer with
        | failed err => cases hreads
        | done count =>
            simp only [readsFin, Bool.and_eq_true, beq_iff_eq] at hreads
            obtain ⟨⟨hfin, hhead⟩, -⟩ := hreads
            cases hrunning : c.running with
            | nil => simp [hrunning] at hhead
            | cons ev rest =>
                rw [hrunning] at hhead
                cases hhead
                have hmem := h.fin hfin hestablished (by rw [hrunning]; exact List.mem_cons_self ..)
                have hordered := h.ordered
                rw [hrunning] at hmem hordered
                rcases List.mem_cons.mp hmem with heq | hlater
                · cases heq
                · have hbefore := (List.pairwise_cons.mp hordered).1 .RDHUP hlater
                  exact absurd ⟨rfl, rfl⟩ hbefore
    | _ => cases hreads
  · exact hother

theorem Shuts.handled_step (h : c.Shuts s) (hstep : Stepped c e c')
    (hraises : ¬c.onHandler c.raises e)
    (hordered : c.readsFin s e = true → ¬(c.state = .HalfClose ∧ c.isWaitWriting = false))
    (hfin : (c.shutting (.event e) s).finHandled = true) :
    c'.state = .Closed ∨ (c'.state = .HalfClose ∧ c'.isWaitWriting = true) := by
  have hbefore : c.state = .Closed ∨ (c.state = .HalfClose ∧ c.isWaitWriting = true) := by
    by_cases hreads : c.readsFin s e = true
    · rcases h.readsFin_state hreads with hhalfClose | hclosed
      · have hwaits := hordered hreads
        right
        refine ⟨hhalfClose, ?_⟩
        by_contra hnot
        exact hwaits ⟨hhalfClose, eq_false_of_ne_true hnot⟩
      · exact .inl hclosed
    · apply h.handled
      cases e with
      | handler answer =>
          simp only [shutting, eq_false_of_ne_true hreads, Bool.or_false] at hfin
          exact hfin
      | _ => exact hfin
  rcases hbefore with hclosed | ⟨hhalfClose, hwaiting⟩
  · exact .inl ((hstep.effects h.unfilled).closed.mpr (.inl hclosed))
  · exact hstep.progress.waiting hraises hhalfClose hwaiting

/-- Step lemma: without exceptions, a step in order keeps the invariant. -/
theorem Shuts.event (h : c.Shuts s) (hok : c.step e = .ok c')
    (hraises : ¬c.onHandler c.raises e) (hordered : ShutsInOrder (c, s) (.event e)) :
    c'.Shuts (c.shutting (.event e) s) := by
  have hstep := step_ok hok
  refine ⟨h.unfilled.step hstep, h.wheeled.event hok, ?_, ?_, h.once_step hstep hraises, ?_, ?_,
    h.fin_step hstep, h.handled_step hstep hraises hordered.1⟩
  · exact (h.unregistered.step_iff h.unfilled hstep).mpr hordered.2
  · rcases hstep.progress.state with hsame | hother
    · rw [hsame]
      exact h.state
    · exact .inr hother
  · intro hestablished
    obtain ⟨hbefore, -, hwatching⟩ := hstep.progress.established hestablished
    exact hwatching (h.watching hbefore)
  · rw [hstep.running]
    cases e with
    | handler answer => exact h.ordered.tail
    | dispatch mask => exact handleEvents_ordered mask
    | _ => exact h.ordered

theorem Shuts.tick (h : c.Shuts s) (hok : c.tick = .ok c') : c'.Shuts (c.shutting .tick s) := by
  obtain ⟨hwheeled, wheel, closes, rfl⟩ := h.wheeled.tick hok
  exact ⟨⟨h.unfilled.readArray, h.unfilled.accepted, h.unfilled.retrieved⟩, hwheeled,
    h.unregistered, h.state, h.once, h.watching, h.ordered, h.fin, h.handled⟩

/-! ## Runs -/

/-- Nothing has been done yet. -/
def Shutting.none : Shutting := ⟨false, false, false⟩

theorem makeTcpConnection_shuts (epoll : Epoll Nat) (ctlAnswers : Nat → Answer Unit)
    {wheel : Option (TimeWheel WheelEntry)}
    (hwheel : ∀ w, wheel = some w → Usable w ∧ ∀ entry, ¬w.InWheel entry) (ptr : Nat) (fd : Int) :
    (makeTcpConnection epoll ctlAnswers wheel ptr fd).Shuts .none where
  unfilled := makeTcpConnection_unfilled epoll ctlAnswers wheel ptr fd
  wheeled := by
    intro w' hw'
    obtain ⟨w, hw, rfl⟩ := Option.map_eq_some_iff.mp hw'
    obtain ⟨husable, hnew⟩ := hwheel w hw
    obtain ⟨husable', hwithin⟩ := addToWheel_usable husable (hnew .idle)
    refine ⟨husable', fun _ hin => ?_⟩
    rcases hwithin .halfClose hin with heq | hold
    · cases heq
    · exact hnew .halfClose hold
  unregistered h := by cases h
  state := .inl rfl
  once := rfl
  watching _ := rfl
  ordered := List.Pairwise.nil
  fin h := by cases h
  handled h := by cases h

/-- In a run without exceptions in which the two directions are shut in order, with or
without a time wheel, the connection is finished whenever both are shut. -/
theorem finished_of_shutsInOrder (epoll : Epoll Nat) (ctlAnswers : Nat → Answer Unit)
    {wheel : Option (TimeWheel WheelEntry)}
    (hwheel : ∀ w, wheel = some w → Usable w ∧ ∀ entry, ¬w.InWheel entry) (ptr : Nat) (fd : Int)
    (events : List Timed)
    (hordered : Run.Always (Run.recorded timedStep shutting)
      (fun s e => NoIoError s e ∧ ShutsInOrder s e)
      (makeTcpConnection epoll ctlAnswers wheel ptr fd, .none) events) :
    Run.Always (Run.recorded timedStep shutting)
      (Run.After (Run.recorded timedStep shutting) fun s => s.1.BothShut s.2 → s.1.Finished)
      (makeTcpConnection epoll ctlAnswers wheel ptr fd, .none) events := by
  have hstep : ∀ (s : TcpConnection × Shutting) e s', s.1.Shuts s.2 →
      (NoIoError s e ∧ ShutsInOrder s e) → Run.recorded timedStep shutting s e = .ok s' →
      s'.1.Shuts s'.2 := by
    rintro ⟨c, s⟩ e ⟨c', s'⟩ hshuts ⟨hraises, hmeets⟩ hok
    obtain ⟨hstep, hrecord⟩ := Run.recorded_ok hok
    cases hrecord
    cases e with
    | event e => exact hshuts.event hstep hraises hmeets
    | tick => exact hshuts.tick hstep
  refine Run.always_of_always (J := fun s => s.1.Shuts s.2) hstep ?_ ?_ hordered
  · intro s e hshuts hmeets s' hok hboth
    exact (hstep s e s' hshuts hmeets hok).finished hboth
  · exact makeTcpConnection_shuts epoll ctlAnswers hwheel ptr fd

/-- The user's close is still queued when the FIN is handled. -/
theorem finished_of_shutsInOrder_fin :
    Run.Always (Run.recorded timedStep shutting)
      (Run.After (Run.recorded timedStep shutting) fun s => s.1.BothShut s.2 → s.1.Finished)
      (makeTcpConnection Epoll.new (fun _ => .done ()) none 0 5, .none)
      [.event .close, .event .peerFin, .event (.dispatch fun ev => ev == .RDHUP || ev == .IN),
        .event (.handler (.done 0)), .event (.handler (.done 0)), .event .functor] := by
  apply finished_of_shutsInOrder
  · intro w hw
    cases hw
  have hquiet : ∀ (s : TcpConnection × Shutting) (e : Event), (e = .close ∨ e = .peerFin ∨
      ∃ mask, e = .dispatch mask) → NoIoError s (.event e) ∧ ShutsInOrder s (.event e) := by
    rintro s e (rfl | rfl | ⟨mask, rfl⟩) <;>
      simp [NoIoError, ShutsInOrder, readsFin, registersIn, onHandler, onFunctor]
  refine ⟨hquiet _ _ (.inl rfl), fun s₁ h₁ => ⟨hquiet _ _ (.inr (.inl rfl)),
    fun s₂ h₂ => ⟨hquiet _ _ (.inr (.inr ⟨_, rfl⟩)), fun s₃ h₃ => ⟨?_, fun s₄ h₄ => ⟨?_,
      fun s₅ h₅ => ⟨?_, fun _ _ => trivial⟩⟩⟩⟩⟩⟩
  · have hestablished : s₃.1.state = .Established := by
      cases h₁
      cases h₂
      cases h₃
      rfl
    refine ⟨not_raises_of_done s₃.1 0, ?_, ?_⟩
    · rw [hestablished]
      exact fun _ h => by cases h.1
    · rw [hestablished]
      exact fun h => by cases h
  · obtain ⟨hclosed, hrunning⟩ : s₄.1.state = .Closed ∧ s₄.1.running = [.IN] := by
      cases h₁
      cases h₂
      cases h₃
      cases h₄
      exact ⟨rfl, rfl⟩
    refine ⟨not_raises_of_done s₄.1 0, ?_, fun _ => ?_⟩
    · rw [hclosed]
      exact fun _ h => by cases h.1
    · simp [registersIn, onHandler_of_running hrunning, registers, completes, onFunctor]
  · have hdead : s₅.1.alive = false := by
      cases h₁
      cases h₂
      cases h₃
      cases h₄
      cases h₅
      rfl
    simp [NoIoError, ShutsInOrder, readsFin, registersIn, onHandler, onFunctor, hdead]

/-- The user closes first: the FIN is read as zero bytes, and the connection stays
half-closed. -/
theorem finished_fails :
    ¬Run.Always (Run.recorded timedStep shutting)
      (Run.After (Run.recorded timedStep shutting) fun s => s.1.BothShut s.2 → s.1.Finished)
      (makeTcpConnection Epoll.new (fun _ => .done ()) none 0 5, .none)
      [.event .close, .event .functor, .event .peerFin,
        .event (.dispatch fun ev => ev == .IN || ev == .HUP), .event (.handler (.done 0))] := by
  intro h
  have hfinished := ((((h.2 _ rfl).2 _ rfl).2 _ rfl).2 _ rfl).1 _ rfl ⟨rfl, rfl, rfl⟩
  cases hfinished.1

end TcpConnection

end Netpp
