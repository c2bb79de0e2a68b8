import Netpp.Connector.Inert

/-!
# What a success means

The kernel reports `EPOLLOUT` without an error on a socket on which `connect` has not
been called. The functor of `connect` registers the socket and calls `connect` at
once, but the retry timer registers a new socket and only queues the functor, which
moreover does nothing while the state is `Connecting`. `replaced` says that the
socket in use has come from the timer and no functor has called `connect` since;
`connectedOnce_iff_unreplaced` shows that a success is one of a connect exactly if
it does not fall into this time.
-/

namespace Netpp

namespace Connector

/-- The socket in use is one of the retry timer on which `connect` has not been called. -/
def recordReplaced (c : Connector) (e : Event) (replaced : Bool) : Bool :=
  match e with
  | .handleIn _ => true
  | .functor _ =>
      match c.functors.head? with
      | some (.connect _) => if c.state = .Closed then false else replaced
      | _ => replaced
  | _ => replaced

/-- A success is that of a socket on which `connect` has been called, and there is only
one. -/
def ConnectedOnce (c : Connector) (e : Event) (c' : Connector) : Prop :=
  match e with
  | .handleOut .NOERROR _ _ =>
      (∃ socket, c.socket = some socket ∧ socket.connectIssued = true) ∧
        c'.callbacks.count .onConnected ≤ 1
  | _ => c'.callbacks.count .onConnected = c.callbacks.count .onConnected

/-- No success is handled between an expiration of the retry timer and the call of
`connect` by its functor. -/
def Unreplaced (s : Connector × Bool) : Event → Prop
  | .handleOut .NOERROR _ _ => s.2 = false
  | _ => True

variable {c c' : Connector} {e : Event} {replaced : Bool}

/-- The invariant. `connect` has been called on the socket in use unless the timer has
replaced it, or nothing has happened yet. -/
structure Issued (s : Connector × Bool) : Prop where
  handedOver : s.1.HandedOver
  replaced : s.2 = true → ∀ socket, s.1.socket = some socket → socket.connectIssued = false
  issued : s.2 = false → ∀ socket, s.1.socket = some socket → socket.connectIssued = true ∨
    (s.1.epoll = Epoll.new ∧ s.1.batch = [] ∧ s.1.state = .Closed)
  unconnected : ∀ socket, s.1.socket = some socket → s.1.callbacks.count .onConnected = 0

theorem makeConnector_issued (ctlAnswers : Nat → Answer Unit) (ptr : Nat) (fd : Int) :
    Issued (makeConnector ctlAnswers ptr fd, false) where
  handedOver := makeConnector_handedOver ctlAnswers ptr fd
  replaced h := absurd h Bool.false_ne_true
  issued _ _ _ := .inr ⟨rfl, rfl, rfl⟩
  unconnected _ _ := rfl

/-- With an event in the batch, something has happened. -/
theorem Issued.of_batch (h : Issued (c, false)) {ptr : Nat} {batch : List Nat}
    (hbatch : c.batch = ptr :: batch) {socket : Socket} (hsocket : c.socket = some socket) :
    socket.connectIssued = true := by
  rcases h.issued rfl socket hsocket with hissued | ⟨-, hempty, -⟩
  · exact hissued
  · simp only at hempty
    rw [hbatch] at hempty
    cases hempty

/-- A step that keeps the socket, on which `connect` has been called if the timer has not
replaced it. -/
theorem Issued.keep (h : Issued (c, replaced)) (hhanded : c'.HandedOver)
    (hsocket : c'.socket = c.socket)
    (hissued : replaced = false → ∀ socket, c.socket = some socket →
      socket.connectIssued = true)
    (hcount : c'.callbacks.count .onConnected = c.callbacks.count .onConnected) :
    Issued (c', replaced) where
  handedOver := hhanded
  replaced htrue socket hsome := h.replaced htrue socket (hsocket ▸ hsome)
  issued hfalse socket hsome := .inl (hissued hfalse socket (hsocket ▸ hsome))
  unconnected socket hsome := hcount.trans (h.unconnected socket (hsocket ▸ hsome))

/-- An attempt of the functor issues the connection of the socket it makes. -/
theorem Issued.attempted (hhanded : c'.HandedOver) {socket : Socket}
    (hsocket : c'.socket = some socket) (hissued : socket.connectIssued = true)
    (hcount : c'.callbacks.count .onConnected = 0) : Issued (c', false) where
  handedOver := hhanded
  replaced h := absurd h Bool.false_ne_true
  issued _ socket' hsome := by
    cases hsocket.symm.trans hsome
    exact .inl hissued
  unconnected _ _ := hcount

/-- Step lemma: every step keeps the invariant. -/
theorem Issued.step (h : Issued (c, replaced)) (hok : c.step e = .ok c') :
    Issued (c', recordReplaced c e replaced) := by
  have hhanded : c'.HandedOver := h.handedOver.step (e := .connector e) hok
  cases step_ok hok with
  | connect => exact ⟨hhanded, h.replaced, h.issued, h.unconnected⟩
  | stopConnect => exact ⟨hhanded, h.replaced, h.issued, h.unconnected⟩
  | connectFunctor answer retry functors d hfunctors hrun =>
      have hrecord : recordReplaced c (.functor answer) replaced =
          if c.state = .Closed then false else replaced := by
        simp [recordReplaced, hfunctors]
      cases hrun with
      | ignored hstate =>
          rw [hrecord, if_neg hstate]
          exact ⟨hhanded, h.replaced, h.issued, h.unconnected⟩
      | connecting socket result hstate hsocket hstub =>
          rw [hrecord, if_pos hstate]
          exact .attempted hhanded rfl rfl (h.unconnected socket hsocket)
      | inProgress socket e hstate hsocket hstub hcode =>
          rw [hrecord, if_pos hstate]
          exact .attempted hhanded rfl rfl (h.unconnected socket hsocket)
      | failed socket e hstate hsocket hstub hcode =>
          rw [hrecord, if_pos hstate]
          refine .attempted hhanded rfl rfl ?_
          have hcount := h.unconnected socket hsocket
          simpa [call, attempt, activeOut, update] using hcount
  | stopFunctor answer functors d hfunctors hrun =>
      have hrecord : recordReplaced c (.functor answer) replaced = replaced := by
        simp [recordReplaced, hfunctors]
      rw [hrecord]
      cases hrun with
      | ignored hstate => exact ⟨hhanded, h.replaced, h.issued, h.unconnected⟩
      | cleaned hstate =>
          obtain ⟨-, hsocket, -, -, hcallbacks, -⟩ := stopTimer_kept { c with functors := functors }
          apply h.keep hhanded
          · exact hsocket
          · intro hfalse socket hsome
            rcases h.issued hfalse socket hsome with hissued | ⟨-, -, hclosed⟩
            · exact hissued
            · have hconnecting : c.state = .Connecting := hstate
              simp only at hclosed
              rw [hclosed] at hconnecting
              cases hconnecting
          · exact congrArg (List.count .onConnected) hcallbacks
  | remove answer event functors hfunctors =>
      have hrecord : recordReplaced c (.functor answer) replaced = replaced := by
        simp [recordReplaced, hfunctors]
      rw [hrecord]
      refine ⟨hhanded, h.replaced, fun hfalse socket hsome => ?_, h.unconnected⟩
      rcases h.issued hfalse socket hsome with hissued | ⟨hepoll, hbatch, hclosed⟩
      · exact .inl hissued
      · refine .inr ⟨?_, hbatch, hclosed⟩
        change c.epoll.removeEvent event _ = Epoll.new
        rw [show c.epoll = Epoll.new from hepoll]
        rfl
  | poll ready hbatch =>
      refine ⟨hhanded, h.replaced, fun hfalse socket hsome => ?_, h.unconnected⟩
      rcases h.issued hfalse socket hsome with hissued | ⟨hepoll, -, hclosed⟩
      · exact .inl hissued
      · refine .inr ⟨hepoll, ?_, hclosed⟩
        change ready.filterMap (fun fd => (c.epoll.interest fd).map Prod.fst) = []
        rw [show c.epoll = Epoll.new from hepoll]
        simp [Epoll.new]
  | handleOut error timerFd sameLoop batch socket d hbatch hsocket hhandle =>
      have hrecord : recordReplaced c (.handleOut error timerFd sameLoop) replaced = replaced := rfl
      have hissued : replaced = false → ∀ socket, c.socket = some socket →
          socket.connectIssued = true := by
        rintro rfl socket hsome
        exact h.of_batch hbatch hsome
      rw [hrecord]
      cases hhandle with
      | firstRetry herror htimer => exact h.keep hhanded rfl hissued rfl
      | nextRetry timer herror htimer => exact h.keep hhanded rfl hissued rfl
      | inProgress herror => exact h.keep hhanded rfl hissued rfl
      | failed herror hsuccess hpending => exact h.keep hhanded rfl hissued (by simp [call])
      | succeeded socket' herror hsocket' =>
          have hnone : (succeed { c with batch := batch } socket' sameLoop).socket = none := by
            cases sameLoop <;> rfl
          refine ⟨hhanded, ?_, ?_, ?_⟩
          · intro _ socket'' hsome
            simp only [hnone] at hsome
            cases hsome
          · intro _ socket'' hsome
            simp only [hnone] at hsome
            cases hsome
          · intro socket'' hsome
            simp only [hnone] at hsome
            cases hsome
  | timeOut answer batch timer socket result hbatch htimer hsocket hstub =>
      refine ⟨hhanded, fun _ socket' hsome => ?_, fun hfalse => ?_, fun _ _ => ?_⟩
      · cases hsome
        rfl
      · cases hfalse
      · exact h.unconnected socket hsocket
  | other ptr batch hbatch =>
      apply h.keep hhanded rfl
      · rintro rfl socket hsome
        exact h.of_batch hbatch hsome
      · rfl

/-! ## The steps -/

/-- A step that hands no socket over calls no `onConnected`. -/
theorem Stepped.unconnected (hstep : Stepped c e c')
    (hfails : ∀ timerFd sameLoop, e ≠ .handleOut .NOERROR timerFd sameLoop) :
    c'.callbacks.count .onConnected = c.callbacks.count .onConnected := by
  cases hstep with
  | connectFunctor answer retry functors d hfunctors hrun => exact hrun.silent
  | stopFunctor answer functors d hfunctors hrun => exact congrArg _ hrun.silent
  | handleOut error timerFd sameLoop batch socket d hbatch hsocket hhandle =>
      apply hhandle.silent
      rintro rfl
      exact hfails timerFd sameLoop rfl
  | _ => rfl

theorem succeed_count (c : Connector) (socket : Socket) (sameLoop : Bool) :
    (c.succeed socket sameLoop).callbacks.count .onConnected =
      c.callbacks.count .onConnected + 1 := by
  have hcallbacks := (stopTimer_kept c).2.2.2.2.1
  cases sameLoop <;>
    simp [succeed, registerConnection, update, disable, call, hcallbacks]

theorem Issued.connectedOnce_iff (h : Issued (c, replaced)) (hok : c.step e = .ok c') :
    ConnectedOnce c e c' ↔ Unreplaced (c, replaced) e := by
  have hstep := step_ok hok
  by_cases hsucceeds : ∃ timerFd sameLoop, e = .handleOut .NOERROR timerFd sameLoop
  · obtain ⟨timerFd, sameLoop, rfl⟩ := hsucceeds
    cases hstep with
    | handleOut error timerFd sameLoop batch socket d hbatch hsocket hhandle =>
        constructor
        · rintro ⟨⟨socket', hsocket', hissued⟩, -⟩
          cases hreplaced : replaced with
          | false => rfl
          | true =>
              have hnot := h.replaced hreplaced socket' hsocket'
              rw [hissued] at hnot
              cases hnot
        · intro hunreplaced
          have hfalse : replaced = false := hunreplaced
          subst hfalse
          refine ⟨⟨socket, hsocket, h.of_batch hbatch hsocket⟩, ?_⟩
          have hcount := h.unconnected socket hsocket
          cases hhandle with
          | firstRetry herror htimer => rcases herror with herror | herror <;> cases herror
          | nextRetry timer herror htimer => rcases herror with herror | herror <;> cases herror
          | inProgress herror => cases herror
          | failed herror hsuccess hpending => exact absurd rfl hsuccess
          | succeeded socket' herror hsocket' =>
              rw [succeed_count]
              exact Nat.succ_le_succ (Nat.le_of_eq hcount)
  · have hfails : ∀ timerFd sameLoop, e ≠ .handleOut .NOERROR timerFd sameLoop :=
      fun timerFd sameLoop heq => hsucceeds ⟨timerFd, sameLoop, heq⟩
    have hcount := hstep.unconnected hfails
    have hconnected : ConnectedOnce c e c' := by
      unfold ConnectedOnce
      split
      · exact absurd rfl (hfails _ _)
      · exact hcount
    have hunreplaced : Unreplaced (c, replaced) e := by
      unfold Unreplaced
      split
      · exact absurd rfl (hfails _ _)
      · trivial
    exact ⟨fun _ => hunreplaced, fun _ => hconnected⟩

/-- In a run every success is the only one and that of a socket on which `connect` has been
called, if and only if no success is handled on a socket that the retry timer has put in
place and no functor has connected. -/
theorem connectedOnce_iff_unreplaced (ctlAnswers : Nat → Answer Unit) (ptr : Nat) (fd : Int)
    (events : List Event) :
    Run.Always (Run.recorded step recordReplaced)
        (Run.Each (Run.recorded step recordReplaced) fun s e s' => ConnectedOnce s.1 e s'.1)
        (makeConnector ctlAnswers ptr fd, false) events ↔
      Run.Always (Run.recorded step recordReplaced)
        (Run.Each (Run.recorded step recordReplaced) fun s e _ => Unreplaced s e)
        (makeConnector ctlAnswers ptr fd, false) events := by
  apply Run.always_each_iff (J := Issued)
  · rintro ⟨c, replaced⟩ e ⟨c', replaced'⟩ h - hok
    obtain ⟨hstep, hrecord⟩ := Run.recorded_ok hok
    rw [show replaced' = _ from hrecord]
    exact h.step hstep
  · rintro ⟨c, replaced⟩ e ⟨c', replaced'⟩ h hok
    exact h.connectedOnce_iff (Run.recorded_ok hok).1
  · exact makeConnector_issued ctlAnswers ptr fd

/-- An attempt is refused, and when the timer expires `EPOLLOUT` of the new socket is
handled before the functor that connects it. -/
theorem connectedOnce_fails : ¬Run.Always (Run.recorded step recordReplaced)
    (Run.Each (Run.recorded step recordReplaced) fun s e s' => ConnectedOnce s.1 e s'.1)
    (makeConnector (fun _ => .done ()) 0 5, false)
    [.connect, .functor (.failed .EINPROGRESS), .poll [5], .handleOut .CONNREFUSED 6 false,
      .poll [6], .handleIn (.done 7), .poll [7], .handleOut .NOERROR 8 false] := by
  intro h
  have hconnected := (((((((h.2 _ rfl).2 _ rfl).2 _ rfl).2 _ rfl).2 _ rfl).2 _ rfl).2 _ rfl).1 _ rfl
  obtain ⟨⟨socket, hsocket, hissued⟩, -⟩ := hconnected
  cases hsocket
  cases hissued

end Connector

end Netpp
