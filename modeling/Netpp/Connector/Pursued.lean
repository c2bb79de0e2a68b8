import Netpp.Connector.Retry

/-!
# A connector that nobody stops

Once `connect` has been called, a connector that gets no `stopConnect` goes on until it
succeeds: it waits for `EPOLLOUT`, or its timer runs, or a functor of `connect` is in
the queue. After the success nothing starts again.
-/

namespace Netpp

namespace Connector

variable {c c' : Connector} {e : Event}

/-- The attempt has not come to an end: it is under way or about to begin. -/
def Outstanding (c : Connector) : Prop :=
  c.Unfinished ∨ ∃ retry, Functor.connect retry ∈ c.functors

/-- The invariant of a connector that is started and not stopped. -/
structure Pursued (c : Connector) : Prop where
  unstopped : .stopConnect ∉ c.functors
  unremoved : ∀ socket, c.socket = some socket → ∀ event, .remove event ∉ c.functors
  running : ∀ timer, c.retryTimer = some timer → timer.running = true
  underway : ∀ socket, c.socket = some socket →
    c.Unfinished ∨ (c.state = .Closed ∧ ∃ retry, .connect retry ∈ c.functors)
  finished : c.socket = none → c.retryTimer = none ∧ ¬c.registered
  allocated : c.epollEvent.ptr < c.nextPtr

/-- The functor of `connect` has been queued for a new connector. -/
theorem makeConnector_pursued (ctlAnswers : Nat → Answer Unit) (ptr : Nat) (fd : Int) :
    ((makeConnector ctlAnswers ptr fd).runInLoop (.connect false)).Pursued where
  unstopped := by simp [makeConnector, runInLoop]
  unremoved := by simp [makeConnector, runInLoop]
  running timer h := by cases h
  underway _ _ := .inr ⟨rfl, false, List.mem_singleton_self _⟩
  finished h := by cases h
  allocated := Nat.lt_succ_self ptr

/-- What has its socket is not at an end. -/
theorem Pursued.outstanding (h : c.Pursued) {socket : Socket} (hsocket : c.socket = some socket) :
    c.Outstanding :=
  (h.underway socket hsocket).imp_right And.right

theorem Pursued.connectFunctor (h : c.Pursued) {answer : Answer Unit} {retry : Bool}
    {functors : List Functor} (hfunctors : c.functors = .connect retry :: functors)
    (hrun : ConnectFunctor { c with functors := functors } answer c') : c'.Pursued := by
  have hsubset : ∀ functor ∈ functors, functor ∈ c.functors := by
    intro functor hmem
    rw [hfunctors]
    exact List.mem_cons_of_mem _ hmem
  have hattempt : ∀ socket, c.socket = some socket →
      (attempt { c with functors := functors } socket).Pursued := by
    intro socket hsocket
    refine ⟨fun hmem => h.unstopped (hsubset _ hmem), ?_, h.running,
      fun _ _ => .inl (attempt_unfinished _ socket), nofun, h.allocated⟩
    intro _ _ event hmem
    exact h.unremoved socket hsocket event (hsubset _ hmem)
  cases hrun with
  | ignored hstate =>
      refine ⟨fun hmem => h.unstopped (hsubset _ hmem), ?_, h.running, ?_, h.finished, h.allocated⟩
      · intro socket hsocket event hmem
        exact h.unremoved socket hsocket event (hsubset _ hmem)
      · intro socket hsocket
        refine .inl ((h.underway socket hsocket).resolve_right ?_)
        rintro ⟨hclosed, -⟩
        exact hstate hclosed
  | connecting socket result hstate hsocket hstub =>
      have hpursued := hattempt socket hsocket
      exact ⟨hpursued.unstopped, hpursued.unremoved, hpursued.running,
        fun _ _ => .inl (attempt_unfinished _ socket), nofun, hpursued.allocated⟩
  | inProgress socket e hstate hsocket hstub hcode => exact hattempt socket hsocket
  | failed socket e hstate hsocket hstub hcode =>
      have hpursued := hattempt socket hsocket
      exact ⟨hpursued.unstopped, hpursued.unremoved, hpursued.running,
        fun _ _ => .inl (attempt_unfinished _ socket), nofun, hpursued.allocated⟩

/-- The event of a connector that has succeeded is not registered, and a connection in the
same loop has another one. -/
theorem succeed_unregistered (h : c.epollEvent.ptr < c.nextPtr) (socket : Socket)
    (sameLoop : Bool) : ¬(c.succeed socket sameLoop).registered := by
  have hevent := (stopTimer_kept c).1
  have hidle : ¬(c.stopTimer.disable c.epollEvent).registered := by
    rw [disable_registered_iff, hevent]
    exact fun hregistered => hregistered.1 rfl
  intro hregistered
  cases sameLoop with
  | false => exact hidle hregistered
  | true =>
      have hentry : (registerConnection
          { c.stopTimer.disable c.epollEvent with socket := none } socket.fd).epoll.events
            c.stopTimer.epollEvent.watchingFd = some c.stopTimer.epollEvent.ptr := hregistered
      simp only [registerConnection, update_events, EpollEvent.active] at hentry
      rcases Table.insert_eq_some hentry with ⟨-, hptr⟩ | ⟨-, hbefore⟩
      · have hfresh : c.stopTimer.epollEvent.ptr = c.stopTimer.nextPtr := hptr
        rw [hevent, stopTimer_nextPtr] at hfresh
        omega
      · exact hidle hbefore

/-- What stopping the timer does to the functors. -/
theorem stopTimer_unstopped (h : .stopConnect ∉ c.functors) :
    .stopConnect ∉ c.stopTimer.functors := by
  cases htimer : c.retryTimer with
  | none => simpa [stopTimer, htimer] using h
  | some timer => simpa [stopTimer, runInLoop, htimer] using h

theorem Pursued.handleOut (h : c.Pursued) {error : SocketError} {timerFd : Int}
    {sameLoop : Bool} {socket : Socket} (hsocket : c.socket = some socket)
    (hrun : HandleOut c error timerFd sameLoop c') : c'.Pursued := by
  cases hrun with
  | firstRetry herror htimer =>
      have hrunning : ∀ timer, (c.setupTimer timerFd).reconnect.retryTimer = some timer →
          timer.running = true := by
        intro timer hsome
        cases hsome
        rfl
      refine ⟨h.unstopped, h.unremoved, hrunning, ?_, ?_, Nat.lt_succ_of_lt h.allocated⟩
      · intro _ _
        exact .inl (.inr ⟨_, rfl, rfl⟩)
      · intro hnone
        cases hsocket.symm.trans hnone
  | nextRetry timer herror htimer =>
      have hrunning : ∀ timer, c.reconnect.retryTimer = some timer → timer.running = true := by
        intro timer' hsome
        simp only [reconnect, htimer, Option.map_some, Option.some.injEq] at hsome
        rw [← hsome]
        split <;> exact h.running timer htimer
      refine ⟨h.unstopped, h.unremoved, hrunning, ?_, ?_, h.allocated⟩
      · intro _ _
        have hsome : c.reconnect.retryTimer = some (if timer.interval < 4000 then
            timer.setInterval (timer.interval * 2) else timer) := by
          rw [reconnect, htimer]
          rfl
        exact .inl (.inr ⟨_, hsome, hrunning _ hsome⟩)
      · intro hnone
        cases hsocket.symm.trans hnone
  | inProgress herror => exact h
  | failed herror hsuccess hpending => exact { h with }
  | succeeded socket' herror hsocket' =>
      have hfunctors : (c.succeed socket' sameLoop).functors = c.stopTimer.functors := by
        cases sameLoop <;> rfl
      have htimer : (c.succeed socket' sameLoop).retryTimer = none := by
        cases sameLoop <;> exact stopTimer_retryTimer c
      have hnone : (c.succeed socket' sameLoop).socket = none := by
        cases sameLoop <;> rfl
      refine ⟨?_, ?_, ?_, ?_, ?_, ?_⟩
      · rw [hfunctors]
        exact stopTimer_unstopped h.unstopped
      · intro socket'' hsome
        cases hnone.symm.trans hsome
      · intro timer hsome
        cases htimer.symm.trans hsome
      · intro socket'' hsome
        cases hnone.symm.trans hsome
      · intro _
        exact ⟨htimer, succeed_unregistered h.allocated socket' sameLoop⟩
      · have hevent := (stopTimer_kept c).1
        have hptr := stopTimer_nextPtr (c := c)
        have hallocated := h.allocated
        cases sameLoop with
        | false =>
            change c.stopTimer.epollEvent.ptr < c.stopTimer.nextPtr
            rw [hevent, hptr]
            exact hallocated
        | true =>
            change c.stopTimer.epollEvent.ptr < c.stopTimer.nextPtr + 1
            rw [hevent, hptr]
            exact Nat.lt_succ_of_lt hallocated

/-- Step lemma: every step but `stopConnect` keeps the invariant. -/
theorem Pursued.step (h : c.Pursued) (hstep : Stepped c e c') (hnostop : e ≠ .stopConnect) :
    c'.Pursued := by
  cases hstep with
  | connect =>
      refine ⟨?_, ?_, h.running, ?_, h.finished, h.allocated⟩
      · simpa [runInLoop] using h.unstopped
      · intro socket hsocket event hmem
        refine h.unremoved socket hsocket event ?_
        simpa [runInLoop] using hmem
      · intro socket hsocket
        refine (h.underway socket hsocket).imp_right ?_
        rintro ⟨hclosed, retry, hmem⟩
        exact ⟨hclosed, retry, List.mem_append_left _ hmem⟩
  | stopConnect => exact absurd rfl hnostop
  | connectFunctor answer retry functors d hfunctors hrun =>
      have hd := h.connectFunctor hfunctors hrun
      exact { hd with }
  | stopFunctor answer functors d hfunctors hrun =>
      refine absurd ?_ h.unstopped
      rw [hfunctors]
      exact List.mem_cons_self
  | remove answer event functors hfunctors =>
      have hsubset : ∀ functor ∈ functors, functor ∈ c.functors := by
        intro functor hmem
        rw [hfunctors]
        exact List.mem_cons_of_mem _ hmem
      have hnone : c.socket = none := by
        cases hsocket : c.socket with
        | none => rfl
        | some socket =>
            refine absurd ?_ (h.unremoved socket hsocket event)
            rw [hfunctors]
            exact List.mem_cons_self
      obtain ⟨htimer, hunregistered⟩ := h.finished hnone
      refine ⟨fun hmem => h.unstopped (hsubset _ hmem), ?_, h.running, ?_, ?_, h.allocated⟩
      · intro socket hsome
        cases hnone.symm.trans hsome
      · intro socket hsome
        cases hnone.symm.trans hsome
      · intro _
        refine ⟨htimer, fun hregistered => hunregistered ?_⟩
        exact (disable_entry hregistered).2
  | poll ready hbatch => exact { h with }
  | handleOut error timerFd sameLoop batch socket d hbatch hsocket hhandle =>
      have htaken : Pursued { c with batch := batch } := { h with }
      exact htaken.handleOut hsocket hhandle
  | timeOut answer batch timer socket result hbatch htimer hsocket hstub =>
      refine ⟨?_, ?_, h.running, ?_, ?_, Nat.lt_succ_self _⟩
      · simpa [renewed, activeOut, update, runInLoop] using h.unstopped
      · intro _ _ event hmem
        refine h.unremoved socket hsocket event ?_
        simpa [renewed, activeOut, update, runInLoop] using hmem
      · intro _ _
        exact .inl (.inr ⟨timer, htimer, h.running timer htimer⟩)
      · intro hnone
        cases hnone
  | other ptr batch hbatch => exact { h with }

/-- A connector that is at an end has handed its socket over. -/
theorem Pursued.socket_eq_none (h : c.Pursued) (hended : ¬c.Outstanding) : c.socket = none := by
  cases hsocket : c.socket with
  | none => rfl
  | some socket => exact absurd (h.outstanding hsocket) hended

/-- Step lemma: what is at an end stays so, unless the user calls `connect`. -/
theorem Pursued.ended (h : c.Pursued) (hended : ¬c.Outstanding) (hstep : Stepped c e c')
    (hnoconnect : e ≠ .connect) : ¬c'.Outstanding := by
  have hnone := h.socket_eq_none hended
  obtain ⟨htimer, hunregistered⟩ := h.finished hnone
  have hunqueued : ∀ retry, .connect retry ∉ c.functors :=
    fun retry hmem => hended (.inr ⟨retry, hmem⟩)
  cases hstep with
  | connect => exact absurd rfl hnoconnect
  | stopConnect =>
      rintro (hunfinished | ⟨retry, hmem⟩)
      · exact hended (.inl hunfinished)
      · exact hunqueued retry (by simpa [runInLoop] using hmem)
  | connectFunctor answer retry functors d hfunctors hrun =>
      refine absurd ?_ (hunqueued retry)
      rw [hfunctors]
      exact List.mem_cons_self
  | stopFunctor answer functors d hfunctors hrun =>
      refine absurd ?_ h.unstopped
      rw [hfunctors]
      exact List.mem_cons_self
  | remove answer event functors hfunctors =>
      rintro ((⟨hregistered, -⟩ | ⟨timer, hsome, -⟩) | ⟨retry, hmem⟩)
      · exact hunregistered (disable_entry hregistered).2
      · cases htimer.symm.trans hsome
      · refine hunqueued retry ?_
        rw [hfunctors]
        exact List.mem_cons_of_mem _ hmem
  | poll ready hbatch => exact hended
  | handleOut error timerFd sameLoop batch socket d hbatch hsocket hhandle =>
      cases hnone.symm.trans hsocket
  | timeOut answer batch timer socket result hbatch htimer hsocket hstub =>
      cases hnone.symm.trans hsocket
  | other ptr batch hbatch => exact hended

end Connector

end Netpp
