import Netpp.Connector.Steps

/-!
# Cancelling a connect

`stopConnect` looks at the state to see if there is anything to cancel, so an
attempt under way should always find the state `Connecting`. But the functor of
`connect` sets it after a system call that on a non-blocking socket throws
`EINPROGRESS`. Two more things start an attempt that nobody has asked for: the
functor that the retry timer has queued before a stop, and an event that was
waiting in the batch. `InOrder` rules these out, and
`cancellable_iff_inOrder` shows that this is exact.
-/

namespace Netpp

namespace Connector

variable {c c' : Connector} {e : Event}

/-- Epoll has the event of the connector. -/
def registered (c : Connector) : Prop :=
  c.epoll.events c.epollEvent.watchingFd = some c.epollEvent.ptr

def timerRunning (c : Connector) : Prop :=
  ∃ timer, c.retryTimer = some timer ∧ timer.running = true

/-- An attempt is under way: it waits for `EPOLLOUT` or for the retry timer. -/
def Unfinished (c : Connector) : Prop :=
  (c.registered ∧ c.epollEvent.watchingEvents .OUT = true) ∨ c.timerRunning

/-- The loop and epoll do not know the connector, and no timer runs. -/
def Quiet (c : Connector) : Prop :=
  c.inHandlers = false ∧ ¬c.registered ∧ ¬c.timerRunning

/-- What a user who calls `stopConnect` relies on, for a step from `c` to `c'`. -/
structure Cancellable (c c' : Connector) : Prop where
  connecting : c'.Unfinished → c'.connectionEstablished = false → c'.state = .Connecting
  stopped : c'.stopped = true → c'.Quiet
  silent : c.stopped = true →
    c'.callbacks.count .onConnected = c.callbacks.count .onConnected

/-- On a closed connector a functor of `connect` is a user's and its call of
`connect` does not throw, and no event reports a success or an error that is
retried. -/
def InOrder (c : Connector) : Event → Prop
  | .functor answer => c.state = .Closed → ∀ retry, c.functors.head? = some (.connect retry) →
      retry = false ∧ ∃ result, Stub.connect answer = .ok result
  | .handleOut error _ _ => c.state = .Closed → ¬Retries error ∧ error ≠ .NOERROR
  | _ => True

/-- Nothing has happened to the connector yet, apart from calls of the user. -/
def Untouched (c : Connector) : Prop :=
  c.epoll = Epoll.new ∧ c.batch = [] ∧ .connect true ∉ c.functors

/-- The invariant: the state says what is under way. -/
structure Consistent (c : Connector) : Prop where
  state : c.state = .Closed ∨ c.state = .Connecting
  moved : c.connectionEstablished = true → c.socket = none
  timer : c.retryTimer.isSome → c.state = .Connecting
  closed : c.state = .Closed → c.Quiet
  stopped : c.stopped = true → c.state = .Closed
  untouched : c.state = .Closed → c.stopped = false → c.Untouched

theorem makeConnector_consistent (ctlAnswers : Nat → Answer Unit) (ptr : Nat) (fd : Int) :
    (makeConnector ctlAnswers ptr fd).Consistent where
  state := .inl rfl
  moved h := absurd h Bool.false_ne_true
  timer h := absurd h Bool.false_ne_true
  closed _ := by
    refine ⟨rfl, Option.some_ne_none _ ∘ Eq.symm, ?_⟩
    rintro ⟨timer, htimer, -⟩
    cases htimer
  stopped h := absurd h Bool.false_ne_true
  untouched _ _ := ⟨rfl, rfl, List.not_mem_nil⟩

/-- The invariant gives the first two parts of what a user relies on. -/
theorem Consistent.cancellable (h : c'.Consistent)
    (hsilent : c.stopped = true →
      c'.callbacks.count .onConnected = c.callbacks.count .onConnected) :
    Cancellable c c' where
  connecting hunfinished _ := by
    rcases h.state with hclosed | hconnecting
    · obtain ⟨-, hunregistered, hstill⟩ := h.closed hclosed
      rcases hunfinished with ⟨hregistered, -⟩ | htimer
      · exact absurd hregistered hunregistered
      · exact absurd htimer hstill
    · exact hconnecting
  stopped hstopped := h.closed (h.stopped hstopped)
  silent := hsilent

/-- A consistent connector that is closed has no timer. -/
theorem Consistent.retryTimer_eq_none (h : c.Consistent) (hclosed : c.state = .Closed) :
    c.retryTimer = none := by
  cases htimer : c.retryTimer with
  | none => rfl
  | some timer =>
      have hconnecting := h.timer (by rw [htimer]; rfl)
      rw [hclosed] at hconnecting
      cases hconnecting

/-! ## Steps that stay in order -/

theorem Consistent.dequeue (h : c.Consistent) {functor : Functor} {functors : List Functor}
    (hfunctors : c.functors = functor :: functors) :
    Consistent { c with functors := functors } :=
  { h with
    untouched := by
      intro hclosed hstopped
      obtain ⟨hepoll, hbatch, hnoretry⟩ := h.untouched hclosed hstopped
      refine ⟨hepoll, hbatch, fun hretry => hnoretry ?_⟩
      rw [hfunctors]
      exact List.mem_cons_of_mem _ hretry }

/-- A functor that a user's call queues. -/
theorem Consistent.enqueue (h : c.Consistent) {functor : Functor}
    (hfunctor : functor ≠ .connect true) : (c.runInLoop functor).Consistent :=
  { h with
    untouched := by
      intro hclosed hstopped
      obtain ⟨hepoll, hbatch, hnoretry⟩ := h.untouched hclosed hstopped
      refine ⟨hepoll, hbatch, fun hretry => ?_⟩
      rcases List.mem_append.mp hretry with hold | hnew
      · exact hnoretry hold
      · exact hfunctor (List.mem_singleton.mp hnew).symm }

/-- An event of the batch is taken. A connector with a batch has been connecting. -/
theorem Consistent.take (h : c.Consistent) {ptr : Nat} {batch : List Nat}
    (hbatch : c.batch = ptr :: batch) : Consistent { c with batch := batch } :=
  { h with
    untouched := by
      intro hclosed hstopped
      have hempty := (h.untouched hclosed hstopped).2.1
      rw [hbatch] at hempty
      cases hempty }

/-- A connecting connector meets the parts of the invariant about closed ones. -/
theorem consistent_of_connecting (hstate : c.state = .Connecting)
    (hmoved : c.connectionEstablished = true → c.socket = none)
    (hstopped : c.stopped = false) : c.Consistent where
  state := .inr hstate
  moved := hmoved
  timer _ := hstate
  closed h := by
    rw [hstate] at h
    cases h
  stopped h := by
    rw [hstopped] at h
    cases h
  untouched h := by
    rw [hstate] at h
    cases h

/-- A connecting connector has not been stopped. -/
theorem Consistent.not_stopped (h : c.Consistent) (hstate : c.state = .Connecting) :
    c.stopped = false := by
  cases hstopped : c.stopped with
  | false => rfl
  | true =>
      have hclosed := h.stopped hstopped
      rw [hstate] at hclosed
      cases hclosed

theorem Consistent.connectFunctor (h : c.Consistent) {answer : Answer Unit} {retry : Bool}
    (hrun : ConnectFunctor c answer c')
    (hordered : c.state = .Closed → retry = false ∧ ∃ result, Stub.connect answer = .ok result) :
    Consistent { c' with stopped := c'.stopped && retry } := by
  cases hrun with
  | ignored hstate =>
      have hconnecting := h.state.resolve_left hstate
      apply consistent_of_connecting
      · exact hconnecting
      · exact h.moved
      · simp [h.not_stopped hconnecting]
  | connecting socket result hstate hsocket hstub =>
      apply consistent_of_connecting
      · rfl
      · intro hestablished
        have hmoved := h.moved hestablished
        rw [hsocket] at hmoved
        cases hmoved
      · simp [(hordered hstate).1]
  | inProgress socket e hstate hsocket hstub hcode =>
      obtain ⟨result, hok⟩ := (hordered hstate).2
      rw [hstub] at hok
      cases hok
  | failed socket e hstate hsocket hstub hcode =>
      obtain ⟨result, hok⟩ := (hordered hstate).2
      rw [hstub] at hok
      cases hok

/-- The connector has been removed from epoll, and there is no timer. -/
theorem quiet_of_removed (hhandlers : c.inHandlers = false) (htimer : c.retryTimer = none)
    (hevents : c.epoll.events c.epollEvent.watchingFd = none) : c.Quiet := by
  refine ⟨hhandlers, ?_, ?_⟩
  · rw [registered, hevents]
    exact (Option.some_ne_none _).symm
  · rintro ⟨timer, hsome, -⟩
    rw [htimer] at hsome
    cases hsome

theorem stopTimer_retryTimer (c : Connector) : c.stopTimer.retryTimer = none := by
  cases htimer : c.retryTimer with
  | none => simp [stopTimer, htimer]
  | some timer => simp [stopTimer, htimer]

/-- What stopping the timer leaves as it was. -/
theorem stopTimer_kept (c : Connector) : c.stopTimer.epollEvent = c.epollEvent ∧
    c.stopTimer.socket = c.socket ∧ c.stopTimer.state = c.state ∧ c.stopTimer.stopped = c.stopped ∧
    c.stopTimer.callbacks = c.callbacks ∧
    c.stopTimer.connectionEstablished = c.connectionEstablished := by
  cases htimer : c.retryTimer with
  | none => simp [stopTimer, htimer]
  | some timer => simp [stopTimer, runInLoop, htimer]

theorem Consistent.stopFunctor (h : c.Consistent) (hrun : StopFunctor c c') :
    Consistent { c' with stopped := true } := by
  cases hrun with
  | cleaned hstate =>
      obtain ⟨hevent, hsocket, -, -, -, hestablished⟩ := stopTimer_kept c
      refine ⟨.inl rfl, ?_, ?_, fun _ => ?_, fun _ => rfl, nofun⟩
      · simp only [disable, hsocket, hestablished]
        exact h.moved
      · simp [disable, stopTimer_retryTimer]
      · apply quiet_of_removed
        · rfl
        · exact stopTimer_retryTimer c
        · simp [disable, hevent, Epoll.removeEvent_events]
  | ignored hstate =>
      have hclosed := h.state.resolve_right hstate
      exact ⟨h.state, h.moved, h.timer, h.closed, fun _ => hclosed, nofun⟩

/-- A connector that has its socket is not connected. -/
theorem Consistent.not_established (h : c.Consistent) {socket : Socket}
    (hsocket : c.socket = some socket) : c.connectionEstablished ≠ true := by
  intro hestablished
  have hmoved := h.moved hestablished
  rw [hsocket] at hmoved
  cases hmoved

theorem Consistent.handleOut (h : c.Consistent) {error : SocketError} {timerFd : Int}
    {sameLoop : Bool} {socket : Socket} (hsocket : c.socket = some socket)
    (hrun : HandleOut c error timerFd sameLoop c')
    (hordered : c.state = .Closed → ¬Retries error ∧ error ≠ .NOERROR) : c'.Consistent := by
  have hunmoved := h.not_established hsocket
  cases hrun with
  | firstRetry herror htimer =>
      have hstate := h.state.resolve_left fun hclosed => (hordered hclosed).1 herror
      apply consistent_of_connecting
      · exact hstate
      · exact fun hestablished => absurd hestablished hunmoved
      · exact h.not_stopped hstate
  | nextRetry timer herror htimer =>
      have hstate := h.state.resolve_left fun hclosed => (hordered hclosed).1 herror
      apply consistent_of_connecting
      · exact hstate
      · exact fun hestablished => absurd hestablished hunmoved
      · exact h.not_stopped hstate
  | inProgress herror => exact h
  | succeeded socket' herror hsocket' =>
      have hstate := h.state.resolve_left fun hclosed => (hordered hclosed).2 herror
      obtain ⟨-, -, hkept, hstopped, -, -⟩ := stopTimer_kept c
      have hnot := h.not_stopped hstate
      apply consistent_of_connecting
      · cases sameLoop <;> simp [succeed, registerConnection, update, disable, call, hkept, hstate]
      · intro _
        cases sameLoop <;> rfl
      · cases sameLoop <;> simp [succeed, registerConnection, update, disable, call, hstopped, hnot]
  | failed herror hsuccess hpending =>
      exact { h with }

theorem Consistent.timeOut (h : c.Consistent) {timer : Timer} {socket : Socket} (fd : Int)
    (htimer : c.retryTimer = some timer) (hsocket : c.socket = some socket) :
    (c.renewed socket fd).Consistent := by
  have hstate := h.timer (by rw [htimer]; rfl)
  apply consistent_of_connecting
  · exact hstate
  · exact fun hestablished => absurd hestablished (h.not_established hsocket)
  · exact h.not_stopped hstate

theorem Consistent.remove (h : c.Consistent) (event : EpollEvent Nat) :
    (c.disable event).Consistent :=
  { h with
    closed := by
      intro hclosed
      obtain ⟨hhandlers, hunregistered, hstill⟩ := h.closed hclosed
      refine ⟨hhandlers, fun hregistered => hunregistered ?_, hstill⟩
      exact (disable_entry hregistered).2
    untouched := by
      intro hclosed hstopped
      obtain ⟨hepoll, hrest⟩ := h.untouched hclosed hstopped
      refine ⟨?_, hrest⟩
      change c.epoll.removeEvent event _ = Epoll.new
      rw [hepoll]
      rfl }

theorem Consistent.poll (h : c.Consistent) (ready : List Int) : Consistent { c with
    batch := ready.filterMap fun fd => (c.epoll.interest fd).map Prod.fst } :=
  { h with
    untouched := by
      intro hclosed hstopped
      obtain ⟨hepoll, -, hnoretry⟩ := h.untouched hclosed hstopped
      refine ⟨hepoll, ?_, hnoretry⟩
      change ready.filterMap (fun fd => (c.epoll.interest fd).map Prod.fst) = []
      rw [hepoll]
      simp [Epoll.new] }

/-- Step lemma: a step in order keeps the invariant. -/
theorem Consistent.step (h : c.Consistent) (hstep : Stepped c e c') (hordered : c.InOrder e) :
    c'.Consistent := by
  cases hstep with
  | connect => exact h.enqueue (by simp)
  | stopConnect => exact h.enqueue (by simp)
  | connectFunctor answer retry functors d hfunctors hrun =>
      apply (h.dequeue hfunctors).connectFunctor hrun
      intro hclosed
      exact hordered hclosed retry (by rw [hfunctors]; rfl)
  | stopFunctor answer functors d hfunctors hrun => exact (h.dequeue hfunctors).stopFunctor hrun
  | remove answer event functors hfunctors => exact (h.dequeue hfunctors).remove event
  | poll ready hbatch => exact h.poll ready
  | handleOut error timerFd sameLoop batch socket d hbatch hsocket hhandle =>
      exact (h.take hbatch).handleOut hsocket hhandle hordered
  | timeOut answer batch timer socket result hbatch htimer hsocket hstub =>
      exact (h.take hbatch).timeOut _ htimer hsocket
  | other ptr batch hbatch => exact h.take hbatch

/-! ## Callbacks of a stopped connector -/

/-- A handler that does not succeed does not call `onConnected`. -/
theorem HandleOut.silent {error : SocketError} {timerFd : Int} {sameLoop : Bool}
    (h : HandleOut c error timerFd sameLoop c') (hfailure : error ≠ .NOERROR) :
    c'.callbacks.count .onConnected = c.callbacks.count .onConnected := by
  cases h with
  | succeeded socket herror hsocket => exact absurd herror hfailure
  | failed herror hsuccess hpending => simp [call]
  | _ => rfl

theorem ConnectFunctor.silent {answer : Answer Unit} (h : ConnectFunctor c answer c') :
    c'.callbacks.count .onConnected = c.callbacks.count .onConnected := by
  cases h with
  | failed socket e hstate hsocket hstub hcode => simp [call, attempt, activeOut, update]
  | _ => rfl

theorem StopFunctor.silent (h : StopFunctor c c') : c'.callbacks = c.callbacks := by
  cases h with
  | cleaned hstate => exact (stopTimer_kept c).2.2.2.2.1
  | ignored hstate => rfl

theorem Stepped.silent (hstep : Stepped c e c') (h : c.Consistent) (hordered : c.InOrder e)
    (hstopped : c.stopped = true) :
    c'.callbacks.count .onConnected = c.callbacks.count .onConnected := by
  cases hstep with
  | connectFunctor answer retry functors d hfunctors hrun => exact hrun.silent
  | stopFunctor answer functors d hfunctors hrun => exact congrArg _ hrun.silent
  | handleOut error timerFd sameLoop batch socket d hbatch hsocket hhandle =>
      exact hhandle.silent (hordered (h.stopped hstopped)).2
  | _ => rfl

/-! ## Steps that do not -/

/-- The connector waits for the outcome of an attempt just made. -/
theorem attempt_unfinished (c : Connector) (socket : Socket) : (c.attempt socket).Unfinished := by
  left
  constructor
  · simp [registered, attempt, activeOut, update, EpollEvent.active, Epoll.updateEvent_events]
  · simp [attempt, activeOut, update, EpollEvent.active]

/-- A functor of `connect` that is out of order leaves a step that is not
cancellable. -/
theorem ConnectFunctor.inOrder {answer : Answer Unit} {retry : Bool}
    (hrun : ConnectFunctor c answer c') (h : c.Consistent) (hclosed : c.state = .Closed)
    (hretry : retry = true → c.stopped = true)
    (hcancellable : Cancellable c { c' with stopped := c'.stopped && retry }) :
    retry = false ∧ ∃ result, Stub.connect answer = .ok result := by
  cases hrun with
  | ignored hstate => exact absurd hclosed hstate
  | connecting socket result hstate hsocket hstub =>
      refine ⟨?_, result, hstub⟩
      cases retry with
      | false => rfl
      | true =>
          have hstopped : (c.attempt socket).stopped = true := hretry rfl
          have hquiet := hcancellable.stopped (by simp [hstopped])
          cases hquiet.1
  | inProgress socket e hstate hsocket hstub hcode =>
      have hunfinished := attempt_unfinished c socket
      have hunestablished := eq_false_of_ne_true (h.not_established hsocket)
      have hconnecting := hcancellable.connecting hunfinished hunestablished
      change c.state = .Connecting at hconnecting
      rw [hclosed] at hconnecting
      cases hconnecting
  | failed socket e hstate hsocket hstub hcode =>
      have hunfinished := attempt_unfinished c socket
      have hunestablished := eq_false_of_ne_true (h.not_established hsocket)
      have hconnecting := hcancellable.connecting hunfinished hunestablished
      change c.state = .Connecting at hconnecting
      rw [hclosed] at hconnecting
      cases hconnecting

/-- An event handled on a connector that has been stopped. -/
theorem HandleOut.inOrder {error : SocketError} {timerFd : Int} {sameLoop : Bool}
    {socket : Socket} (hrun : HandleOut c error timerFd sameLoop c') (h : c.Consistent)
    (hsocket : c.socket = some socket) (hclosed : c.state = .Closed) (hstopped : c.stopped = true)
    (hcancellable : Cancellable c c') : ¬Retries error ∧ error ≠ .NOERROR := by
  cases hrun with
  | firstRetry herror htimer =>
      have hrunning : (c.setupTimer timerFd).reconnect.timerRunning := ⟨_, rfl, rfl⟩
      have hunestablished := eq_false_of_ne_true (h.not_established hsocket)
      have hconnecting := hcancellable.connecting (.inr hrunning) hunestablished
      change c.state = .Connecting at hconnecting
      rw [hclosed] at hconnecting
      cases hconnecting
  | nextRetry timer herror htimer =>
      rw [h.retryTimer_eq_none hclosed] at htimer
      cases htimer
  | inProgress herror =>
      rw [herror]
      exact ⟨by simp [Retries], by simp⟩
  | succeeded socket' herror hsocket' =>
      have hsilent := hcancellable.silent hstopped
      have hcallbacks := (stopTimer_kept c).2.2.2.2.1
      cases sameLoop <;>
        simp [succeed, registerConnection, update, disable, call, hcallbacks] at hsilent
  | failed herror hsuccess hpending => exact ⟨herror, hsuccess⟩

/-- A step lemma of both directions: under the invariant, a step is cancellable
exactly if it is in order. -/
theorem Consistent.cancellable_iff (h : c.Consistent) (hstep : Stepped c e c') :
    Cancellable c c' ↔ c.InOrder e := by
  constructor
  · intro hcancellable
    cases hstep with
    | connectFunctor answer retry functors d hfunctors hrun =>
        intro hclosed retry' hhead
        rw [hfunctors] at hhead
        cases hhead
        refine hrun.inOrder (h.dequeue hfunctors) hclosed ?_
          ⟨hcancellable.connecting, hcancellable.stopped, hcancellable.silent⟩
        rintro rfl
        by_contra hstopped
        have hnoretry := (h.untouched hclosed (eq_false_of_ne_true hstopped)).2.2
        rw [hfunctors] at hnoretry
        exact hnoretry (List.mem_cons_self ..)
    | stopFunctor answer functors d hfunctors hrun =>
        intro _ retry hhead
        rw [hfunctors] at hhead
        cases hhead
    | remove answer event functors hfunctors =>
        intro _ retry hhead
        rw [hfunctors] at hhead
        cases hhead
    | handleOut error timerFd sameLoop batch socket d hbatch hsocket hhandle =>
        intro hclosed
        refine hhandle.inOrder (h.take hbatch) hsocket hclosed ?_
          ⟨hcancellable.connecting, hcancellable.stopped, hcancellable.silent⟩
        by_contra hstopped
        have hempty := (h.untouched hclosed (eq_false_of_ne_true hstopped)).2.1
        rw [hbatch] at hempty
        cases hempty
    | _ => trivial
  · intro hordered
    exact (h.step hstep hordered).cancellable (hstep.silent h hordered)

/-- In a run every pending attempt can be cancelled, and a cancelled one stays so
until the user connects again, exactly if every step is in order. -/
theorem cancellable_iff_inOrder (ctlAnswers : Nat → Answer Unit) (ptr : Nat) (fd : Int)
    (events : List Event) :
    Run.Always step (Run.Each step fun c _ c' => Cancellable c c')
        (makeConnector ctlAnswers ptr fd) events ↔
      Run.Always step (Run.Each step fun c e _ => c.InOrder e)
        (makeConnector ctlAnswers ptr fd) events := by
  apply Run.always_each_iff (J := Consistent)
  · intro c e c' h hordered hok
    exact h.step (step_ok hok) hordered
  · intro c e c' h hok
    exact h.cancellable_iff (step_ok hok)
  · exact makeConnector_consistent ctlAnswers ptr fd

/-- `connect` answers `EINPROGRESS`, as it does on a non-blocking socket. -/
theorem cancellable_fails :
    ¬Run.Always step (Run.Each step fun c _ c' => Cancellable c c')
      (makeConnector (fun _ => .done ()) 0 5) [.connect, .functor (.failed .EINPROGRESS)] := by
  intro h
  have hcancellable := (h.2 _ rfl).1 _ rfl
  have hconnecting := hcancellable.connecting (attempt_unfinished _ ⟨5, false⟩) rfl
  cases hconnecting

end Connector

end Netpp
