import Netpp.Connector.Connector
import Netpp.Library.Table

/-!
# What a step of the connector does

As for the connection, the functors and handlers are inverted here once. Each
relation has a constructor for each outcome, and says that a step that is made has
one of them.
-/

namespace Netpp

namespace Connector

variable {c c' : Connector}

/-- An attempt: the connector is in the loop, waits for `EPOLLOUT` and has called
`connect`. -/
def attempt (c : Connector) (socket : Socket) : Connector :=
  { activeOut { c with inHandlers := true } with
    socket := some { socket with connectIssued := true } }

/-- The outcomes of the functor of `connect`. -/
inductive ConnectFunctor (c : Connector) (answer : Answer Unit) : Connector → Prop
  | ignored (hstate : c.state ≠ .Closed) : ConnectFunctor c answer c
  | connecting (socket result) (hstate : c.state = .Closed) (hsocket : c.socket = some socket)
      (hstub : Stub.connect answer = .ok result) :
      ConnectFunctor c answer { c.attempt socket with state := .Connecting }
  /-- The exception for `EINPROGRESS` skips the assignment of the state. -/
  | inProgress (socket e) (hstate : c.state = .Closed) (hsocket : c.socket = some socket)
      (hstub : Stub.connect answer = .error (.socketException e))
      (hcode : getError e = .INPROGRESS) :
      ConnectFunctor c answer (c.attempt socket)
  | failed (socket e) (hstate : c.state = .Closed) (hsocket : c.socket = some socket)
      (hstub : Stub.connect answer = .error (.socketException e))
      (hcode : getError e ≠ .INPROGRESS) :
      ConnectFunctor c answer ((c.attempt socket).call (.onError (getError e)))

/-- The outcomes of the functor of `stopConnect`. -/
inductive StopFunctor (c : Connector) : Connector → Prop
  | cleaned (hstate : c.state = .Connecting) :
      StopFunctor c { c.stopTimer.disable c.epollEvent with
        inHandlers := false
        state := .Closed }
  | ignored (hstate : c.state ≠ .Connecting) : StopFunctor c c

/-- After these errors the connector tries again later. -/
def Retries (error : SocketError) : Prop := error = .TIMEDOUT ∨ error = .CONNREFUSED

/-- The outcomes of `handleOut`. -/
inductive HandleOut (c : Connector) (error : SocketError) (timerFd : Int) (sameLoop : Bool) :
    Connector → Prop
  | firstRetry (herror : Retries error) (htimer : c.retryTimer = none) :
      HandleOut c error timerFd sameLoop (c.setupTimer timerFd).reconnect
  | nextRetry (timer) (herror : Retries error) (htimer : c.retryTimer = some timer) :
      HandleOut c error timerFd sameLoop c.reconnect
  | inProgress (herror : error = .INPROGRESS) : HandleOut c error timerFd sameLoop c
  | succeeded (socket) (herror : error = .NOERROR) (hsocket : c.socket = some socket) :
      HandleOut c error timerFd sameLoop (c.succeed socket sameLoop)
  | failed (herror : ¬Retries error) (hsuccess : error ≠ .NOERROR)
      (hpending : error ≠ .INPROGRESS) :
      HandleOut c error timerFd sameLoop (c.call (.onError error))

/-- A new attempt of the retry timer. -/
def renewed (c : Connector) (oldSocket : Socket) (fd : Int) : Connector :=
  let c := activeOut { c with
    socket := some ⟨fd, false⟩
    epollEvent := ⟨c.nextPtr, fd, fun _ => false⟩
    nextPtr := c.nextPtr + 1 }
  let c := c.runInLoop (.connect true)
  { c with epoll := c.epoll.close oldSocket.fd }

/-- A step, with what the functor or handler that runs has done. -/
inductive Stepped (c : Connector) : Event → Connector → Prop
  | connect : Stepped c .connect (c.runInLoop (.connect false))
  | stopConnect : Stepped c .stopConnect (c.runInLoop .stopConnect)
  | connectFunctor (answer retry functors d)
      (hfunctors : c.functors = .connect retry :: functors)
      (hrun : ConnectFunctor { c with functors := functors } answer d) :
      Stepped c (.functor answer) { d with stopped := d.stopped && retry }
  | stopFunctor (answer functors d) (hfunctors : c.functors = .stopConnect :: functors)
      (hrun : StopFunctor { c with functors := functors } d) :
      Stepped c (.functor answer) { d with stopped := true }
  | remove (answer event functors) (hfunctors : c.functors = .remove event :: functors) :
      Stepped c (.functor answer) (disable { c with functors := functors } event)
  | poll (ready) (hbatch : c.batch = []) :
      Stepped c (.poll ready)
        { c with batch := ready.filterMap fun fd => (c.epoll.interest fd).map Prod.fst }
  | handleOut (error timerFd sameLoop batch socket c')
      (hbatch : c.batch = c.epollEvent.ptr :: batch) (hsocket : c.socket = some socket)
      (hhandle : HandleOut { c with batch := batch } error timerFd sameLoop c') :
      Stepped c (.handleOut error timerFd sameLoop) c'
  | timeOut (answer batch timer socket result)
      (hbatch : c.batch = timer.handlerEvent.ptr :: batch) (htimer : c.retryTimer = some timer)
      (hsocket : c.socket = some socket) (hstub : Stub.socket answer = .ok result) :
      Stepped c (.handleIn answer)
        (renewed { c with batch := batch } socket (result.getD (-1)))
  | other (ptr batch) (hbatch : c.batch = ptr :: batch) :
      Stepped c .other { c with batch := batch }

theorem connectFunctor_ok {answer : Answer Unit} (h : c.connectFunctor answer = .ok c') :
    ConnectFunctor c answer c' := by
  unfold connectFunctor at h
  by_cases hstate : c.state = .Closed
  · rw [if_pos hstate] at h
    cases hsocket : c.socket with
    | none => simp [activeOut, update, hsocket] at h
    | some socket =>
        cases hstub : Stub.connect answer with
        | ok result =>
            simp [activeOut, update, hsocket, hstub] at h
            subst h
            exact .connecting socket result hstate hsocket hstub
        | error e =>
            cases e with
            | resourceLimitException e => simp [activeOut, update, hsocket, hstub] at h
            | socketException e =>
                by_cases hcode : getError e = .INPROGRESS
                · simp [activeOut, update, hsocket, hstub, hcode] at h
                  subst h
                  exact .inProgress socket e hstate hsocket hstub hcode
                · simp [activeOut, update, hsocket, hstub, hcode] at h
                  subst h
                  exact .failed socket e hstate hsocket hstub hcode
  · rw [if_neg hstate] at h
    cases h
    exact .ignored hstate

theorem stopFunctor_stopped (c : Connector) : StopFunctor c c.stopFunctor := by
  unfold Connector.stopFunctor
  by_cases hstate : c.state = .Connecting
  · rw [if_pos hstate]
    exact .cleaned hstate
  · rw [if_neg hstate]
    exact .ignored hstate

theorem handleOut_ok {error : SocketError} {timerFd : Int} {sameLoop : Bool}
    (h : c.handleOut error timerFd sameLoop = .ok c') :
    ∃ socket, c.socket = some socket ∧ HandleOut c error timerFd sameLoop c' := by
  unfold Connector.handleOut at h
  cases hsocket : c.socket with
  | none =>
      rw [hsocket] at h
      cases h
  | some socket =>
      rw [hsocket] at h
      refine ⟨socket, rfl, ?_⟩
      have hretry : Retries error →
          (if c.retryTimer.isSome then Except.ok c.reconnect
            else .ok (c.setupTimer timerFd).reconnect) = (Except.ok c' : Except Halt Connector) →
          HandleOut c error timerFd sameLoop c' := by
        intro herror h
        cases htimer : c.retryTimer with
        | none =>
            simp [htimer] at h
            subst h
            exact .firstRetry herror htimer
        | some timer =>
            simp [htimer] at h
            subst h
            exact .nextRetry timer herror htimer
      cases error with
      | TIMEDOUT => exact hretry (.inl rfl) h
      | CONNREFUSED => exact hretry (.inr rfl) h
      | INPROGRESS =>
          cases h
          exact .inProgress rfl
      | NOERROR =>
          cases h
          exact .succeeded socket rfl hsocket
      | _ =>
          cases h
          exact .failed (by simp [Retries]) (by simp) (by simp)

theorem onTimeOut_ok {answer : Answer Int} (h : c.onTimeOut answer = .ok c') :
    ∃ socket result, c.socket = some socket ∧ Stub.socket answer = .ok result ∧
      c' = c.renewed socket (result.getD (-1)) := by
  unfold onTimeOut at h
  cases hsocket : c.socket with
  | none =>
      rw [hsocket] at h
      cases h
  | some socket =>
      rw [hsocket] at h
      cases hstub : Stub.socket answer with
      | error e =>
          rw [hstub] at h
          cases h
      | ok result =>
          rw [hstub] at h
          cases h
          exact ⟨socket, result, rfl, rfl, rfl⟩

/-- A step of the connector has one of the outcomes. -/
theorem step_ok {e : Event} (h : c.step e = .ok c') : Stepped c e c' := by
  cases e with
  | connect =>
      cases h
      exact .connect
  | stopConnect =>
      cases h
      exact .stopConnect
  | functor answer =>
      cases hfunctors : c.functors with
      | nil => simp [step, hfunctors] at h
      | cons functor functors =>
          simp only [step, hfunctors] at h
          cases functor with
          | connect retry =>
              obtain ⟨d, hrun, rfl⟩ := Except.exists_of_map_eq_ok h
              exact .connectFunctor answer retry functors d hfunctors (connectFunctor_ok hrun)
          | stopConnect =>
              cases h
              exact .stopFunctor answer functors _ hfunctors (stopFunctor_stopped _)
          | remove event =>
              cases h
              exact .remove answer event functors hfunctors
  | poll ready =>
      cases hbatch : c.batch with
      | nil =>
          simp only [step, hbatch] at h
          cases h
          exact .poll ready hbatch
      | cons ptr batch => simp [step, hbatch] at h
  | handleOut error timerFd sameLoop =>
      cases hbatch : c.batch with
      | nil => simp [step, hbatch] at h
      | cons ptr batch =>
          simp only [step, hbatch] at h
          by_cases hptr : ptr = c.epollEvent.ptr
          · rw [if_pos hptr] at h
            obtain ⟨socket, hsocket, hhandle⟩ := handleOut_ok h
            rw [hptr] at hbatch
            exact .handleOut error timerFd sameLoop batch socket c' hbatch hsocket hhandle
          · rw [if_neg hptr] at h
            split at h <;> cases h
  | handleIn answer =>
      cases hbatch : c.batch with
      | nil => simp [step, hbatch] at h
      | cons ptr batch =>
          simp only [step, hbatch] at h
          by_cases htimer : c.retryTimer.any (·.handlerEvent.ptr = ptr)
          · rw [if_pos htimer] at h
            obtain ⟨timer, hsome, hptr⟩ := (Option.any_eq_true _ _).mp htimer
            obtain ⟨socket, result, hsocket, hstub, rfl⟩ := onTimeOut_ok h
            rw [← of_decide_eq_true hptr] at hbatch
            exact .timeOut answer batch timer socket result hbatch hsome hsocket hstub
          · rw [if_neg htimer] at h
            split at h <;> cases h
  | other =>
      cases hbatch : c.batch with
      | nil => simp [step, hbatch] at h
      | cons ptr batch =>
          simp only [step, hbatch] at h
          split at h
          · cases h
            exact .other ptr batch hbatch
          · cases h

/-! ## What the calls do to the table -/

theorem update_events (event : EpollEvent Nat) :
    (c.update event).epoll.events =
      Function.update c.epoll.events event.watchingFd (some event.ptr) :=
  Epoll.updateEvent_events ..

theorem disable_events (event : EpollEvent Nat) :
    (c.disable event).epoll.events = Function.update c.epoll.events event.watchingFd none :=
  Epoll.removeEvent_events ..

/-- A removal only takes entries away. -/
theorem disable_entry {event : EpollEvent Nat} {fd : Int} {ptr : Nat}
    (h : (c.disable event).epoll.events fd = some ptr) :
    fd ≠ event.watchingFd ∧ c.epoll.events fd = some ptr := by
  rw [disable_events] at h
  exact Table.erase_eq_some h

theorem stopTimer_events : c.stopTimer.epoll.events = c.epoll.events := by
  unfold stopTimer
  cases c.retryTimer <;> rfl

end Connector

end Netpp
