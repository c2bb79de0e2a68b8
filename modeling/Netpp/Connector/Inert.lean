import Netpp.Connector.Cancel

/-!
# The connector after success

A connector that has succeeded is cleaned up: its socket has been moved out, and it
has left epoll and the loop. Functors of `connect` and `stopConnect` may still be in
the queue or come later. They go by the state, which success does not change: it is
`Connecting` or `Closed` as the system call `connect` has left it, and never
`Established`. In the first case a functor of `stopConnect` removes the descriptor
from epoll, which by now is that of the connection, and in the second case a functor
of `connect` uses the socket that is gone.

The connection updates and removes its own registration in the table that both
share, so its steps are steps of the model here.
-/

namespace Netpp

namespace Connector

inductive Shared where
  /-- A step of the connector and its loop. -/
  | connector (e : Event)
  /-- The connection activates or deactivates events, up to this mask. -/
  | update (mask : EventMask)
  /-- The connection disables its event. -/
  | disable

def sharedStep (c : Connector) : Shared → Except Halt Connector
  | .connector e => c.step e
  | .update mask =>
      match c.connection with
      | none => .error .disabled
      | some event =>
          let event := { event with watchingEvents := mask }
          .ok (update { c with connection := some event } event)
  | .disable =>
      match c.connection with
      | none => .error .disabled
      | some event => .ok (c.disable event)

/-! ## The property and the condition -/

/-- The state is `Established` when the connector says so. -/
def StateAgrees (c : Connector) : Prop :=
  c.state = .Established ↔ c.connectionEstablished = true

/-- The step runs a functor of `connect` or `stopConnect`. -/
def runsOwn (c : Connector) : Shared → Prop
  | .connector (.functor _) =>
      c.functors.head? = some .stopConnect ∨ ∃ retry, c.functors.head? = some (.connect retry)
  | _ => False

/-- A functor that runs after success does not fail, and it changes neither the handler
set nor the registration of the connection. -/
def FunctorInert (c : Connector) (e : Shared) : Prop :=
  c.connectionEstablished = true → c.runsOwn e → ∃ c', c.sharedStep e = .ok c' ∧
    c'.inHandlers = c.inHandlers ∧ ∀ event, c.connection = some event →
      c'.epoll.events event.watchingFd = c.epoll.events event.watchingFd ∧
      c'.epoll.interest event.watchingFd = c.epoll.interest event.watchingFd

/-- After success a functor of `connect` finds the state other than `Closed`, and one of
`stopConnect` finds it other than `Connecting`, or nothing to remove. -/
def Unaffected (c : Connector) : Shared → Prop
  | .connector (.functor _) => c.connectionEstablished = true →
      ((∃ retry, c.functors.head? = some (.connect retry)) → c.state ≠ .Closed) ∧
      (c.functors.head? = some .stopConnect → c.state = .Connecting →
        c.connection = none ∨ c.epoll.events c.epollEvent.watchingFd = none)
  | _ => True

/-- The connector hands its socket over. -/
def Succeeds : Shared → Prop
  | .connector (.handleOut error _ _) => error = .NOERROR
  | _ => False

variable {c c' : Connector} {e : Shared}

/-! ## The invariant -/

/-- A connector has its socket, whose descriptor its event watches, or it has succeeded
and is cleaned up. -/
structure HandedOver (c : Connector) : Prop where
  state : c.state ≠ .Established
  socket : ∀ socket, c.socket = some socket → socket.fd = c.epollEvent.watchingFd ∧
    c.connectionEstablished = false ∧ c.connection = none
  cleaned : c.connectionEstablished = true →
    c.socket = none ∧ c.retryTimer = none ∧ c.inHandlers = false
  connection : ∀ event, c.connection = some event → event.watchingFd = c.epollEvent.watchingFd

theorem makeConnector_handedOver (ctlAnswers : Nat → Answer Unit) (ptr : Nat) (fd : Int) :
    (makeConnector ctlAnswers ptr fd).HandedOver where
  state := by simp [makeConnector]
  socket socket h := by
    cases h
    exact ⟨rfl, rfl, rfl⟩
  cleaned h := absurd h Bool.false_ne_true
  connection event h := by cases h

/-- A connector that has its socket after the step as well. -/
theorem HandedOver.congr (h : c.HandedOver) {socket socket' : Socket}
    (hsocket : c.socket = some socket) (hsocket' : c'.socket = some socket')
    (hstate : c'.state ≠ .Established) (hfd : socket'.fd = c'.epollEvent.watchingFd)
    (hestablished : c'.connectionEstablished = c.connectionEstablished)
    (hconnection : c'.connection = c.connection) : c'.HandedOver := by
  obtain ⟨-, hunestablished, hnone⟩ := h.socket socket hsocket
  rw [hunestablished] at hestablished
  rw [hnone] at hconnection
  refine ⟨hstate, ?_, ?_, ?_⟩
  · intro socket'' hsome
    rw [hsocket'] at hsome
    cases hsome
    exact ⟨hfd, hestablished, hconnection⟩
  · intro htrue
    rw [hestablished] at htrue
    cases htrue
  · intro event hsome
    rw [hconnection] at hsome
    cases hsome

theorem HandedOver.connectFunctor (h : c.HandedOver) {answer : Answer Unit}
    (hrun : ConnectFunctor c answer c') : c'.HandedOver := by
  cases hrun with
  | ignored hstate => exact h
  | connecting socket result hstate hsocket hstub =>
      have hfd := (h.socket socket hsocket).1
      apply h.congr hsocket
      · rfl
      · exact (by decide : TcpState.Connecting ≠ .Established)
      · exact hfd
      · rfl
      · rfl
  | inProgress socket e hstate hsocket hstub hcode =>
      have hfd := (h.socket socket hsocket).1
      apply h.congr hsocket
      · rfl
      · exact h.state
      · exact hfd
      · rfl
      · rfl
  | failed socket e hstate hsocket hstub hcode =>
      have hfd := (h.socket socket hsocket).1
      apply h.congr hsocket
      · rfl
      · exact h.state
      · exact hfd
      · rfl
      · rfl

/-- What else stopping the timer leaves as it was. -/
theorem stopTimer_connection (c : Connector) : c.stopTimer.connection = c.connection ∧
    c.stopTimer.inHandlers = c.inHandlers := by
  cases htimer : c.retryTimer with
  | none => simp [stopTimer, htimer]
  | some timer => simp [stopTimer, runInLoop, htimer]

theorem HandedOver.stopFunctor (h : c.HandedOver) (hrun : StopFunctor c c') : c'.HandedOver := by
  cases hrun with
  | ignored hstate => exact h
  | cleaned hstate =>
      obtain ⟨hevent, hsocket, -, -, -, hestablished⟩ := stopTimer_kept c
      obtain ⟨hconnection, -⟩ := stopTimer_connection c
      refine ⟨?_, ?_, ?_, ?_⟩
      · exact (by decide : TcpState.Closed ≠ .Established)
      · simpa only [Connector.disable, hsocket, hevent, hestablished, hconnection] using h.socket
      · intro htrue
        simp only [Connector.disable, hestablished] at htrue
        refine ⟨?_, stopTimer_retryTimer c, rfl⟩
        simpa only [Connector.disable, hsocket] using (h.cleaned htrue).1
      · simpa only [Connector.disable, hevent, hconnection] using h.connection

theorem HandedOver.handleOut (h : c.HandedOver) {error : SocketError} {timerFd : Int}
    {sameLoop : Bool} {socket : Socket} (hsocket : c.socket = some socket)
    (hrun : HandleOut c error timerFd sameLoop c') : c'.HandedOver := by
  have hfd := (h.socket socket hsocket).1
  have hnone := (h.socket socket hsocket).2.2
  cases hrun with
  | firstRetry herror htimer => exact h.congr hsocket hsocket h.state hfd rfl rfl
  | nextRetry timer herror htimer => exact h.congr hsocket hsocket h.state hfd rfl rfl
  | inProgress herror => exact h
  | failed herror hsuccess hpending => exact h.congr hsocket hsocket h.state hfd rfl rfl
  | succeeded socket' herror hsocket' =>
      obtain ⟨hevent, -, hstate, -, -, -⟩ := stopTimer_kept c
      obtain ⟨hconnection, -⟩ := stopTimer_connection c
      rw [hsocket] at hsocket'
      cases hsocket'
      refine ⟨?_, ?_, ?_, ?_⟩
      · cases sameLoop <;>
          simpa [succeed, registerConnection, Connector.update, Connector.disable, call, hstate]
            using h.state
      · intro socket'' hsome
        cases sameLoop <;> cases hsome
      · intro _
        have htimer := stopTimer_retryTimer c
        cases sameLoop <;>
          simp [succeed, registerConnection, Connector.update, Connector.disable, call, htimer]
      · intro event hsome
        cases sameLoop with
        | false =>
            have hevent' : c.stopTimer.connection = some event := hsome
            rw [hconnection, hnone] at hevent'
            cases hevent'
        | true =>
            cases hsome
            change socket.fd = c.stopTimer.epollEvent.watchingFd
            rw [hevent, hfd]

/-- Step lemma: every step keeps the invariant. -/
theorem HandedOver.step (h : c.HandedOver) (hok : c.sharedStep e = .ok c') : c'.HandedOver := by
  cases e with
  | update mask =>
      cases hconnection : c.connection with
      | none => simp [sharedStep, hconnection] at hok
      | some event =>
          simp only [sharedStep, hconnection] at hok
          cases hok
          refine ⟨h.state, ?_, h.cleaned, ?_⟩
          · intro socket hsocket
            have hnone := (h.socket socket hsocket).2.2
            rw [hconnection] at hnone
            cases hnone
          · intro event' hsome
            cases hsome
            exact h.connection event hconnection
  | disable =>
      cases hconnection : c.connection with
      | none => simp [sharedStep, hconnection] at hok
      | some event =>
          simp only [sharedStep, hconnection] at hok
          cases hok
          exact ⟨h.state, h.socket, h.cleaned, h.connection⟩
  | connector e =>
      cases step_ok hok with
      | connectFunctor answer retry functors d hfunctors hrun =>
          have hd := HandedOver.connectFunctor (c := { c with functors := functors })
            ⟨h.state, h.socket, h.cleaned, h.connection⟩ hrun
          exact ⟨hd.state, hd.socket, hd.cleaned, hd.connection⟩
      | stopFunctor answer functors d hfunctors hrun =>
          have hd := HandedOver.stopFunctor (c := { c with functors := functors })
            ⟨h.state, h.socket, h.cleaned, h.connection⟩ hrun
          exact ⟨hd.state, hd.socket, hd.cleaned, hd.connection⟩
      | handleOut error timerFd sameLoop batch socket d hbatch hsocket hhandle =>
          exact HandedOver.handleOut (c := { c with batch := batch })
            ⟨h.state, h.socket, h.cleaned, h.connection⟩ hsocket hhandle
      | timeOut answer batch timer socket result hbatch htimer hsocket hstub =>
          exact h.congr hsocket rfl h.state rfl rfl rfl
      | _ => exact ⟨h.state, h.socket, h.cleaned, h.connection⟩

/-! ## Functors after success -/

/-- A functor of `connect` is inert unless the state is `Closed`. -/
theorem HandedOver.connect_inert_iff (h : c.HandedOver) {answer : Answer Unit} {retry : Bool}
    {functors : List Functor} (hfunctors : c.functors = .connect retry :: functors)
    (hestablished : c.connectionEstablished = true) :
    c.FunctorInert (.connector (.functor answer)) ↔ c.state ≠ .Closed := by
  have hown : c.runsOwn (.connector (.functor answer)) := .inr ⟨retry, by rw [hfunctors]; rfl⟩
  have hsocket := (h.cleaned hestablished).1
  constructor
  · intro hinert hclosed
    obtain ⟨c', hok, -⟩ := hinert hestablished hown
    simp [sharedStep, Connector.step, hfunctors, runFunctor, Connector.connectFunctor, hclosed,
      activeOut, Connector.update, hsocket, Except.map] at hok
  · intro hstate _ _
    refine ⟨{ c with functors := functors, stopped := c.stopped && retry }, ?_, rfl,
      fun _ _ => ⟨rfl, rfl⟩⟩
    simp [sharedStep, Connector.step, hfunctors, runFunctor, Connector.connectFunctor, hstate,
      Except.map]

/-- The functor of `stopConnect` that cleans up once more. -/
def cleanedAgain (c : Connector) (functors : List Functor) : Connector :=
  { disable { c with functors := functors } c.epollEvent with
    inHandlers := false
    state := .Closed
    stopped := true }

theorem HandedOver.stop_step (h : c.HandedOver) {functors : List Functor} (answer : Answer Unit)
    (hfunctors : c.functors = .stopConnect :: functors)
    (hestablished : c.connectionEstablished = true) (hstate : c.state = .Connecting) :
    c.sharedStep (.connector (.functor answer)) = .ok (c.cleanedAgain functors) := by
  have htimer := (h.cleaned hestablished).2.1
  simp [sharedStep, Connector.step, hfunctors, runFunctor, Connector.stopFunctor, hstate,
    stopTimer, htimer, cleanedAgain]

/-- A functor of `stopConnect` is inert unless it removes the descriptor. -/
theorem HandedOver.stop_inert_iff (h : c.HandedOver) {answer : Answer Unit}
    {functors : List Functor} (hfunctors : c.functors = .stopConnect :: functors)
    (hestablished : c.connectionEstablished = true) :
    c.FunctorInert (.connector (.functor answer)) ↔ (c.state = .Connecting →
      c.connection = none ∨ c.epoll.events c.epollEvent.watchingFd = none) := by
  have hown : c.runsOwn (.connector (.functor answer)) := .inl (by rw [hfunctors]; rfl)
  constructor
  · intro hinert hstate
    obtain ⟨c', hok, -, hkept⟩ := hinert hestablished hown
    rw [h.stop_step answer hfunctors hestablished hstate] at hok
    cases hok
    cases hconnection : c.connection with
    | none => exact .inl rfl
    | some event =>
        have hfd := h.connection event hconnection
        obtain ⟨hevents, -⟩ := hkept event hconnection
        rw [hfd] at hevents
        refine .inr ?_
        rw [← hevents]
        simp [cleanedAgain, Connector.disable, Epoll.removeEvent_events]
  · intro hnothing _ _
    by_cases hstate : c.state = .Connecting
    · refine ⟨_, h.stop_step answer hfunctors hestablished hstate, ?_, ?_⟩
      · exact (h.cleaned hestablished).2.2.symm
      · intro event hconnection
        rcases hnothing hstate with hnone | hempty
        · rw [hconnection] at hnone
          cases hnone
        · have hsame : (c.cleanedAgain functors).epoll = c.epoll := by
            simp [cleanedAgain, Connector.disable, Epoll.removeEvent, hempty]
          rw [hsame]
          exact ⟨rfl, rfl⟩
    · refine ⟨{ c with functors := functors, stopped := true }, ?_, rfl, fun _ _ => ⟨rfl, rfl⟩⟩
      simp [sharedStep, Connector.step, hfunctors, runFunctor, Connector.stopFunctor, hstate]

theorem HandedOver.functorInert_iff (h : c.HandedOver) (e : Shared) :
    c.FunctorInert e ↔ c.Unaffected e := by
  by_cases hestablished : c.connectionEstablished = true
  · cases e with
    | connector e =>
        cases e with
        | functor answer =>
            cases hfunctors : c.functors with
            | nil => simp [FunctorInert, runsOwn, Unaffected, hfunctors]
            | cons functor functors =>
                cases functor with
                | connect retry =>
                    rw [h.connect_inert_iff hfunctors hestablished]
                    simp [Unaffected, hfunctors, hestablished]
                | stopConnect =>
                    rw [h.stop_inert_iff hfunctors hestablished]
                    simp [Unaffected, hfunctors, hestablished]
                | remove event => simp [FunctorInert, runsOwn, Unaffected, hfunctors]
        | _ => exact ⟨fun _ => trivial, fun _ _ hown => hown.elim⟩
    | _ => exact ⟨fun _ => trivial, fun _ _ hown => hown.elim⟩
  · constructor
    · intro _
      cases e with
      | connector e =>
          cases e with
          | functor answer => exact fun htrue => absurd htrue hestablished
          | _ => trivial
      | _ => trivial
    · exact fun _ htrue => absurd htrue hestablished

/-! ## Every run -/

theorem HandleOut.succeeds_iff {d : Connector} {error : SocketError} {timerFd : Int}
    {sameLoop : Bool} (hrun : HandleOut d error timerFd sameLoop c')
    (hunestablished : d.connectionEstablished = false) :
    error = .NOERROR ↔ c'.connectionEstablished = true := by
  cases hrun with
  | firstRetry herror htimer =>
      have hstill : (d.setupTimer timerFd).reconnect.connectionEstablished = false := hunestablished
      rw [hstill]
      rcases herror with rfl | rfl <;> simp
  | nextRetry timer herror htimer =>
      have hstill : d.reconnect.connectionEstablished = false := hunestablished
      rw [hstill]
      rcases herror with rfl | rfl <;> simp
  | inProgress herror => simp [herror, hunestablished]
  | failed herror hsuccess hpending => simp [hsuccess, call, hunestablished]
  | succeeded socket herror hsocket =>
      cases sameLoop <;> simp [herror, succeed, registerConnection, Connector.update, call]

/-- The step that hands the socket over is the one that establishes the connection. -/
theorem succeeds_iff (hunestablished : c.connectionEstablished = false)
    (hok : c.sharedStep e = .ok c') : Succeeds e ↔ c'.connectionEstablished = true := by
  have hother (hsame : c'.connectionEstablished = c.connectionEstablished) (hnot : ¬Succeeds e) :
      Succeeds e ↔ c'.connectionEstablished = true := by
    simp [hnot, hsame, hunestablished]
  cases e with
  | update mask =>
      cases hconnection : c.connection with
      | none => simp [sharedStep, hconnection] at hok
      | some event =>
          simp only [sharedStep, hconnection] at hok
          cases hok
          exact hother rfl id
  | disable =>
      cases hconnection : c.connection with
      | none => simp [sharedStep, hconnection] at hok
      | some event =>
          simp only [sharedStep, hconnection] at hok
          cases hok
          exact hother rfl id
  | connector e =>
      cases step_ok hok with
      | connectFunctor answer retry functors d hfunctors hrun =>
          cases hrun <;> exact hother rfl id
      | stopFunctor answer functors d hfunctors hrun =>
          cases hrun with
          | cleaned hstate =>
              exact hother (stopTimer_kept { c with functors := functors }).2.2.2.2.2 id
          | ignored hstate => exact hother rfl id
      | handleOut error timerFd sameLoop batch socket d hbatch hsocket hhandle =>
          exact hhandle.succeeds_iff hunestablished
      | _ => exact hother rfl id

/-- A run in which the connector hands its socket over never keeps the promise, as the state
does not become `Established`. What the functors do after success is right if and only if
they run unaffected by the state. -/
theorem inert_iff (ctlAnswers : Nat → Answer Unit) (ptr : Nat) (fd : Int) (events : List Shared) :
    (Run.Always sharedStep (fun c e => c.FunctorInert e ∧ Run.After sharedStep StateAgrees c e)
        (makeConnector ctlAnswers ptr fd) events ↔
      Run.Always sharedStep (Run.Each sharedStep fun _ e _ => ¬Succeeds e)
        (makeConnector ctlAnswers ptr fd) events) ∧
    (Run.Always sharedStep FunctorInert (makeConnector ctlAnswers ptr fd) events ↔
      Run.Always sharedStep Unaffected (makeConnector ctlAnswers ptr fd) events) := by
  constructor
  · refine Run.always_iff_always
      (J := fun c => c.HandedOver ∧ c.connectionEstablished = false) ?_ ?_
      ⟨makeConnector_handedOver ctlAnswers ptr fd, rfl⟩ events
    · rintro c e c' ⟨h, hunestablished⟩ hfails hok
      refine ⟨h.step hok, eq_false_of_ne_true fun hestablished => ?_⟩
      exact hfails c' hok ((succeeds_iff hunestablished hok).mpr hestablished)
    · rintro c e ⟨h, hunestablished⟩
      constructor
      · rintro ⟨-, hagrees⟩ c' hok hsucceeds
        have hestablished := (succeeds_iff hunestablished hok).mp hsucceeds
        exact (h.step hok).state ((hagrees c' hok).mpr hestablished)
      · intro hfails
        refine ⟨fun htrue => ?_, fun c' hok => ?_⟩
        · rw [hunestablished] at htrue
          cases htrue
        · constructor
          · exact fun hstate => absurd hstate (h.step hok).state
          · exact fun htrue => absurd ((succeeds_iff hunestablished hok).mpr htrue) (hfails c' hok)
  · refine Run.always_iff_always (J := HandedOver) ?_ ?_
      (makeConnector_handedOver ctlAnswers ptr fd) events
    · exact fun c e c' h _ hok => h.step hok
    · exact fun c e h => h.functorInert_iff e

/-- The system call `connect` answers 0, the connection lives in the loop of the connector,
and the user calls `stopConnect` after success. -/
theorem inert_fails : ¬Run.Always sharedStep (fun c e => c.FunctorInert e ∧
    Run.After sharedStep StateAgrees c e) (makeConnector (fun _ => .done ()) 0 5)
      [.connector .connect, .connector (.functor (.done ())), .connector (.poll [5]),
        .connector (.handleOut .NOERROR 6 true), .connector .stopConnect,
        .connector (.functor (.done ()))] := by
  intro h
  have hinert := (((((h.2 _ rfl).2 _ rfl).2 _ rfl).2 _ rfl).2 _ rfl).1.1 rfl (.inl rfl)
  obtain ⟨c', hok, -, hkept⟩ := hinert
  cases hok
  obtain ⟨hevents, -⟩ := hkept _ rfl
  cases hevents

end Connector

end Netpp
