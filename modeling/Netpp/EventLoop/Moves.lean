import Netpp.Connector.Cancel
import Netpp.EventLoop.Descriptors

/-!
# What a connector does to its descriptors

A connector holds the descriptor of its socket and that of its retry timer. A step
of it is related here to the entries of the table for them: as long as it neither
destroys the timer nor closes a socket that is registered, it changes no other
entry and leaves none for a descriptor that it closes. The other steps leave one.
-/

namespace Netpp

namespace Connector

variable {c c' : Connector} {e : Event}

/-! ## What a step of a connector holds and watches -/

theorem reconnect_descriptors : c.reconnect.descriptors = c.descriptors := by
  simp only [descriptors, reconnect, disable, Option.map_map]
  congr 3
  funext timer
  simp only [Function.comp]
  split <;> rfl

theorem mem_descriptors {fd : Int} :
    fd ∈ c.descriptors ↔ fd = c.epollEvent.watchingFd ∨
      ∃ timer, c.retryTimer = some timer ∧ timer.handlerEvent.watchingFd = fd := by
  simp [descriptors]

/-- The invariant of a connector: the table has its event or none for the socket,
and has the retry timer. No retry timer has been destroyed. -/
structure Sound (c : Connector) (events : Int → Option Nat) : Prop where
  socket : ∀ socket, c.socket = some socket → socket.fd = c.epollEvent.watchingFd ∧
    (events socket.fd = none ∨ events socket.fd = some c.epollEvent.ptr)
  timer : ∀ timer, c.retryTimer = some timer →
    events timer.handlerEvent.watchingFd = some timer.handlerEvent.ptr ∧
      timer.handlerEvent.watchingFd ≠ c.epollEvent.watchingFd
  functors : ∀ functor ∈ c.functors, EventLoop.removal functor = none

/-- The step neither destroys the retry timer nor closes a socket that is
registered. -/
def Spares (c : Connector) : Event → Prop
  | .functor _ => c.functors.head? = some .stopConnect → c.state = .Connecting →
      c.retryTimer = none
  | .handleOut error _ _ => error = .NOERROR → c.retryTimer = none
  | .handleIn _ => ¬c.registered
  | _ => True

/-- What a step does to the descriptors of the connector and to their entries. -/
structure Moves (c : Connector) (e : Event) (c' : Connector) : Prop where
  frame : ∀ fd ∉ c.descriptors, fd ∉ c'.descriptors →
    c'.epoll.events fd = c.epoll.events fd
  closed : ∀ fd ∈ c.descriptors, fd ∉ c'.descriptors → c'.epoll.events fd = none
  fresh : ∀ fd ∈ c'.descriptors, fd ∈ c.descriptors ∨ fd ∈ e.newFds
  sound : c'.Sound c'.epoll.events

theorem Sound.dequeued {events : Int → Option Nat} (h : c.Sound events) {functor : Functor}
    {functors : List Functor} (hfunctors : c.functors = functor :: functors) :
    ∀ functor ∈ functors, EventLoop.removal functor = none := by
  intro f hf
  apply h.functors f
  rw [hfunctors]
  exact List.mem_cons_of_mem _ hf

theorem Sound.enqueued {events : Int → Option Nat} (h : c.Sound events) {functor : Functor}
    (hfunctor : EventLoop.removal functor = none) :
    ∀ f ∈ c.functors ++ [functor], EventLoop.removal f = none := by
  intro f hf
  rcases List.mem_append.mp hf with hold | hnew
  · exact h.functors f hold
  · rw [List.mem_singleton.mp hnew]
    exact hfunctor

/-- The step of a connector that keeps its descriptors and makes `entry` the entry
for the socket. -/
theorem Moves.of_entry (h : c.Sound c.epoll.events) (entry : Option Nat)
    (hevents : c'.epoll.events = Function.update c.epoll.events c.epollEvent.watchingFd entry)
    (hfd : c'.epollEvent.watchingFd = c.epollEvent.watchingFd)
    (htimer : c'.retryTimer.map (·.handlerEvent) = c.retryTimer.map (·.handlerEvent))
    (hsocket : ∀ socket, c'.socket = some socket → socket.fd = c.epollEvent.watchingFd ∧
      (entry = none ∨ entry = some c'.epollEvent.ptr))
    (hfunctors : ∀ functor ∈ c'.functors, EventLoop.removal functor = none) :
    Moves c e c' := by
  have hsame : c'.descriptors = c.descriptors := by
    have hmap := congrArg (Option.map (·.watchingFd)) htimer
    simp only [Option.map_map] at hmap
    unfold descriptors
    rw [hfd]
    exact congrArg (fun o => _ :: Option.toList o) hmap
  constructor
  · intro fd hfd _
    rw [hevents, Function.update_of_ne (fun heq => hfd (mem_descriptors.mpr (.inl heq)))]
  · intro fd hfd hnot
    rw [hsame] at hnot
    exact absurd hfd hnot
  · intro fd hfd
    rw [hsame] at hfd
    exact .inl hfd
  · constructor
    · intro socket hsome
      obtain ⟨hsocketFd, hentry⟩ := hsocket socket hsome
      rw [hevents, hsocketFd, Function.update_self]
      exact ⟨hfd.symm, hentry⟩
    · intro timer hsome
      rw [hsome] at htimer
      obtain ⟨old, hold, heq⟩ := Option.map_eq_some_iff.mp htimer.symm
      obtain ⟨hown, hne⟩ := h.timer old hold
      rw [heq] at hown hne
      rw [hevents, hfd, Function.update_of_ne hne]
      exact ⟨hown, hne⟩
    · exact hfunctors

/-- The step of a connector that changes neither its descriptors nor the table. -/
theorem Moves.of_same (h : c.Sound c.epoll.events) (hevents : c'.epoll = c.epoll)
    (hevent : c'.epollEvent = c.epollEvent) (htimer : c'.retryTimer = c.retryTimer)
    (hsocket : c'.socket = c.socket)
    (hfunctors : ∀ functor ∈ c'.functors, EventLoop.removal functor = none) :
    Moves c e c' := by
  apply Moves.of_entry h (c.epoll.events c.epollEvent.watchingFd)
  · rw [hevents, Function.update_eq_self]
  · rw [hevent]
  · rw [htimer]
  · intro socket hsome
    rw [hsocket] at hsome
    obtain ⟨hfd, hentry⟩ := h.socket socket hsome
    rw [hfd] at hentry
    rw [hevent]
    exact ⟨hfd, hentry⟩
  · exact hfunctors

theorem stopTimer_of_none (htimer : c.retryTimer = none) : c.stopTimer = c := by
  simp [stopTimer, htimer]

/-- The functor of `connect` at the head of the queue. -/
theorem ConnectFunctor.moves (h : c.Sound c.epoll.events) {answer : Answer Unit} {retry : Bool}
    {functors : List Functor} (hfunctors : c.functors = .connect retry :: functors)
    (hrun : ConnectFunctor { c with functors := functors } answer c') :
    Moves c e { c' with stopped := c'.stopped && retry } := by
  have hattempt : ∀ (socket : Socket), c.socket = some socket → ∀ (d : Connector),
      d.epoll.events = Function.update c.epoll.events c.epollEvent.watchingFd
        (some c.epollEvent.ptr) →
      d.epollEvent = c.epollEvent.active [.OUT] → d.retryTimer = c.retryTimer →
      d.socket = some { socket with connectIssued := true } → d.functors = functors →
      Moves c e d := by
    intro socket hsocket d hevents hevent htimer hsome hrest
    apply Moves.of_entry h (some c.epollEvent.ptr) hevents
    · rw [hevent]
      rfl
    · rw [htimer]
    · intro socket' hsocket'
      rw [hsome] at hsocket'
      cases hsocket'
      rw [hevent]
      exact ⟨(h.socket socket hsocket).1, .inr rfl⟩
    · rw [hrest]
      exact h.dequeued hfunctors
  cases hrun with
  | ignored hstate => exact .of_same h rfl rfl rfl rfl (h.dequeued hfunctors)
  | connecting socket result hstate hsocket hstub =>
      exact hattempt socket hsocket _ (update_events _) rfl rfl rfl rfl
  | inProgress socket err hstate hsocket hstub hcode =>
      exact hattempt socket hsocket _ (update_events _) rfl rfl rfl rfl
  | failed socket err hstate hsocket hstub hcode =>
      exact hattempt socket hsocket _ (update_events _) rfl rfl rfl rfl

/-- The functor of `stopConnect` at the head of the queue, without a retry timer. -/
theorem StopFunctor.moves (h : c.Sound c.epoll.events) {functors : List Functor}
    (hfunctors : c.functors = .stopConnect :: functors)
    (htimer : c.state = .Connecting → c.retryTimer = none)
    (hrun : StopFunctor { c with functors := functors } c') :
    Moves c e { c' with stopped := true } := by
  cases hrun with
  | ignored hstate => exact .of_same h rfl rfl rfl rfl (h.dequeued hfunctors)
  | cleaned hstate =>
      have hnone : stopTimer { c with functors := functors } = { c with functors := functors } :=
        stopTimer_of_none (htimer hstate)
      rw [hnone]
      apply Moves.of_entry h none
      · exact disable_events _
      · rfl
      · rfl
      · intro socket hsocket
        exact ⟨(h.socket socket hsocket).1, .inl rfl⟩
      · exact h.dequeued hfunctors

/-- The first failed attempt creates the retry timer. -/
theorem setupTimer_moves (h : c.Sound c.epoll.events) {timerFd : Int}
    (hfresh : timerFd ∉ c.descriptors) (htimer : c.retryTimer = none) (hnew : timerFd ∈ e.newFds) :
    Moves c e (c.setupTimer timerFd).reconnect := by
  have hne : timerFd ≠ c.epollEvent.watchingFd := fun heq =>
    hfresh (mem_descriptors.mpr (.inl heq))
  have hevents : (c.setupTimer timerFd).reconnect.epoll.events =
      Function.update (Function.update c.epoll.events timerFd (some c.nextPtr))
        c.epollEvent.watchingFd none := by
    refine (disable_events _).trans ?_
    congr 1
    exact update_events _
  have hdescriptors :
      (c.setupTimer timerFd).reconnect.descriptors = [c.epollEvent.watchingFd, timerFd] := by
    rw [reconnect_descriptors]
    rfl
  constructor
  · intro fd _ hnot
    rw [hdescriptors] at hnot
    simp only [List.mem_cons, List.not_mem_nil, or_false, not_or] at hnot
    rw [hevents, Function.update_of_ne hnot.1, Function.update_of_ne hnot.2]
  · intro fd hold hnot
    rcases mem_descriptors.mp hold with heq | ⟨timer, hsome, -⟩
    · rw [hdescriptors, heq] at hnot
      exact absurd List.mem_cons_self hnot
    · rw [htimer] at hsome
      cases hsome
  · intro fd hfd
    rw [hdescriptors] at hfd
    rcases List.mem_cons.mp hfd with hold | hlast
    · exact .inl (mem_descriptors.mpr (.inl hold))
    · rw [List.mem_singleton.mp hlast]
      exact .inr hnew
  · constructor
    · intro socket hsocket
      have hfd := (h.socket socket hsocket).1
      rw [hevents, hfd, Function.update_self]
      exact ⟨rfl, .inl rfl⟩
    · intro timer hsome
      have hevent : timer.handlerEvent.watchingFd = timerFd ∧
          timer.handlerEvent.ptr = c.nextPtr := by
        cases hsome
        constructor <;> rfl
      rw [hevents, hevent.1, hevent.2, Function.update_of_ne hne, Function.update_self]
      exact ⟨rfl, hne⟩
    · exact h.functors

/-- A success without a retry timer. -/
theorem succeed_moves (h : c.Sound c.epoll.events) {socket : Socket} (sameLoop : Bool)
    (hsocket : c.socket = some socket) (htimer : c.retryTimer = none) :
    Moves c e (c.succeed socket sameLoop) := by
  have hmoved : (c.succeed socket sameLoop).socket = none := by cases sameLoop <;> rfl
  apply Moves.of_entry h (if sameLoop then some c.nextPtr else none)
  · unfold succeed
    rw [stopTimer_of_none htimer]
    cases sameLoop with
    | false => exact disable_events _
    | true =>
        refine (update_events _).trans ?_
        change Function.update (c.disable c.epollEvent).epoll.events socket.fd (some c.nextPtr) = _
        rw [disable_events, (h.socket socket hsocket).1, Function.update_idem]
        rfl
  · unfold succeed
    rw [stopTimer_of_none htimer]
    cases sameLoop <;> rfl
  · unfold succeed
    rw [stopTimer_of_none htimer]
    cases sameLoop <;> rfl
  · intro socket' hsome
    rw [hmoved] at hsome
    cases hsome
  · unfold succeed
    rw [stopTimer_of_none htimer]
    cases sameLoop <;> exact h.functors

/-- An event with `EPOLLOUT`, when a success finds no retry timer. -/
theorem HandleOut.moves (h : c.Sound c.epoll.events) {batch : List Nat} {error : SocketError}
    {timerFd : Int} {sameLoop : Bool} (htimer : error = .NOERROR → c.retryTimer = none)
    (hfresh : timerFd ∉ c.descriptors)
    (hhandle : HandleOut { c with batch := batch } error timerFd sameLoop c') :
    Moves c (.handleOut error timerFd sameLoop) c' := by
  have hbatch : Sound { c with batch := batch } c.epoll.events :=
    ⟨h.socket, h.timer, h.functors⟩
  have hsame : ∀ d, Moves { c with batch := batch } (.handleOut error timerFd sameLoop) d →
      Moves c (.handleOut error timerFd sameLoop) d :=
    fun d hd => ⟨hd.frame, hd.closed, hd.fresh, hd.sound⟩
  apply hsame
  cases hhandle with
  | firstRetry herror hnone =>
      exact setupTimer_moves hbatch hfresh hnone List.mem_cons_self
  | nextRetry timer herror hsome =>
      apply Moves.of_entry hbatch none
      · exact disable_events _
      · rfl
      · simp only [reconnect, Option.map_map]
        congr 1
        funext t
        simp only [Function.comp]
        split <;> rfl
      · intro socket hsocket
        exact ⟨(h.socket socket hsocket).1, .inl rfl⟩
      · exact h.functors
  | inProgress herror => exact .of_same hbatch rfl rfl rfl rfl h.functors
  | succeeded socket herror hsocket =>
      exact succeed_moves hbatch sameLoop hsocket (htimer herror)
  | failed herror hsuccess hpending => exact .of_same hbatch rfl rfl rfl rfl h.functors

/-- The retry timer expires when no event is registered for the old socket. -/
theorem renewed_moves (h : c.Sound c.epoll.events) {socket : Socket} {fd : Int}
    (hsocket : c.socket = some socket) (hunregistered : ¬c.registered)
    (hfresh : fd ∉ c.descriptors) (hnew : fd ∈ e.newFds) : Moves c e (c.renewed socket fd) := by
  have hevents : (c.renewed socket fd).epoll.events =
      Function.update c.epoll.events fd (some c.nextPtr) := update_events _
  obtain ⟨hfd, hentry⟩ := h.socket socket hsocket
  rw [hfd] at hentry
  have hold : c.epoll.events c.epollEvent.watchingFd = none := hentry.resolve_right hunregistered
  constructor
  · intro fd' _ hnot
    have hne : fd' ≠ fd := fun heq => hnot (mem_descriptors.mpr (.inl heq))
    rw [hevents, Function.update_of_ne hne]
  · intro fd' hmem hnot
    have hne : fd' ≠ fd := fun heq => hnot (mem_descriptors.mpr (.inl heq))
    rw [hevents, Function.update_of_ne hne]
    rcases mem_descriptors.mp hmem with heq | htimer
    · rw [heq]
      exact hold
    · have hkept : fd' ∈ (c.renewed socket fd).descriptors := mem_descriptors.mpr (.inr htimer)
      exact absurd hkept hnot
  · intro fd' hmem
    rcases mem_descriptors.mp hmem with heq | htimer
    · rw [heq]
      exact .inr hnew
    · exact .inl (mem_descriptors.mpr (.inr htimer))
  · constructor
    · intro socket' hsome
      cases hsome
      rw [hevents]
      exact ⟨rfl, .inr (Function.update_self ..)⟩
    · intro timer hsome
      have hne : timer.handlerEvent.watchingFd ≠ fd := fun heq =>
        hfresh (mem_descriptors.mpr (.inr ⟨timer, hsome, heq⟩))
      rw [hevents, Function.update_of_ne hne]
      exact ⟨(h.timer timer hsome).1, hne⟩
    · exact h.enqueued rfl

/-- The number of a new socket. -/
theorem newFds_of_socket {answer : Answer Int} {result : Option Int}
    (hstub : Stub.socket answer = .ok result) :
    result.getD (-1) ∈ (Event.handleIn answer).newFds := by
  cases answer with
  | done fd =>
      cases hstub
      exact List.mem_cons_self
  | failed code =>
      have hnone : result = none := by cases code <;> cases hstub <;> rfl
      rw [hnone]
      exact List.mem_cons_self

/-- Step lemma: a step that spares the retry timer and a registered socket. -/
theorem Sound.moves (h : c.Sound c.epoll.events) (hstep : Stepped c e c') (hspares : c.Spares e)
    (hfresh : ∀ fd ∈ e.newFds, fd ∉ c.descriptors) : Moves c e c' := by
  cases hstep with
  | connect => exact .of_same h rfl rfl rfl rfl (h.enqueued rfl)
  | stopConnect => exact .of_same h rfl rfl rfl rfl (h.enqueued rfl)
  | connectFunctor answer retry functors d hfunctors hrun => exact hrun.moves h hfunctors
  | stopFunctor answer functors d hfunctors hrun =>
      apply hrun.moves h hfunctors
      exact hspares (by rw [hfunctors]; rfl)
  | remove answer event functors hfunctors =>
      have hnone := h.functors (.remove event) (by rw [hfunctors]; exact List.mem_cons_self)
      cases hnone
  | poll ready hbatch => exact .of_same h rfl rfl rfl rfl h.functors
  | handleOut error timerFd sameLoop batch socket d hbatch hsocket hhandle =>
      exact hhandle.moves h hspares (hfresh timerFd List.mem_cons_self)
  | timeOut answer batch timer socket result hbatch htimer hsocket hstub =>
      have hnew := newFds_of_socket hstub
      have hbatch : Sound { c with batch := batch } c.epoll.events :=
        ⟨h.socket, h.timer, h.functors⟩
      have hrenewed : Moves { c with batch := batch } (.handleIn answer)
          (renewed { c with batch := batch } socket (result.getD (-1))) :=
        renewed_moves hbatch hsocket hspares (hfresh _ hnew) hnew
      exact ⟨hrenewed.frame, hrenewed.closed, hrenewed.fresh, hrenewed.sound⟩
  | other ptr batch hbatch => exact .of_same h rfl rfl rfl rfl h.functors

/-! ## Steps that leave no entry of a closed descriptor -/

/-- A step that destroys the retry timer and leaves its entry. -/
theorem Sound.retryTimer_eq_none (h : c.Sound c.epoll.events)
    (hdescriptors : c'.descriptors = [c.epollEvent.watchingFd])
    (hframe : ∀ fd ≠ c.epollEvent.watchingFd, c'.epoll.events fd = c.epoll.events fd)
    (hclosed : ∀ fd ∈ c.descriptors, fd ∉ c'.descriptors → c'.epoll.events fd = none) :
    c.retryTimer = none := by
  cases htimer : c.retryTimer with
  | none => rfl
  | some timer =>
      obtain ⟨hentry, hne⟩ := h.timer timer htimer
      have hnone := hclosed timer.handlerEvent.watchingFd
        (mem_descriptors.mpr (.inr ⟨timer, htimer, rfl⟩))
        (by rw [hdescriptors, List.mem_singleton]; exact hne)
      rw [hframe _ hne, hentry] at hnone
      cases hnone

theorem stopFunctor_frame (c : Connector) (fd : Int) (hne : fd ≠ c.epollEvent.watchingFd) :
    (c.stopTimer.disable c.epollEvent).epoll.events fd = c.epoll.events fd := by
  rw [disable_events, Function.update_of_ne hne, stopTimer_events]

theorem stopFunctor_descriptors (c : Connector) :
    (c.stopTimer.disable c.epollEvent).descriptors = [c.epollEvent.watchingFd] := by
  change c.stopTimer.descriptors = _
  unfold descriptors
  rw [stopTimer_retryTimer, (stopTimer_kept c).1]
  rfl

theorem succeed_descriptors (c : Connector) (socket : Socket) (sameLoop : Bool) :
    (c.succeed socket sameLoop).descriptors = [c.epollEvent.watchingFd] := by
  rw [← stopFunctor_descriptors c]
  cases sameLoop <;> rfl

theorem succeed_frame (h : c.Sound c.epoll.events) {socket : Socket} (sameLoop : Bool)
    (hsocket : c.socket = some socket) (fd : Int) (hne : fd ≠ c.epollEvent.watchingFd) :
    (c.succeed socket sameLoop).epoll.events fd = c.epoll.events fd := by
  rw [← stopFunctor_frame c fd hne]
  cases sameLoop with
  | false => rfl
  | true =>
      have hother : fd ≠ socket.fd := by rwa [(h.socket socket hsocket).1]
      refine (congrFun (update_events _) fd).trans ?_
      exact Function.update_of_ne hother ..

/-- Step lemma of the other direction. -/
theorem Sound.spares (h : c.Sound c.epoll.events) (hstep : Stepped c e c')
    (hfresh : ∀ fd ∈ e.newFds, fd ∉ c.descriptors)
    (hclosed : ∀ fd ∈ c.descriptors, fd ∉ c'.descriptors → c'.epoll.events fd = none) :
    c.Spares e := by
  cases hstep with
  | connectFunctor answer retry functors d hfunctors hrun =>
      intro hhead
      rw [hfunctors] at hhead
      cases hhead
  | stopFunctor answer functors d hfunctors hrun =>
      intro _ hconnecting
      cases hrun with
      | ignored hstate => exact absurd hconnecting hstate
      | cleaned hstate =>
          apply h.retryTimer_eq_none _ _ hclosed
          · exact stopFunctor_descriptors { c with functors := functors }
          · exact stopFunctor_frame { c with functors := functors }
  | remove answer event functors hfunctors =>
      intro hhead
      rw [hfunctors] at hhead
      cases hhead
  | handleOut error timerFd sameLoop batch socket d hbatch hsocket hhandle =>
      intro hsuccess
      cases hhandle with
      | firstRetry herror htimer => exact htimer
      | nextRetry timer herror htimer =>
          rw [hsuccess] at herror
          simp [Retries] at herror
      | inProgress herror =>
          rw [hsuccess] at herror
          cases herror
      | succeeded socket' herror hsocket' =>
          have hbatch : Sound { c with batch := batch } c.epoll.events :=
            ⟨h.socket, h.timer, h.functors⟩
          apply h.retryTimer_eq_none _ _ hclosed
          · exact succeed_descriptors _ _ _
          · exact succeed_frame hbatch sameLoop hsocket'
      | failed herror hfailure hpending => exact absurd hsuccess hfailure
  | timeOut answer batch timer socket result hbatch htimer hsocket hstub =>
      intro hregistered
      have hne : c.epollEvent.watchingFd ≠ result.getD (-1) := fun heq =>
        hfresh _ (newFds_of_socket hstub) (mem_descriptors.mpr (.inl heq.symm))
      have hnone := hclosed c.epollEvent.watchingFd (mem_descriptors.mpr (.inl rfl)) (by
        intro hmem
        rcases mem_descriptors.mp hmem with heq | ⟨timer', hsome, heq⟩
        · exact hne heq
        · exact (h.timer timer' hsome).2 heq)
      have hevents : (renewed { c with batch := batch } socket (result.getD (-1))).epoll.events =
          Function.update c.epoll.events (result.getD (-1)) (some c.nextPtr) := update_events _
      rw [hevents, Function.update_of_ne hne, hregistered] at hnone
      cases hnone
  | connect => trivial
  | stopConnect => trivial
  | poll ready hbatch => trivial
  | other ptr batch hbatch => trivial

end Connector

end Netpp
