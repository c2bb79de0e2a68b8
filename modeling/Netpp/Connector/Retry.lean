import Netpp.Connector.Cancel

/-!
# The retry timer and the attempt in progress

The timer repeats, and its callback replaces the socket and the event of the
connector without a look at what has become of the last attempt. If the attempt has
failed with `ETIMEDOUT` or `ECONNREFUSED`, `reconnect` has disabled the event. If not,
the socket of an attempt in progress is closed, and since the destructor of the event
does not disable it either, the table `_events` keeps the pointer.
`replacesIdle_iff_reported` says that the callback goes by the book exactly in the runs
in which no expiration is handled while an attempt waits for its outcome.
-/

namespace Netpp

namespace Connector

/-- An attempt is in progress: the connector waits for `EPOLLOUT`. A functor of
`connect` and an expiration begin an attempt; its outcome, `stopConnect`, and a removal
of the same descriptor that a former timer has left in the queue end it. -/
def recordAwaiting (c : Connector) (e : Event) (awaiting : Bool) : Bool :=
  match e with
  | .functor _ =>
      match c.functors.head? with
      | some (.connect _) => if c.state = .Closed then true else awaiting
      | some .stopConnect => if c.state = .Connecting then false else awaiting
      | some (.remove event) =>
          if event.watchingFd = c.epollEvent.watchingFd then false else awaiting
      | none => awaiting
  | .handleOut .TIMEDOUT _ _ | .handleOut .CONNREFUSED _ _ | .handleOut .NOERROR _ _ => false
  | .handleIn _ => true
  | _ => awaiting

/-- The event that an expiration replaces is disabled, and no pointer to it is left. -/
def ReplacesIdle (c : Connector) (e : Event) (c' : Connector) : Prop :=
  match e with
  | .handleIn _ => ¬c.registered ∧ ∀ fd, c'.epoll.events fd ≠ some c.epollEvent.ptr
  | _ => True

/-- No expiration is handled while an attempt is in progress. -/
def Reported (s : Connector × Bool) : Event → Prop
  | .handleIn _ => s.2 = false
  | _ => True

variable {c c' : Connector} {e : Event} {awaiting : Bool}

/-! ## The table -/

/-- The event of the connector is in the table for its own descriptor only, and every
event in the table was allocated before. -/
structure Tracked (c : Connector) : Prop where
  entry : ∀ fd, c.epoll.events fd = some c.epollEvent.ptr → fd = c.epollEvent.watchingFd
  fresh : ∀ fd ptr, c.epoll.events fd = some ptr → ptr < c.nextPtr
  allocated : c.epollEvent.ptr < c.nextPtr

theorem makeConnector_tracked (ctlAnswers : Nat → Answer Unit) (ptr : Nat) (fd : Int) :
    (makeConnector ctlAnswers ptr fd).Tracked where
  entry _ h := by cases h
  fresh _ _ h := by cases h
  allocated := Nat.lt_succ_self ptr

theorem activeOut_events (c : Connector) : c.activeOut.epoll.events =
    Function.update c.epoll.events c.epollEvent.watchingFd (some c.epollEvent.ptr) := by
  simp [activeOut, update_events, EpollEvent.active]

theorem activeOut_registered (c : Connector) : c.activeOut.registered := by
  change c.activeOut.epoll.events c.epollEvent.watchingFd = some c.epollEvent.ptr
  rw [activeOut_events, Function.update_self]

theorem Tracked.activeOut (h : c.Tracked) : c.activeOut.Tracked where
  entry fd hentry := by
    change c.activeOut.epoll.events fd = some c.epollEvent.ptr at hentry
    rw [activeOut_events] at hentry
    rcases Table.insert_eq_some hentry with ⟨hfd, -⟩ | ⟨-, hbefore⟩
    · exact hfd
    · exact h.entry fd hbefore
  fresh fd ptr hentry := by
    rw [activeOut_events] at hentry
    rcases Table.insert_eq_some hentry with ⟨-, hptr⟩ | ⟨-, hbefore⟩
    · rw [hptr]
      exact h.allocated
    · exact h.fresh fd ptr hbefore
  allocated := h.allocated

theorem Tracked.disable (h : c.Tracked) (event : EpollEvent Nat) : (c.disable event).Tracked where
  entry fd hentry := h.entry fd (disable_entry hentry).2
  fresh fd ptr hentry := h.fresh fd ptr (disable_entry hentry).2
  allocated := h.allocated

/-- A removal unregisters the connector if it is one of its descriptor. -/
theorem disable_registered_iff (c : Connector) (event : EpollEvent Nat) :
    (c.disable event).registered ↔
      event.watchingFd ≠ c.epollEvent.watchingFd ∧ c.registered := by
  constructor
  · intro hregistered
    obtain ⟨hfd, hbefore⟩ := disable_entry hregistered
    exact ⟨hfd.symm, hbefore⟩
  · rintro ⟨hfd, hregistered⟩
    change (c.disable event).epoll.events c.epollEvent.watchingFd = some c.epollEvent.ptr
    rw [disable_events, Function.update_of_ne hfd.symm]
    exact hregistered

/-- The new timer gets a new event. -/
theorem Tracked.setupTimer (h : c.Tracked) (timerFd : Int) : (c.setupTimer timerFd).Tracked := by
  have hevents : (c.setupTimer timerFd).epoll.events =
      Function.update c.epoll.events timerFd (some c.nextPtr) := by
    simp [Connector.setupTimer, update_events, Timer.new, EpollEvent.active]
  refine ⟨?_, ?_, Nat.lt_succ_of_lt h.allocated⟩
  · intro fd hentry
    change (c.setupTimer timerFd).epoll.events fd = some c.epollEvent.ptr at hentry
    rw [hevents] at hentry
    rcases Table.insert_eq_some hentry with ⟨-, hptr⟩ | ⟨-, hbefore⟩
    · exact absurd h.allocated (Nat.not_lt_of_le hptr.ge)
    · exact h.entry fd hbefore
  · intro fd ptr hentry
    change ptr < c.nextPtr + 1
    rw [hevents] at hentry
    rcases Table.insert_eq_some hentry with ⟨-, hptr⟩ | ⟨-, hbefore⟩
    · rw [hptr]
      exact Nat.lt_succ_self _
    · exact Nat.lt_succ_of_lt (h.fresh fd ptr hbefore)

theorem renewed_events (c : Connector) (oldSocket : Socket) (fd : Int) :
    (c.renewed oldSocket fd).epoll.events =
      Function.update c.epoll.events fd (some c.nextPtr) := by
  simp [renewed, Connector.activeOut, update_events, runInLoop, Epoll.close, EpollEvent.active]

theorem renewed_registered (c : Connector) (oldSocket : Socket) (fd : Int) :
    (c.renewed oldSocket fd).registered := by
  change (c.renewed oldSocket fd).epoll.events fd = some c.nextPtr
  rw [renewed_events, Function.update_self]

/-- An expiration leaves what the table has, and adds the new event. -/
theorem Tracked.renewed (h : c.Tracked) (oldSocket : Socket) (fd : Int) :
    (c.renewed oldSocket fd).Tracked := by
  refine ⟨?_, ?_, Nat.lt_succ_self _⟩
  · intro fd' hentry
    change (c.renewed oldSocket fd).epoll.events fd' = some c.nextPtr at hentry
    rw [renewed_events] at hentry
    rcases Table.insert_eq_some hentry with ⟨hfd, -⟩ | ⟨-, hbefore⟩
    · exact hfd
    · exact absurd (h.fresh fd' _ hbefore) (Nat.lt_irrefl _)
  · intro fd' ptr hentry
    change ptr < c.nextPtr + 1
    rw [renewed_events] at hentry
    rcases Table.insert_eq_some hentry with ⟨-, hptr⟩ | ⟨-, hbefore⟩
    · rw [hptr]
      exact Nat.lt_succ_self _
    · exact Nat.lt_succ_of_lt (h.fresh fd' ptr hbefore)

/-- The expired timer leaves no pointer to the event it replaces exactly if that was
disabled. -/
theorem Tracked.replacesIdle_iff (h : c.Tracked) (oldSocket : Socket) (fd : Int) :
    (¬c.registered ∧ ∀ fd', (c.renewed oldSocket fd).epoll.events fd' ≠ some c.epollEvent.ptr) ↔
      ¬c.registered := by
  refine ⟨And.left, fun hidle => ⟨hidle, fun fd' hentry => ?_⟩⟩
  rw [renewed_events] at hentry
  rcases Table.insert_eq_some hentry with ⟨-, hptr⟩ | ⟨-, hbefore⟩
  · exact absurd h.allocated (Nat.not_lt_of_le hptr.ge)
  · have hfd := h.entry fd' hbefore
    rw [hfd] at hbefore
    exact hidle hbefore

/-! ## The invariant -/

/-- While the connector has its socket, an attempt is in progress exactly if the event is
in the table. -/
def Awaited (s : Connector × Bool) : Prop :=
  ∀ socket, s.1.socket = some socket → s.1.Tracked ∧ (s.2 = true ↔ s.1.registered)

theorem Awaited.connectFunctor (h : Awaited (c, awaiting)) {answer : Answer Unit}
    (hrun : ConnectFunctor c answer c') :
    Awaited (c', if c.state = .Closed then true else awaiting) := by
  have hattempt : ∀ socket, c.socket = some socket →
      (c.attempt socket).Tracked ∧ (true = true ↔ (c.attempt socket).registered) := by
    intro socket hsocket
    have htracked := (h socket hsocket).1
    have hadded : Tracked { c with inHandlers := true } := { htracked with }
    exact ⟨{ hadded.activeOut with }, fun _ => activeOut_registered _, fun _ => rfl⟩
  cases hrun with
  | ignored hstate =>
      rw [if_neg hstate]
      exact h
  | connecting socket result hstate hsocket hstub =>
      rw [if_pos hstate]
      obtain ⟨htracked, hregistered⟩ := hattempt socket hsocket
      exact fun _ _ => ⟨{ htracked with }, hregistered⟩
  | inProgress socket e hstate hsocket hstub hcode =>
      rw [if_pos hstate]
      exact fun _ _ => hattempt socket hsocket
  | failed socket e hstate hsocket hstub hcode =>
      rw [if_pos hstate]
      obtain ⟨htracked, hregistered⟩ := hattempt socket hsocket
      exact fun _ _ => ⟨{ htracked with }, hregistered⟩

/-- What has happened to the connector when it has disabled its event. -/
theorem Tracked.idle (h : c.Tracked) :
    (c.disable c.epollEvent).Tracked ∧ (false = true ↔ (c.disable c.epollEvent).registered) := by
  refine ⟨h.disable _, ?_⟩
  rw [disable_registered_iff]
  simp

theorem stopTimer_nextPtr : c.stopTimer.nextPtr = c.nextPtr := by
  unfold stopTimer
  cases c.retryTimer <;> rfl

theorem Tracked.stopTimer (h : c.Tracked) : c.stopTimer.Tracked := by
  obtain ⟨hevent, -⟩ := stopTimer_kept c
  have hevents := stopTimer_events (c := c)
  have hptr := stopTimer_nextPtr (c := c)
  refine ⟨?_, ?_, ?_⟩
  · rw [hevents, hevent]
    exact h.entry
  · rw [hevents, hptr]
    exact h.fresh
  · rw [hevent, hptr]
    exact h.allocated

theorem Awaited.stopFunctor (h : Awaited (c, awaiting)) (hrun : StopFunctor c c') :
    Awaited (c', if c.state = .Connecting then false else awaiting) := by
  cases hrun with
  | ignored hstate =>
      rw [if_neg hstate]
      exact h
  | cleaned hstate =>
      rw [if_pos hstate]
      intro socket hsome
      obtain ⟨hevent, hsocket, -⟩ := stopTimer_kept c
      have htracked := (h socket (hsocket ▸ hsome)).1.stopTimer
      rw [← hevent]
      obtain ⟨hidle, hunregistered⟩ := htracked.idle
      exact ⟨{ hidle with }, hunregistered⟩

theorem Awaited.remove (h : Awaited (c, awaiting)) (event : EpollEvent Nat) :
    Awaited (c.disable event,
      if event.watchingFd = c.epollEvent.watchingFd then false else awaiting) := by
  intro socket hsocket
  obtain ⟨htracked, hregistered⟩ := h socket hsocket
  refine ⟨htracked.disable event, ?_⟩
  change (if event.watchingFd = c.epollEvent.watchingFd then false else awaiting) = true ↔ _
  rw [disable_registered_iff]
  by_cases hfd : event.watchingFd = c.epollEvent.watchingFd
  · simp [hfd]
  · simpa [hfd] using hregistered

theorem Awaited.handleOut (h : Awaited (c, awaiting)) {error : SocketError} {timerFd : Int}
    {sameLoop : Bool} (hrun : HandleOut c error timerFd sameLoop c') :
    Awaited (c', recordAwaiting c (.handleOut error timerFd sameLoop) awaiting) := by
  have hretries : Retries error →
      recordAwaiting c (.handleOut error timerFd sameLoop) awaiting = false := by
    rintro (rfl | rfl) <;> rfl
  cases hrun with
  | firstRetry herror htimer =>
      rw [hretries herror]
      intro socket hsocket
      obtain ⟨hidle, hunregistered⟩ := ((h socket hsocket).1.setupTimer timerFd).idle
      exact ⟨{ hidle with }, hunregistered⟩
  | nextRetry timer herror htimer =>
      rw [hretries herror]
      intro socket hsocket
      obtain ⟨hidle, hunregistered⟩ := (h socket hsocket).1.idle
      exact ⟨{ hidle with }, hunregistered⟩
  | inProgress herror =>
      rw [herror]
      exact h
  | succeeded socket' herror hsocket' =>
      intro socket hsome
      have hnone : (c.succeed socket' sameLoop).socket = none := by
        cases sameLoop <;> rfl
      simp only [hnone] at hsome
      cases hsome
  | failed herror hsuccess hpending =>
      have hkept : recordAwaiting c (.handleOut error timerFd sameLoop) awaiting = awaiting := by
        unfold recordAwaiting
        split <;> simp_all [Retries]
      rw [hkept]
      intro socket hsocket
      obtain ⟨htracked, hregistered⟩ := h socket hsocket
      exact ⟨{ htracked with }, hregistered⟩

/-- Step lemma: every step keeps the invariant. -/
theorem Awaited.step (h : Awaited (c, awaiting)) (hok : c.step e = .ok c') :
    Awaited (c', recordAwaiting c e awaiting) := by
  -- What the table is compared with stays the same in most steps.
  have hsame : ∀ d : Connector, d.socket = c.socket → d.epoll = c.epoll →
      d.epollEvent = c.epollEvent → d.nextPtr = c.nextPtr → Awaited (d, awaiting) := by
    intro d hsocket hepoll hevent hptr socket hsome
    obtain ⟨⟨hentry, hfresh, hallocated⟩, hregistered⟩ := h socket (hsocket ▸ hsome)
    refine ⟨⟨?_, ?_, ?_⟩, ?_⟩
    · rw [hepoll, hevent]
      exact hentry
    · rw [hepoll, hptr]
      exact hfresh
    · rw [hevent, hptr]
      exact hallocated
    · simp only [registered, hepoll, hevent]
      exact hregistered
  cases step_ok hok with
  | connect => exact hsame _ rfl rfl rfl rfl
  | stopConnect => exact hsame _ rfl rfl rfl rfl
  | connectFunctor answer retry functors d hfunctors hrun =>
      have htaken := hsame { c with functors := functors } rfl rfl rfl rfl
      have hd := htaken.connectFunctor hrun
      simp only [recordAwaiting, hfunctors, List.head?_cons]
      intro socket hsocket
      obtain ⟨htracked, hregistered⟩ := hd socket hsocket
      exact ⟨{ htracked with }, hregistered⟩
  | stopFunctor answer functors d hfunctors hrun =>
      have htaken := hsame { c with functors := functors } rfl rfl rfl rfl
      have hd := htaken.stopFunctor hrun
      simp only [recordAwaiting, hfunctors, List.head?_cons]
      intro socket hsocket
      obtain ⟨htracked, hregistered⟩ := hd socket hsocket
      exact ⟨{ htracked with }, hregistered⟩
  | remove answer event functors hfunctors =>
      have htaken := hsame { c with functors := functors } rfl rfl rfl rfl
      simp only [recordAwaiting, hfunctors, List.head?_cons]
      exact htaken.remove event
  | poll ready hbatch => exact hsame _ rfl rfl rfl rfl
  | handleOut error timerFd sameLoop batch socket d hbatch hsocket hhandle =>
      have htaken := hsame { c with batch := batch } rfl rfl rfl rfl
      exact htaken.handleOut hhandle
  | timeOut answer batch timer socket result hbatch htimer hsocket hstub =>
      have htaken := hsame { c with batch := batch } rfl rfl rfl rfl
      intro socket' hsocket'
      exact ⟨(htaken socket hsocket).1.renewed socket _,
        fun _ => renewed_registered _ socket _, fun _ => rfl⟩
  | other ptr batch hbatch => exact hsame _ rfl rfl rfl rfl

theorem Awaited.replacesIdle_iff (h : Awaited (c, awaiting)) (hok : c.step e = .ok c') :
    ReplacesIdle c e c' ↔ Reported (c, awaiting) e := by
  cases step_ok hok with
  | timeOut answer batch timer socket result hbatch htimer hsocket hstub =>
      obtain ⟨htracked, hregistered⟩ := h socket hsocket
      have htaken : Tracked { c with batch := batch } := { htracked with }
      have hidle := htaken.replacesIdle_iff socket (result.getD (-1))
      change _ ↔ awaiting = false
      rw [← Bool.not_eq_true]
      exact hidle.trans (not_congr hregistered.symm)
  | _ => exact Iff.rfl

/-- In a run every expiration of the retry timer finds the event it replaces disabled and
leaves no pointer to it, if and only if none is handled while an attempt is in progress. -/
theorem replacesIdle_iff_reported (ctlAnswers : Nat → Answer Unit) (ptr : Nat) (fd : Int)
    (events : List Event) :
    Run.Always (Run.recorded step recordAwaiting)
        (Run.Each (Run.recorded step recordAwaiting) fun s e s' => ReplacesIdle s.1 e s'.1)
        (makeConnector ctlAnswers ptr fd, false) events ↔
      Run.Always (Run.recorded step recordAwaiting)
        (Run.Each (Run.recorded step recordAwaiting) fun s e _ => Reported s e)
        (makeConnector ctlAnswers ptr fd, false) events := by
  apply Run.always_each_iff (J := Awaited)
  · rintro ⟨c, awaiting⟩ e ⟨c', awaiting'⟩ h - hok
    obtain ⟨hstep, hrecord⟩ := Run.recorded_ok hok
    rw [show awaiting' = _ from hrecord]
    exact h.step hstep
  · rintro ⟨c, awaiting⟩ e ⟨c', awaiting'⟩ h hok
    exact h.replacesIdle_iff (Run.recorded_ok hok).1
  · intro socket _
    refine ⟨makeConnector_tracked ctlAnswers ptr fd, ?_⟩
    simp [registered, makeConnector, Epoll.new]

/-- After a refusal the timer expires twice, and the second attempt has no outcome yet. -/
theorem replacesIdle_fails : ¬Run.Always (Run.recorded step recordAwaiting)
    (Run.Each (Run.recorded step recordAwaiting) fun s e s' => ReplacesIdle s.1 e s'.1)
    (makeConnector (fun _ => .done ()) 0 5, false)
    [.connect, .functor (.failed .EINPROGRESS), .poll [5], .handleOut .CONNREFUSED 6 false,
      .poll [6], .handleIn (.done 7), .functor (.failed .EINPROGRESS), .poll [6],
      .handleIn (.done 8)] := by
  intro h
  have hreplaced :=
    ((((((((h.2 _ rfl).2 _ rfl).2 _ rfl).2 _ rfl).2 _ rfl).2 _ rfl).2 _ rfl).2 _ rfl).1 _ rfl
  exact hreplaced.1 rfl

end Connector

end Netpp
