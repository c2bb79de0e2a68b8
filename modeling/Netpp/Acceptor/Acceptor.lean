import Netpp.Connection.TcpConnection

/-!
# The acceptor

An `Acceptor` listens on a socket. `listen` and `stop` may be called from any thread
and queue functors in the loop; the state is that of the acceptor and of the parts
of its loop that it uses.

The functor of `listen` adds the acceptor to the loop and to epoll before it calls
`bind` and `listen`, and it takes nothing back when one of them fails. The return
value `-1` is ignored, a `SocketException` is reported, and a
`ResourceLimitException` leaves the functor.
-/

namespace Netpp

structure Acceptor where
  state : TcpState
  epollEvent : EpollEvent Nat
  /-- The epoll of the loop, and the answers that `epoll_ctl` will give. -/
  epoll : Epoll Nat
  ctlAnswers : Nat → Answer Unit
  /-- The handler set of the loop has the acceptor. -/
  inHandlers : Bool
  /-- The calls of `onError`. -/
  errors : List SocketError

namespace Acceptor

/-- `Socket::listen`, with the answers of the system calls `bind` and `listen`. -/
def socketListen (bind listen : Answer Unit) : Except Exception Unit := do
  let _ ← Stub.bind bind
  let _ ← Stub.listen listen
  .ok ()

/-- `m_epollEvent->active(IN)`. -/
def activeIn (a : Acceptor) : Acceptor :=
  { a with
    epollEvent := a.epollEvent.active [.IN]
    epoll := a.epoll.updateEvent (a.epollEvent.active [.IN]) (a.ctlAnswers 0)
    ctlAnswers := fun n => a.ctlAnswers (n + 1) }

/-- `m_epollEvent->disable`. -/
def disable (a : Acceptor) : Acceptor :=
  { a with
    epoll := a.epoll.removeEvent a.epollEvent (a.ctlAnswers 0)
    ctlAnswers := fun n => a.ctlAnswers (n + 1) }

/-- The functor of `listen`; an exception that leaves it is an error. -/
def listenFunctor (a : Acceptor) (bind listen : Answer Unit) : Except Exception Acceptor :=
  -- only listen at initial state
  if a.state = .Closed then
    let a := activeIn { a with inHandlers := true }
    match socketListen bind listen with
    | .ok () => .ok { a with state := .Listen }
    | .error (.socketException e) => .ok { a with errors := a.errors ++ [getError e] }
    | .error (.resourceLimitException e) => .error (.resourceLimitException e)
  else .ok a

/-- The functor of `stop`. -/
def stopFunctor (a : Acceptor) : Acceptor :=
  { a.disable with
    inHandlers := false
    state := .Closed }

/-- The functors that the loop runs. -/
inductive Event where
  | listen (bind listen : Answer Unit)
  | stop

def step (a : Acceptor) : Event → Except Exception Acceptor
  | .listen bind listen => a.listenFunctor bind listen
  | .stop => .ok a.stopFunctor

/-- `makeAcceptor`, for an event at `ptr` with the socket `fd`. -/
def makeAcceptor (ctlAnswers : Nat → Answer Unit) (ptr : Nat) (fd : Int) : Acceptor where
  state := .Closed
  epollEvent := ⟨ptr, fd, fun _ => false⟩
  epoll := Epoll.new
  ctlAnswers := ctlAnswers
  inHandlers := false
  errors := []

/-! ## Attempts -/

/-- The functor of `listen` runs at the initial state: it makes an attempt, which these
answers decide. -/
def attempts (a : Acceptor) : Event → Option (Answer Unit × Answer Unit)
  | .listen bind listen => if a.state = .Closed then some (bind, listen) else none
  | .stop => none

/-- Both system calls succeed. -/
def Succeeds : Answer Unit × Answer Unit → Prop
  | (bind, listen) => bind = .done () ∧ listen = .done ()

instance : DecidablePred Succeeds := fun (bind, listen) =>
  inferInstanceAs (Decidable (bind = .done () ∧ listen = .done ()))

/-- The last attempt has succeeded, and no stop has followed. -/
def record (a : Acceptor) (e : Event) (listening : Bool) : Bool :=
  match e with
  | .stop => false
  | e => match a.attempts e with
    | some answers => decide (Succeeds answers)
    | none => listening

/-- The loop or epoll knows the acceptor. -/
def known (a : Acceptor) : Prop :=
  a.inHandlers = true ∨ a.epoll.events a.epollEvent.watchingFd = some a.epollEvent.ptr

/-- The attempt from `a` to `a'` has been rolled back and reported. -/
structure RolledBack (a a' : Acceptor) : Prop where
  closed : a'.state = .Closed
  unknown : ¬a'.known
  reported : ∃ code, a'.errors = a.errors ++ [code]

/-- No exception leaves the functor, the state is `Listen` if and only if the last attempt
has succeeded and was not stopped, and an attempt that fails is rolled back. -/
def AllOrNothing (s : Acceptor × Bool) (e : Event) : Prop :=
  ∃ a', s.1.step e = .ok a' ∧ (a'.state = .Listen ↔ record s.1 e s.2 = true) ∧
    ∀ answers, s.1.attempts e = some answers → ¬Succeeds answers → RolledBack s.1 a'

/-- An attempt that is made succeeds. -/
def NoFailure (a : Acceptor) (e : Event) : Prop :=
  ∀ answers, a.attempts e = some answers → Succeeds answers

/-- The invariant: the state says whether the last attempt has succeeded. -/
def Told (s : Acceptor × Bool) : Prop :=
  (s.1.state = .Closed ∧ s.2 = false) ∨ (s.1.state = .Listen ∧ s.2 = true)

variable {a a' : Acceptor} {listening : Bool} {e : Event}

theorem socketListen_of_succeeds {bind listen : Answer Unit} (h : Succeeds (bind, listen)) :
    socketListen bind listen = .ok () := by
  obtain ⟨rfl, rfl⟩ := h
  rfl

/-- An attempt that does not throw leaves the acceptor in the loop. -/
theorem listenFunctor_inHandlers {bind listen : Answer Unit} (hclosed : a.state = .Closed)
    (h : a.listenFunctor bind listen = .ok a') : a'.inHandlers = true := by
  rw [listenFunctor, if_pos hclosed] at h
  simp only at h
  split at h <;> cases h <;> rfl

/-- Step lemma: without a failure the state tells what has happened. -/
theorem Told.allOrNothing (h : Told (a, listening)) (hnofailure : a.NoFailure e) :
    ∃ a', a.step e = .ok a' ∧ Told (a', record a e listening) := by
  cases e with
  | stop => exact ⟨_, rfl, .inl ⟨rfl, rfl⟩⟩
  | listen bind listen =>
      rcases h with ⟨hclosed, -⟩ | ⟨hlisten, hlistening⟩
      · have hattempts : a.attempts (.listen bind listen) = some (bind, listen) := if_pos hclosed
        have hsucceeds := hnofailure _ hattempts
        refine ⟨{ activeIn { a with inHandlers := true } with state := .Listen }, ?_,
          .inr ⟨rfl, ?_⟩⟩
        · rw [step, listenFunctor, if_pos hclosed, socketListen_of_succeeds hsucceeds]
        · simp [record, hattempts, hsucceeds]
      · have hnot : a.state ≠ .Closed := by
          rw [hlisten]
          decide
        have hattempts : a.attempts (.listen bind listen) = none := if_neg hnot
        refine ⟨a, ?_, .inr ⟨hlisten, ?_⟩⟩
        · rw [step, listenFunctor, if_neg hnot]
        · simp only [record, hattempts]
          exact hlistening

/-- Under the invariant, a step is all or nothing exactly if it is no failure. -/
theorem Told.allOrNothing_iff (h : Told (a, listening)) :
    AllOrNothing (a, listening) e ↔ a.NoFailure e := by
  constructor
  · rintro ⟨a', hstep, -, hrolled⟩ answers hattempts
    by_contra hfails
    obtain ⟨-, hunknown, -⟩ := hrolled answers hattempts hfails
    cases e with
    | stop => cases hattempts
    | listen bind listen =>
        have hclosed : a.state = .Closed := by
          by_contra hnot
          simp [attempts, hnot] at hattempts
        exact hunknown (.inl (listenFunctor_inHandlers hclosed hstep))
  · intro hnofailure
    obtain ⟨a', hstep, htold⟩ := h.allOrNothing hnofailure
    refine ⟨a', hstep, ?_, fun answers hattempts hfails => ?_⟩
    · change a'.state = .Listen ↔ record a e listening = true
      rcases htold with ⟨hstate, hrecord⟩ | ⟨hstate, hrecord⟩ <;>
        simp only at hstate hrecord <;> simp [hstate, hrecord]
    · exact absurd (hnofailure answers hattempts) hfails

/-- In a run listening is all or nothing if and only if no attempt that is made fails. -/
theorem allOrNothing_iff_noFailure (ctlAnswers : Nat → Answer Unit) (ptr : Nat) (fd : Int)
    (events : List Event) :
    Run.Always (Run.recorded step record) AllOrNothing
        (makeAcceptor ctlAnswers ptr fd, false) events ↔
      Run.Always (Run.recorded step record) (fun s e => s.1.NoFailure e)
        (makeAcceptor ctlAnswers ptr fd, false) events := by
  refine Run.always_iff_always (J := Told) ?_ ?_ (.inl ⟨rfl, rfl⟩) events
  · rintro ⟨a, listening⟩ e ⟨a', listening'⟩ htold hnofailure hok
    obtain ⟨hstep, hrecord⟩ := Run.recorded_ok hok
    obtain ⟨b, hstep', htold'⟩ := htold.allOrNothing hnofailure
    rw [hstep] at hstep'
    cases hstep'
    rw [show listening' = _ from hrecord]
    exact htold'
  · rintro ⟨a, listening⟩ e htold
    exact htold.allOrNothing_iff

/-- The address is in use: the acceptor stays in the loop and in epoll. -/
theorem allOrNothing_fails : ¬Run.Always (Run.recorded step record) AllOrNothing
    (makeAcceptor (fun _ => .done ()) 0 5, false) [.listen (.failed .EADDRINUSE) (.done ())] := by
  rintro ⟨⟨a', hstep, -, hrolled⟩, -⟩
  have hfails : ¬Succeeds (.failed .EADDRINUSE, .done ()) := by decide
  have hunknown := (hrolled _ rfl hfails).unknown
  cases hstep
  exact hunknown (.inl rfl)

end Acceptor

end Netpp
