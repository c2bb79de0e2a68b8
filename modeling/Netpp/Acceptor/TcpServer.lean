import Netpp.Acceptor.Acceptor

/-!
# The server

`TcpServer::listen` makes an `Acceptor`, keeps a weak pointer to it and calls its
`listen`; `stopListen`, which the destructor calls as well, calls the `stop` of the
acceptor that the pointer leads to. Both queue functors in the loop of the acceptor, and
the functors and the handler set of the loop keep the acceptor alive. A second `listen`
replaces the pointer, also when no acceptor can be made.

The state has all acceptors that the server has made. Its methods are called one after
the other, the loops run the functors at any time. `stops_unless_replaced` shows what
`stopListen` is good for: it stops every acceptor but those that were replaced before
they were asked to stop, and these are never stopped.
-/

namespace Netpp

namespace TcpServer

/-- A functor of an acceptor. -/
inductive Functor where
  | listen
  | stop
  deriving DecidableEq

/-- An acceptor that the server has made, and its functors in the queue of its loop. -/
structure Listener where
  acceptor : Acceptor
  functors : List Functor
  /-- An exception has left the loop. -/
  ended : Bool

/-- Where the thread is that calls the methods. It holds a pointer to the acceptor while it is
inside one. -/
inductive Phase where
  | outside
  /-- In `listen`, after `makeAcceptor`. -/
  | listens (id : Nat)
  /-- In `stopListen`, after the pointer has been locked. -/
  | stops (id : Nat)
  deriving DecidableEq

end TcpServer

structure TcpServer where
  /-- The acceptor that `_acceptor` points to, by its place among the listeners. -/
  acceptor : Option Nat
  listeners : List TcpServer.Listener
  phase : TcpServer.Phase
  /-- The calls of `onError` by `makeAcceptor`. -/
  errors : List SocketError

namespace TcpServer

/-- The constructor. -/
def new : TcpServer := ⟨none, [], .outside, []⟩

/-- `listen` up to the return of `makeAcceptor`, with the answer for the new socket; its event
will be at `ptr`. -/
def makeAcceptor (server : TcpServer) (answer : Answer Int) (ctlAnswers : Nat → Answer Unit)
    (ptr : Nat) : TcpServer :=
  match Stub.socket answer with
  | .ok fd => { server with
      acceptor := some server.listeners.length
      listeners := server.listeners ++
        [⟨Acceptor.makeAcceptor ctlAnswers ptr (fd.getD (-1)), [], false⟩]
      phase := .listens server.listeners.length }
  | .error (.socketException e) | .error (.resourceLimitException e) => { server with
      acceptor := none
      errors := server.errors ++ [getError e] }

/-- The loop, through its handlers or a functor, has a pointer to the acceptor. -/
def Listener.alive (l : Listener) : Bool := l.acceptor.inHandlers || !l.functors.isEmpty

/-- `stopListen` up to the test of the pointer. A loop that has run a functor or handles an event
of the acceptor may have a pointer for a while: `held`. -/
def lock (server : TcpServer) (held : Bool) : TcpServer :=
  match server.acceptor with
  | none => server
  | some id =>
      match server.listeners[id]? with
      | none => server
      | some l => if l.alive || held then { server with phase := .stops id } else server

def Listener.queue (l : Listener) (f : Functor) : Listener :=
  { l with functors := l.functors ++ [f] }

/-- The acceptor queues its functor, and the method returns. -/
def runInLoop (server : TcpServer) (id : Nat) (f : Functor) : TcpServer := { server with
  listeners := server.listeners.modify id fun l => l.queue f
  phase := .outside }

/-- The loop runs a functor. An exception that leaves it is one that leaves `Socket::listen`, and
ends the loop. -/
def Listener.run (l : Listener) (bind listen : Answer Unit) : Functor → Listener
  | .listen =>
      match l.acceptor.listenFunctor bind listen with
      | .ok a => { l with acceptor := a }
      | .error _ => { l with
          acceptor := Acceptor.activeIn { l.acceptor with inHandlers := true }
          ended := true }
  | .stop => { l with acceptor := l.acceptor.stopFunctor }

/-! ## Steps -/

inductive Event where
  /-- The user calls `listen`. -/
  | listen (answer : Answer Int) (ctlAnswers : Nat → Answer Unit) (ptr : Nat)
  /-- The user calls `stopListen` or destroys the server. -/
  | stopListen (held : Bool)
  /-- The method goes on and returns. -/
  | returns
  /-- The loop of an acceptor runs the next functor, with the answers of its system calls. -/
  | functor (id : Nat) (bind listen : Answer Unit)

/-- The event cannot happen here. -/
inductive Disabled where
  | disabled

def step (server : TcpServer) : Event → Except Disabled TcpServer
  | .listen answer ctlAnswers ptr =>
      if server.phase = .outside then .ok (server.makeAcceptor answer ctlAnswers ptr)
      else .error .disabled
  | .stopListen held =>
      if server.phase = .outside then .ok (server.lock held) else .error .disabled
  | .returns =>
      match server.phase with
      | .outside => .error .disabled
      | .listens id => .ok (server.runInLoop id .listen)
      | .stops id => .ok (server.runInLoop id .stop)
  | .functor id bind listen =>
      match server.listeners[id]? with
      | none => .error .disabled
      | some l =>
          if l.ended then .error .disabled
          else
            match l.functors with
            | [] => .error .disabled
            | f :: rest => .ok { server with
                listeners := server.listeners.set id
                  (Listener.run { l with functors := rest } bind listen f) }

/-! ## What a stop does -/

instance (a : Acceptor) : Decidable a.known := inferInstanceAs (Decidable (_ ∨ _))

/-- The acceptor is closed, and neither its loop nor epoll knows it. -/
def Off (a : Acceptor) : Prop := a.state = .Closed ∧ ¬a.known

/-- The acceptor does not listen when the loop has run the functors in its queue. -/
def Listener.Stopping (l : Listener) : Prop :=
  l.functors.getLast? = some .stop ∨ l.functors = [] ∧ Off l.acceptor

instance (l : Listener) : Decidable l.Stopping :=
  inferInstanceAs (Decidable (_ ∨ _ ∧ _ ∧ ¬_))

/-- What has happened in a run. -/
structure History where
  /-- The acceptors that `listen` has replaced when they were not to stop. -/
  replaced : List Nat
  /-- `stopListen` has returned, and `listen` has not been called since. -/
  stopped : Bool

/-- The acceptor that the pointer leads to, unless it is to stop. -/
def current (server : TcpServer) : List Nat :=
  server.acceptor.toList.filter fun id =>
    server.listeners[id]?.any fun l => ¬l.Stopping

def record (server : TcpServer) (e : Event) (h : History) : History :=
  match e with
  | .listen .. => ⟨h.replaced ++ server.current, false⟩
  | .stopListen held => { h with stopped := h.stopped || (server.lock held).phase = .outside }
  | .returns =>
      match server.phase with
      | .stops _ => { h with stopped := true }
      | _ => h
  | .functor .. => h

/-- After `stopListen` exactly the acceptors that have been replaced go on listening. -/
def StopsUnlessReplaced (s : TcpServer × History) : Prop :=
  (s.2.stopped = true → ∀ id l, s.1.listeners[id]? = some l → id ∉ s.2.replaced → l.Stopping) ∧
    ∀ id ∈ s.2.replaced, ∃ l, s.1.listeners[id]? = some l ∧ ¬l.Stopping

/-! ## The invariant -/

/-- An acceptor that is known or listens is in the handler set of its loop. -/
def Registered (a : Acceptor) : Prop := ¬Off a → a.inHandlers = true

structure Tidy (s : TcpServer × History) : Prop where
  acceptor : ∀ id, s.1.acceptor = some id → id < s.1.listeners.length
  phase : ∀ id, s.1.phase = .listens id ∨ s.1.phase = .stops id → s.1.acceptor = some id
  registered : ∀ l ∈ s.1.listeners, Registered l.acceptor
  replaced : ∀ id ∈ s.2.replaced, s.1.acceptor ≠ some id ∧
    ∃ l, s.1.listeners[id]? = some l ∧ ¬l.Stopping
  others : ∀ id l, s.1.listeners[id]? = some l → s.1.acceptor ≠ some id →
    id ∉ s.2.replaced → l.Stopping
  listens : ∀ id, s.1.phase = .listens id → s.2.stopped = false
  current : s.2.stopped = true → ∀ id l, s.1.acceptor = some id →
    s.1.listeners[id]? = some l → l.Stopping

theorem Tidy.stopsUnlessReplaced {s : TcpServer × History} (h : Tidy s) :
    StopsUnlessReplaced s := by
  refine ⟨fun hstopped id l hl hkept => ?_, fun id hid => (h.replaced id hid).2⟩
  by_cases hacceptor : s.1.acceptor = some id
  · exact h.current hstopped id l hacceptor hl
  · exact h.others id l hl hacceptor hkept

theorem new_tidy : Tidy (new, ⟨[], false⟩) := by
  refine ⟨?_, ?_, ?_, ?_, ?_, ?_, ?_⟩ <;> simp [new]

/-! ## The loop of an acceptor -/

section Loop

variable {a a' : Acceptor} {l : Listener} {f : Functor} {rest : List Functor}
variable {bind listen : Answer Unit}

theorem not_off_of_inHandlers (h : a.inHandlers = true) : ¬Off a := fun hoff => hoff.2 (.inl h)

/-- After `stop` nothing knows the acceptor. -/
theorem off_stopFunctor (a : Acceptor) : Off a.stopFunctor := by
  refine ⟨rfl, ?_⟩
  rintro (hhandlers | hepoll)
  · cases hhandlers
  · have hevents : a.stopFunctor.epoll.events =
        Function.update a.epoll.events a.epollEvent.watchingFd none :=
      Epoll.removeEvent_events ..
    change a.stopFunctor.epoll.events a.epollEvent.watchingFd = _ at hepoll
    rw [hevents, Function.update_self] at hepoll
    cases hepoll

/-- After `listen` the acceptor is in the handler set, whether it listens or not. -/
theorem run_listen_inHandlers (hregistered : Registered l.acceptor) :
    (l.run bind listen .listen).acceptor.inHandlers = true := by
  rw [Listener.run]
  split
  case h_1 a hok =>
    by_cases hclosed : l.acceptor.state = .Closed
    · exact Acceptor.listenFunctor_inHandlers hclosed hok
    · rw [Acceptor.listenFunctor, if_neg hclosed] at hok
      cases hok
      exact hregistered fun hoff => hclosed hoff.1
  case h_2 => rfl

theorem run_functors (l : Listener) (bind listen : Answer Unit) (f : Functor) :
    (l.run bind listen f).functors = l.functors := by
  cases f with
  | stop => rfl
  | listen =>
      rw [Listener.run]
      split <;> rfl

theorem run_registered (hregistered : Registered l.acceptor) :
    Registered (l.run bind listen f).acceptor := by
  intro hoff
  cases f with
  | stop => exact absurd (off_stopFunctor l.acceptor) hoff
  | listen => exact run_listen_inHandlers hregistered

/-- An acceptor is to stop after a functor has run exactly if it was before. -/
theorem run_stopping (hregistered : Registered l.acceptor) (hfunctors : l.functors = f :: rest) :
    (Listener.run { l with functors := rest } bind listen f).Stopping ↔ l.Stopping := by
  rw [Listener.Stopping, Listener.Stopping, run_functors, hfunctors]
  cases rest with
  | cons g rest => simp [List.getLast?_cons_cons]
  | nil =>
      cases f with
      | stop => exact iff_of_true (.inr ⟨rfl, off_stopFunctor _⟩) (.inl rfl)
      | listen =>
          have hknown : (Listener.run { l with functors := [] } bind listen .listen
              ).acceptor.inHandlers = true := run_listen_inHandlers hregistered
          refine iff_of_false ?_ (by simp)
          rintro (hlast | ⟨-, hoff⟩)
          · cases hlast
          · exact not_off_of_inHandlers hknown hoff

end Loop

/-! ## What the events do -/

section Events

variable {s : TcpServer × History} {l : Listener} {id : Nat} {f : Functor} {rest : List Functor}
variable {bind listen : Answer Unit}

theorem mem_current {server : TcpServer} : id ∈ server.current ↔
    server.acceptor = some id ∧ ∃ l, server.listeners[id]? = some l ∧ ¬l.Stopping := by
  simp only [current, List.mem_filter, Option.mem_toList, Option.any_eq_true,
    decide_eq_true_eq]

/-- With the acceptor that is replaced, the replaced ones are those that are not to stop. -/
theorem Tidy.mem_replaced_iff (h : Tidy s) (hl : s.1.listeners[id]? = some l) :
    id ∈ s.2.replaced ++ s.1.current ↔ ¬l.Stopping := by
  rw [List.mem_append, mem_current]
  constructor
  · rintro (hreplaced | ⟨-, m, hm, hstopping⟩)
    · obtain ⟨-, m, hm, hstopping⟩ := h.replaced id hreplaced
      cases hl.symm.trans hm
      exact hstopping
    · cases hl.symm.trans hm
      exact hstopping
  · intro hstopping
    by_cases hacceptor : s.1.acceptor = some id
    · exact .inr ⟨hacceptor, l, hl, hstopping⟩
    · exact .inl (not_imp_comm.mp (h.others id l hl hacceptor) hstopping)

theorem Tidy.exists_of_mem_replaced (h : Tidy s) (hid : id ∈ s.2.replaced ++ s.1.current) :
    ∃ l, s.1.listeners[id]? = some l ∧ ¬l.Stopping := by
  rcases List.mem_append.mp hid with hreplaced | hcurrent
  · exact (h.replaced id hreplaced).2
  · exact (mem_current.mp hcurrent).2

/-- The acceptor is left to itself when the pointer no longer leads to it. -/
theorem Tidy.without_acceptor (h : Tidy s) (hs : s.1.phase = .outside)
    (errors : List SocketError) : Tidy ({ s.1 with acceptor := none, errors := errors },
      ⟨s.2.replaced ++ s.1.current, false⟩) where
  acceptor _ hid := nomatch hid
  phase id hid := by
    rcases hid with hid | hid <;> exact absurd (hs.symm.trans hid) nofun
  registered := h.registered
  replaced id hid := ⟨nofun, h.exists_of_mem_replaced hid⟩
  others id l hl _ hkept := not_not.mp (mt (h.mem_replaced_iff hl).mpr hkept)
  listens id hid := absurd (hs.symm.trans hid) nofun
  current hstopped := nomatch hstopped

theorem off_makeAcceptor (ctlAnswers : Nat → Answer Unit) (ptr : Nat) (fd : Int) :
    Off (Acceptor.makeAcceptor ctlAnswers ptr fd) := by
  refine ⟨rfl, ?_⟩
  rintro (hhandlers | hepoll)
  · cases hhandlers
  · cases hepoll

theorem Tidy.with_acceptor (h : Tidy s) (hregistered : Registered l.acceptor) :
    Tidy ({ s.1 with
        acceptor := some s.1.listeners.length
        listeners := s.1.listeners ++ [l]
        phase := .listens s.1.listeners.length },
      ⟨s.2.replaced ++ s.1.current, false⟩) where
  acceptor id hid := by
    cases hid
    simp
  phase id hid := by
    rcases hid with hid | hid <;> cases hid
    rfl
  registered m hm := by
    rcases List.mem_append.mp hm with hm | hm
    · exact h.registered m hm
    · cases List.mem_singleton.mp hm
      exact hregistered
  replaced id hid := by
    obtain ⟨m, hm, hstopping⟩ := h.exists_of_mem_replaced hid
    have hlt : id < s.1.listeners.length := (List.getElem?_eq_some_iff.mp hm).1
    refine ⟨fun hacceptor => hlt.ne' (Option.some.inj hacceptor), m, ?_, hstopping⟩
    exact (List.getElem?_append_left hlt).trans hm
  others id m hm hacceptor hkept := by
    have hlt : id < s.1.listeners.length := by
      have hid : id < (s.1.listeners ++ [l]).length := (List.getElem?_eq_some_iff.mp hm).1
      have hne : s.1.listeners.length ≠ id := fun heq => hacceptor (congrArg some heq)
      rw [List.length_append, List.length_singleton] at hid
      omega
    have hm' : s.1.listeners[id]? = some m := (List.getElem?_append_left hlt).symm.trans hm
    exact not_not.mp (mt (h.mem_replaced_iff hm').mpr hkept)
  listens id hid := rfl
  current hstopped := nomatch hstopped

theorem Tidy.makeAcceptor (h : Tidy s) (hs : s.1.phase = .outside) (answer : Answer Int)
    (ctlAnswers : Nat → Answer Unit) (ptr : Nat) :
    Tidy (s.1.makeAcceptor answer ctlAnswers ptr, ⟨s.2.replaced ++ s.1.current, false⟩) := by
  unfold TcpServer.makeAcceptor
  split
  · exact h.with_acceptor fun hoff => absurd (off_makeAcceptor ..) hoff
  · exact h.without_acceptor hs _
  · exact h.without_acceptor hs _

theorem getElem?_set_of_some {ls : List Listener} (h : ls[id]? = some l) (l' : Listener) :
    (ls.set id l')[id]? = some l' :=
  List.getElem?_set_self (List.getElem?_eq_some_iff.mp h).1

/-- What can happen to an acceptor in its loop, and to the one that the pointer leads to. -/
theorem Tidy.set (h : Tidy s) (hl : s.1.listeners[id]? = some l) {l' : Listener}
    (hregistered : Registered l'.acceptor)
    (hstopping : s.1.acceptor ≠ some id → (l'.Stopping ↔ l.Stopping))
    {phase : Phase} {stopped : Bool}
    (hphase : phase = .outside ∨ phase = s.1.phase ∧ stopped = s.2.stopped)
    (hcurrent : stopped = true → s.1.acceptor = some id → l'.Stopping)
    (hstopped : stopped = true → s.2.stopped = true ∨ s.1.acceptor = some id) :
    Tidy ({ s.1 with listeners := s.1.listeners.set id l', phase := phase },
      ⟨s.2.replaced, stopped⟩) where
  acceptor id' hid := by
    rw [List.length_set]
    exact h.acceptor id' hid
  phase id' hid := by
    rcases hphase with rfl | ⟨rfl, -⟩
    · rcases hid with hid | hid <;> cases hid
    · exact h.phase id' hid
  registered m hm := by
    rcases List.mem_or_eq_of_mem_set hm with hm | rfl
    · exact h.registered m hm
    · exact hregistered
  replaced id' hid := by
    obtain ⟨hacceptor, m, hm, hnot⟩ := h.replaced id' hid
    refine ⟨hacceptor, ?_⟩
    by_cases heq : id = id'
    · subst heq
      cases hl.symm.trans hm
      exact ⟨l', getElem?_set_of_some hl l', fun hl' => hnot ((hstopping hacceptor).mp hl')⟩
    · exact ⟨m, (List.getElem?_set_ne heq).trans hm, hnot⟩
  others id' m hm hacceptor hkept := by
    by_cases heq : id = id'
    · subst heq
      cases hm.symm.trans (getElem?_set_of_some hl l')
      exact (hstopping hacceptor).mpr (h.others id l hl hacceptor hkept)
    · exact h.others id' m ((List.getElem?_set_ne heq).symm.trans hm) hacceptor hkept
  listens id' hid := by
    rcases hphase with rfl | ⟨rfl, rfl⟩
    · cases hid
    · exact h.listens id' hid
  current hs id' m hacceptor hm := by
    by_cases heq : id = id'
    · subst heq
      cases hm.symm.trans (getElem?_set_of_some hl l')
      exact hcurrent hs hacceptor
    · rcases hstopped hs with hbefore | hid
      · exact h.current hbefore id' m hacceptor ((List.getElem?_set_ne heq).symm.trans hm)
      · exact absurd (Option.some.inj (hid.symm.trans hacceptor)) heq

theorem Tidy.functor (h : Tidy s) (hl : s.1.listeners[id]? = some l)
    (hfunctors : l.functors = f :: rest) :
    Tidy ({ s.1 with
      listeners := s.1.listeners.set id
        (Listener.run { l with functors := rest } bind listen f) }, s.2) := by
  have hregistered := h.registered l (List.mem_of_getElem? hl)
  have hstopping : (Listener.run { l with functors := rest } bind listen f).Stopping ↔
      l.Stopping := run_stopping hregistered hfunctors
  have hrun : Registered (Listener.run { l with functors := rest } bind listen f).acceptor :=
    run_registered hregistered
  refine h.set hl hrun (fun _ => hstopping) (.inr ⟨rfl, rfl⟩) ?_ .inl
  exact fun hstopped hacceptor => hstopping.mpr (h.current hstopped id l hacceptor hl)

/-- The acceptor is to stop exactly if `stop` is its last functor. -/
theorem queue_stopping (l : Listener) (f : Functor) : (l.queue f).Stopping ↔ f = .stop := by
  simp [Listener.Stopping, Listener.queue]

theorem Tidy.runInLoop (h : Tidy s) (hacceptor : s.1.acceptor = some id) {stopped : Bool}
    (hstopped : stopped = true → f = .stop) :
    Tidy (s.1.runInLoop id f, ⟨s.2.replaced, stopped⟩) := by
  have hlt : id < s.1.listeners.length := h.acceptor id hacceptor
  have hl : s.1.listeners[id]? = some s.1.listeners[id] := List.getElem?_eq_getElem hlt
  have hregistered : Registered (s.1.listeners[id].queue f).acceptor :=
    h.registered s.1.listeners[id] (List.getElem_mem hlt)
  rw [TcpServer.runInLoop, List.modify_eq_set_get _ hlt]
  exact h.set hl hregistered (absurd hacceptor) (.inl rfl)
    (fun hs _ => (queue_stopping ..).mpr (hstopped hs)) (fun _ => .inr hacceptor)

/-- Nothing holds the acceptor: it is closed already. -/
theorem stopping_of_not_alive (hregistered : Registered l.acceptor) (h : ¬l.alive = true) :
    l.Stopping := by
  have hnone : l.acceptor.inHandlers = false ∧ l.functors = [] := by
    simpa [Listener.alive] using h
  refine .inr ⟨hnone.2, not_imp_comm.mp hregistered ?_⟩
  rw [hnone.1]
  exact Bool.false_ne_true

/-- `stopListen` returns at once, or calls the `stop` of the acceptor. -/
theorem Tidy.lock_cases (h : Tidy s) (held : Bool) :
    (s.1.lock held = s.1 ∧ ∀ id l, s.1.acceptor = some id → s.1.listeners[id]? = some l →
      l.Stopping) ∨
    ∃ id, s.1.acceptor = some id ∧ s.1.lock held = { s.1 with phase := .stops id } := by
  cases hacceptor : s.1.acceptor with
  | none => exact .inl ⟨by rw [TcpServer.lock, hacceptor], nofun⟩
  | some id =>
      have hlt : id < s.1.listeners.length := h.acceptor id hacceptor
      have hl : s.1.listeners[id]? = some s.1.listeners[id] := List.getElem?_eq_getElem hlt
      by_cases hlocked : (s.1.listeners[id].alive || held) = true
      · exact .inr ⟨id, rfl, by simp only [TcpServer.lock, hacceptor, hl, hlocked, if_true]⟩
      · refine .inl ⟨?_, fun id' m hid hm => ?_⟩
        · simp only [TcpServer.lock, hacceptor, hl, if_neg hlocked]
        · cases hid
          cases hl.symm.trans hm
          have hdead : ¬s.1.listeners[id].alive = true := fun halive =>
            hlocked (Bool.or_eq_true_iff.mpr (.inl halive))
          exact stopping_of_not_alive (h.registered _ (List.getElem_mem hlt)) hdead

theorem Tidy.lock (h : Tidy s) (hs : s.1.phase = .outside) (held : Bool) :
    Tidy (s.1.lock held, record s.1 (.stopListen held) s.2) := by
  rcases h.lock_cases held with ⟨hlock, hmissing⟩ | ⟨id, hacceptor, hlock⟩
  · simp only [record, hlock, hs]
    exact { h with
      listens := fun id hid => absurd (hs.symm.trans hid) nofun
      current := fun _ => hmissing }
  · have hstopped : record s.1 (.stopListen held) s.2 = s.2 := by simp [record, hlock]
    rw [hstopped, hlock]
    exact { h with
      phase := fun id' hid => by
        rcases hid with hid | hid <;> cases hid
        exact hacceptor
      listens := fun id hid => nomatch hid }

theorem Tidy.step {s' : TcpServer × History} {e : Event} (h : Tidy s)
    (hok : Run.recorded step record s e = .ok s') : Tidy s' := by
  obtain ⟨hstep, hrecord⟩ := Run.recorded_ok hok
  rw [show s' = (s'.1, record s.1 e s.2) from Prod.ext rfl hrecord]
  cases e with
  | listen answer ctlAnswers ptr =>
      simp only [TcpServer.step] at hstep
      split at hstep
      case isFalse => cases hstep
      case isTrue hs =>
        rw [← Except.ok.inj hstep]
        exact h.makeAcceptor hs answer ctlAnswers ptr
  | stopListen held =>
      simp only [TcpServer.step] at hstep
      split at hstep
      case isFalse => cases hstep
      case isTrue hs =>
        rw [← Except.ok.inj hstep]
        exact h.lock hs held
  | returns =>
      simp only [TcpServer.step] at hstep
      split at hstep
      case h_1 => cases hstep
      case h_2 id hs =>
        rw [← Except.ok.inj hstep, record, hs]
        exact h.runInLoop (h.phase id (.inl hs)) fun hstopped =>
          absurd ((h.listens id hs).symm.trans hstopped) nofun
      case h_3 id hs =>
        rw [← Except.ok.inj hstep, record, hs]
        exact h.runInLoop (h.phase id (.inr hs)) fun _ => rfl
  | functor id bind listen =>
      simp only [TcpServer.step] at hstep
      split at hstep
      case h_1 => cases hstep
      case h_2 l hl =>
        split at hstep
        case isTrue => cases hstep
        case isFalse =>
          split at hstep
          case h_1 => cases hstep
          case h_2 f rest hfunctors =>
            rw [← Except.ok.inj hstep]
            exact h.functor hl hfunctors

/-- `stopListen` stops all acceptors but those that `listen` has replaced before they were asked
to stop, and these are never stopped. -/
theorem stops_unless_replaced (events : List Event) :
    Run.Always (Run.recorded step record)
      (Run.After (Run.recorded step record) StopsUnlessReplaced) (new, ⟨[], false⟩) events :=
  (Run.always_of_invariant (fun _ _ _ h hok => h.step hok) new_tidy events).mono
    fun _ _ hafter s' hok => (hafter s' hok).stopsUnlessReplaced

end Events

end TcpServer

end Netpp
