import Netpp.EventLoop.Moves

/-!
# Numbers that are used again

When a descriptor is closed, the table of epoll should have no entry for it: its
number may be given to the next object, whose event is then registered by a change
and not as new, and which a late removal of the old object unregisters. But a
`Timer` is registered from its creation on, and its destructor closes the timerfd
before the handler is removed. A connector closes its old socket when the retry
timer has expired, which may be before the attempt has had an outcome. `Orderly`
rules out both, and `tidy_iff_orderly` shows that this is exact.
-/

namespace Netpp

namespace EventLoop

variable {l l' : EventLoop} {e : Event} {id : Nat}

/-! ## Steps of the loop -/

/-- A step, with what it does. -/
inductive Stepped (l : EventLoop) : Event → EventLoop → Prop
  | createTimer (id fd) (hnone : l.objects id = none) :
      Stepped l (.createTimer id fd) (l.createTimer id fd)
  | destroyTimer (id timer) (htimer : l.objects id = some (.timer timer)) :
      Stepped l (.destroyTimer id) (l.destroyTimer id timer)
  | makeConnector (id fd) (hnone : l.objects id = none) :
      Stepped l (.makeConnector id fd) (l.makeConnector id fd)
  | destroyConnector (id c) (hconnector : l.objects id = some (.connector c)) :
      Stepped l (.destroyConnector id) (l.destroyConnector id c)
  | connector (id e c c') (hconnector : l.objects id = some (.connector c))
      (hstep : (l.enter c).Stepped e c') : Stepped l (.connector id e) (l.leave id c')
  | remove (event removals) (hremovals : l.removals = event :: removals) :
      Stepped l .remove { l.disable event with removals := removals }

theorem handle_ok (h : l.handle e = .ok l') : Stepped l e l' := by
  cases e with
  | createTimer id fd =>
      cases hobject : l.objects id with
      | none =>
          simp only [handle, hobject] at h
          cases h
          exact .createTimer id fd hobject
      | some o => simp [handle, hobject] at h
  | destroyTimer id =>
      simp only [handle] at h
      split at h
      · rename_i timer hobject
        cases h
        exact .destroyTimer id timer hobject
      · cases h
  | makeConnector id fd =>
      cases hobject : l.objects id with
      | none =>
          simp only [handle, hobject] at h
          cases h
          exact .makeConnector id fd hobject
      | some o => simp [handle, hobject] at h
  | destroyConnector id =>
      simp only [handle] at h
      split at h
      · rename_i c hobject
        split at h
        · cases h
        · cases h
          exact .destroyConnector id c hobject
      · cases h
  | connector id e =>
      simp only [handle] at h
      split at h
      · rename_i c hobject
        obtain ⟨c', hstep, rfl⟩ := Except.exists_of_map_eq_ok h
        exact .connector id e c c' hobject (Connector.step_ok hstep)
      · cases h
  | remove =>
      cases hremovals : l.removals with
      | nil => simp [handle, hremovals] at h
      | cons event removals =>
          simp only [handle, hremovals] at h
          cases h
          exact .remove event removals hremovals

/-- A step that is made gets numbers that are not in use. -/
theorem step_ok (h : l.step e = .ok l') :
    (∀ fd ∈ e.newFds, l.isOpen fd = false) ∧ Stepped l e l' := by
  unfold step at h
  split at h
  · rename_i havailable
    constructor
    · intro fd hfd
      have hnew := List.all_eq_true.mp havailable fd hfd
      simp only [available, Bool.and_eq_true, Bool.not_eq_true'] at hnew
      exact hnew.2
    · exact handle_ok h
  · cases h

/-! ## Closed descriptors and the table -/

/-- The handler that the step removes. -/
def removes (l : EventLoop) : Event → Option (EpollEvent Nat)
  | .remove => l.removals.head?
  | .connector id (.functor _) =>
      match l.objects id with
      | some (.connector c) => c.functors.head?.bind removal
      | _ => none
  | _ => none

/-- What the table promises for a step from `l` to `l'`. -/
structure Tidy (l : EventLoop) (e : Event) (l' : EventLoop) : Prop where
  closed : ∀ fd, l'.isOpen fd = false → l'.epoll.events fd = none
  added : ∀ fd ∈ e.newFds, l.epoll.events fd = none
  own : ∀ event, l.removes e = some event →
    l.epoll.events event.watchingFd = none ∨ l.epoll.events event.watchingFd = some event.ptr

/-- No timer is destroyed, and no socket that is registered is closed. -/
def Orderly (l : EventLoop) : Event → Prop
  | .destroyTimer _ => False
  | .destroyConnector id => ∀ c, l.objects id = some (.connector c) →
      c.retryTimer = none ∧ (c.socket.isSome → ¬(l.enter c).registered)
  | .connector id e => ∀ c, l.objects id = some (.connector c) → (l.enter c).Spares e
  | _ => True

def Object.Sound (events : Int → Option Nat) : Object → Prop
  | .timer t => events t.handlerEvent.watchingFd = some t.handlerEvent.ptr
  | .connector c => c.Sound events
  | .connection _ => True

/-- The invariant: the objects hold different descriptors, which are in use, and the
table knows no others. -/
structure Sound (l : EventLoop) : Prop where
  clean : ∀ fd, l.isOpen fd = false → l.epoll.events fd = none
  inUse : ∀ id, ∀ fd ∈ held (l.objects id), l.isOpen fd = true
  apart : ∀ id id' fd, fd ∈ held (l.objects id) → fd ∈ held (l.objects id') → id = id'
  objects : ∀ id o, l.objects id = some o → o.Sound l.epoll.events
  removals : l.removals = []

theorem new_sound (ctlAnswers : Nat → Answer Unit) (isOpen : Int → Bool) :
    (new ctlAnswers isOpen).Sound where
  clean _ _ := rfl
  inUse _ _ hfd := absurd hfd List.not_mem_nil
  apart _ _ _ hfd _ := absurd hfd List.not_mem_nil
  objects _ _ h := absurd h (Option.some_ne_none _).symm
  removals := rfl

theorem Object.Sound.congr {events events' : Int → Option Nat} {o : Object}
    (h : o.Sound events) (hsame : ∀ fd ∈ o.descriptors, events' fd = events fd) :
    o.Sound events' := by
  cases o with
  | timer t => exact (hsame _ List.mem_cons_self).trans h
  | connector c =>
      constructor
      · intro socket hsocket
        obtain ⟨hfd, hentry⟩ := Connector.Sound.socket h socket hsocket
        rw [hsame socket.fd (Connector.mem_descriptors.mpr (.inl hfd))]
        exact ⟨hfd, hentry⟩
      · intro timer htimer
        rw [hsame _ (Connector.mem_descriptors.mpr (.inr ⟨timer, htimer, rfl⟩))]
        exact Connector.Sound.timer h timer htimer
      · exact Connector.Sound.functors h
  | connection fd => trivial

theorem replace_isOpen (l : EventLoop) (id : Nat) (o : Option Object) (fd : Int) :
    (l.replace id o).isOpen fd = true ↔
      (l.isOpen fd = true ∧ fd ∉ held (l.objects id)) ∨ fd ∈ held o := by
  simp [replace]

/-- What has been held and is not held any more is closed. -/
theorem replace_closes {o : Option Object} {fd : Int} (hold : fd ∈ held (l.objects id))
    (hnot : fd ∉ held o) : (l.replace id o).isOpen fd = false := by
  rw [← Bool.not_eq_true, replace_isOpen]
  rintro (⟨-, h⟩ | h)
  · exact h hold
  · exact hnot h

/-- A step that changes one object and the entries of its descriptors. -/
theorem Sound.replaced (h : l.Sound) (id : Nat) (o : Option Object) (l' : EventLoop)
    (hobjects : l'.objects = Function.update l.objects id o)
    (hisOpen : l'.isOpen = (l.replace id o).isOpen) (hremovals : l'.removals = [])
    (hframe : ∀ fd ∉ held (l.objects id), fd ∉ held o →
      l'.epoll.events fd = l.epoll.events fd)
    (hclosed : ∀ fd ∈ held (l.objects id), fd ∉ held o → l'.epoll.events fd = none)
    (hfresh : ∀ fd ∈ held o, fd ∈ held (l.objects id) ∨ l.isOpen fd = false)
    (hsound : ∀ p, o = some p → p.Sound l'.epoll.events) : l'.Sound := by
  have hself : l'.objects id = o := by rw [hobjects, Function.update_self]
  have hother : ∀ id' ≠ id, l'.objects id' = l.objects id' := by
    intro id' hne
    rw [hobjects, Function.update_of_ne hne]
  -- what another object holds is neither held by the old object nor by the new one
  have hapart : ∀ id' ≠ id, ∀ fd ∈ held (l.objects id'),
      fd ∉ held (l.objects id) ∧ fd ∉ held o := by
    intro id' hne fd hfd
    have hold : fd ∉ held (l.objects id) := fun hmem => hne (h.apart id' id fd hfd hmem)
    refine ⟨hold, fun hmem => ?_⟩
    rcases hfresh fd hmem with hmem | hunused
    · exact hold hmem
    · rw [h.inUse id' fd hfd] at hunused
      cases hunused
  constructor
  · intro fd hfd
    rw [hisOpen, ← Bool.not_eq_true, replace_isOpen, not_or, not_and, not_not] at hfd
    by_cases hold : fd ∈ held (l.objects id)
    · exact hclosed fd hold hfd.2
    · rw [hframe fd hold hfd.2]
      exact h.clean fd (eq_false_of_ne_true fun hopen => hold (hfd.1 hopen))
  · intro id' fd hfd
    rw [hisOpen, replace_isOpen]
    by_cases hid : id' = id
    · rw [hid, hself] at hfd
      exact .inr hfd
    · rw [hother id' hid] at hfd
      exact .inl ⟨h.inUse id' fd hfd, (hapart id' hid fd hfd).1⟩
  · intro id₁ id₂ fd h₁ h₂
    by_cases hid₁ : id₁ = id <;> by_cases hid₂ : id₂ = id
    · rw [hid₁, hid₂]
    · rw [hid₁, hself] at h₁
      rw [hother id₂ hid₂] at h₂
      exact absurd h₁ (hapart id₂ hid₂ fd h₂).2
    · rw [hid₂, hself] at h₂
      rw [hother id₁ hid₁] at h₁
      exact absurd h₂ (hapart id₁ hid₁ fd h₁).2
    · rw [hother id₁ hid₁] at h₁
      rw [hother id₂ hid₂] at h₂
      exact h.apart id₁ id₂ fd h₁ h₂
  · intro id' p hp
    by_cases hid : id' = id
    · rw [hid, hself] at hp
      exact hsound p hp
    · rw [hother id' hid] at hp
      apply (h.objects id' p hp).congr
      intro fd hfd
      have hheld : fd ∈ held (l.objects id') := by
        rw [hp]
        exact hfd
      obtain ⟨hold, hnew⟩ := hapart id' hid fd hheld
      exact hframe fd hold hnew
  · exact hremovals

/-- The connector of a sound loop is sound as part of it. -/
theorem Sound.enter (h : l.Sound) {c : Connector} (hc : l.objects id = some (.connector c)) :
    (l.enter c).Sound (l.enter c).epoll.events :=
  have hsound : c.Sound l.epoll.events := h.objects id _ hc
  ⟨hsound.socket, hsound.timer, hsound.functors⟩

theorem held_connector {c : Connector} (hc : l.objects id = some (.connector c)) :
    held (l.objects id) = c.descriptors := by
  rw [hc]
  rfl

/-- A new number is not one of a connector of the loop. -/
theorem Sound.fresh (h : l.Sound) (hnew : ∀ fd ∈ e.newFds, l.isOpen fd = false) {c : Connector}
    (hc : l.objects id = some (.connector c)) : ∀ fd ∈ e.newFds, fd ∉ c.descriptors := by
  intro fd hfd hmem
  rw [← held_connector hc] at hmem
  have hclosed := hnew fd hfd
  rw [h.inUse id fd hmem] at hclosed
  cases hclosed

/-- A new object, of one descriptor. -/
theorem Sound.created (h : l.Sound) (hnone : l.objects id = none) (o : Object) (l' : EventLoop)
    {fd : Int} (hdescriptors : o.descriptors = [fd]) (hclosed : l.isOpen fd = false)
    (hobjects : l'.objects = Function.update l.objects id (some o))
    (hisOpen : l'.isOpen = (l.replace id (some o)).isOpen) (hremovals : l'.removals = l.removals)
    (hframe : ∀ fd' ≠ fd, l'.epoll.events fd' = l.epoll.events fd')
    (hsound : o.Sound l'.epoll.events) : l'.Sound := by
  have hold : held (l.objects id) = [] := by
    rw [hnone]
    rfl
  have hheld : held (some o) = [fd] := hdescriptors
  apply h.replaced id (some o) l' hobjects hisOpen (hremovals.trans h.removals)
  · intro fd' _ hnot
    rw [hheld, List.mem_singleton] at hnot
    exact hframe fd' hnot
  · intro fd' hmem
    rw [hold] at hmem
    cases hmem
  · intro fd' hmem
    rw [hheld, List.mem_singleton] at hmem
    rw [hmem]
    exact .inr hclosed
  · intro p hp
    cases hp
    exact hsound

theorem Sound.createTimer (h : l.Sound) (hnone : l.objects id = none) {fd : Int}
    (hclosed : l.isOpen fd = false) : (l.createTimer id fd).Sound := by
  have hevents : (l.createTimer id fd).epoll.events =
      Function.update l.epoll.events fd (some l.nextPtr) := Epoll.updateEvent_events ..
  apply h.created hnone _ (l.createTimer id fd) _ hclosed rfl rfl rfl
  · intro fd' hne
    rw [hevents, Function.update_of_ne hne]
  · change (l.createTimer id fd).epoll.events fd = some l.nextPtr
    rw [hevents, Function.update_self]
  · rfl

theorem Sound.makeConnector (h : l.Sound) (hnone : l.objects id = none) {fd : Int}
    (hclosed : l.isOpen fd = false) : (l.makeConnector id fd).Sound := by
  apply h.created hnone _ (l.makeConnector id fd) _ hclosed rfl rfl rfl
  · intro fd' _
    rfl
  · constructor
    · intro socket hsocket
      cases hsocket
      exact ⟨rfl, .inl (h.clean fd hclosed)⟩
    · intro timer htimer
      cases htimer
    · intro functor hfunctor
      cases hfunctor
  · rfl

/-- A connector without a retry timer and without a registered socket. -/
theorem Sound.destroyConnector (h : l.Sound) {c : Connector}
    (hc : l.objects id = some (.connector c)) (htimer : c.retryTimer = none)
    (hunregistered : c.socket.isSome → ¬(l.enter c).registered) :
    (l.destroyConnector id c).Sound := by
  have hstop : (l.enter c).stopTimer = l.enter c := Connector.stopTimer_of_none htimer
  have hsound := h.enter hc
  have hfunctors : c.functors.filterMap removal = [] :=
    List.filterMap_eq_nil_iff.mpr hsound.functors
  have hheld : held (l.objects id) = [c.epollEvent.watchingFd] := by
    rw [held_connector hc, Connector.descriptors, htimer]
    rfl
  have hevents : (l.destroyConnector id c).epoll.events = l.epoll.events := by
    unfold EventLoop.destroyConnector
    rw [hstop]
    cases hsocket : c.socket <;> simp [EventLoop.enter, hsocket, Epoll.close]
  apply h.replaced id _ (l.destroyConnector id c) rfl rfl
  · unfold EventLoop.destroyConnector
    rw [hstop]
    simp [EventLoop.enter, hfunctors, h.removals]
  · intro fd _ _
    rw [hevents]
  · intro fd hmem hnot
    rw [hheld, List.mem_singleton] at hmem
    rw [hevents, hmem]
    cases hsocket : c.socket with
    | none =>
        rw [hsocket, hmem] at hnot
        exact absurd List.mem_cons_self hnot
    | some socket =>
        obtain ⟨hfd, hentry⟩ := hsound.socket socket hsocket
        rw [hfd] at hentry
        exact hentry.resolve_right (hunregistered (by rw [hsocket]; rfl))
  · intro fd hmem
    cases hsocket : c.socket with
    | none =>
        rw [hsocket] at hmem
        rw [hheld]
        exact .inl hmem
    | some socket =>
        rw [hsocket] at hmem
        cases hmem
  · intro p hp
    cases hsocket : c.socket with
    | none =>
        rw [hsocket] at hp
        cases hp
        trivial
    | some socket =>
        rw [hsocket] at hp
        cases hp

theorem Sound.connector (h : l.Sound) {c c' : Connector} {e : Connector.Event}
    (hc : l.objects id = some (.connector c)) (hmoves : (l.enter c).Moves e c')
    (hnew : ∀ fd ∈ e.newFds, l.isOpen fd = false) : (l.leave id c').Sound := by
  have hheld := held_connector hc
  apply h.replaced id (some (.connector c')) (l.leave id c') rfl rfl h.removals
  · intro fd hold hnot
    rw [hheld] at hold
    exact hmoves.frame fd hold hnot
  · intro fd hold hnot
    rw [hheld] at hold
    exact hmoves.closed fd hold hnot
  · intro fd hmem
    rw [hheld]
    rcases hmoves.fresh fd hmem with hold | hfresh
    · exact .inl hold
    · exact .inr (hnew fd hfresh)
  · intro p hp
    cases hp
    exact hmoves.sound

/-- Step lemma: an orderly step keeps the invariant. -/
theorem Sound.step (h : l.Sound) (hstep : Stepped l e l')
    (hnew : ∀ fd ∈ e.newFds, l.isOpen fd = false) (horderly : l.Orderly e) : l'.Sound := by
  cases hstep with
  | createTimer id fd hnone => exact h.createTimer hnone (hnew fd List.mem_cons_self)
  | destroyTimer id timer htimer => exact absurd horderly not_false
  | makeConnector id fd hnone => exact h.makeConnector hnone (hnew fd List.mem_cons_self)
  | destroyConnector id c hc =>
      obtain ⟨htimer, hunregistered⟩ := horderly c hc
      exact h.destroyConnector hc htimer hunregistered
  | connector id e c c' hc hstep =>
      have hfresh := h.fresh (e := .connector id e) hnew hc
      exact h.connector hc ((h.enter hc).moves hstep (horderly c hc) hfresh) hnew
  | remove event removals hremovals =>
      rw [h.removals] at hremovals
      cases hremovals

/-- The queues of a sound loop hold no removals. -/
theorem Sound.removes_eq_none (h : l.Sound) (e : Event) : l.removes e = none := by
  cases e with
  | remove => simp [removes, h.removals]
  | connector id e =>
      cases e with
      | functor answer =>
          simp only [removes]
          split
          · rename_i c hc
            have hfunctors := (h.enter hc).functors
            cases hqueue : c.functors with
            | nil => rfl
            | cons functor functors =>
                apply hfunctors functor
                change functor ∈ c.functors
                rw [hqueue]
                exact List.mem_cons_self
          · rfl
      | _ => rfl
  | _ => rfl

/-- Of a tidy step that closes a descriptor, the table keeps no entry. -/
theorem Tidy.entry_eq_none (htidy : Tidy l e l') (o : Option Object)
    (hisOpen : l'.isOpen = (l.replace id o).isOpen) (fd : Int)
    (hold : fd ∈ held (l.objects id)) (hnot : fd ∉ held o) : l'.epoll.events fd = none := by
  apply htidy.closed
  rw [hisOpen]
  exact replace_closes hold hnot

theorem Tidy.destroyConnector (h : l.Sound) {c : Connector}
    (hc : l.objects id = some (.connector c))
    (htidy : Tidy l (.destroyConnector id) (l.destroyConnector id c)) :
    c.retryTimer = none ∧ (c.socket.isSome → ¬(l.enter c).registered) := by
  have hsound := h.enter hc
  have hheld := held_connector hc
  have hevents : (l.destroyConnector id c).epoll.events = l.epoll.events := by
    have hstop := Connector.stopTimer_events (c := l.enter c)
    unfold EventLoop.destroyConnector
    dsimp only
    split <;> exact hstop
  have hnone := htidy.entry_eq_none _ rfl
  constructor
  · cases htimer : c.retryTimer with
    | none => rfl
    | some timer =>
        obtain ⟨hentry, hne⟩ := hsound.timer timer htimer
        have hclosed := hnone timer.handlerEvent.watchingFd
          (by rw [hheld]; exact Connector.mem_descriptors.mpr (.inr ⟨timer, htimer, rfl⟩))
          (by
            cases c.socket with
            | none => exact fun hmem => hne (List.mem_singleton.mp hmem)
            | some socket => exact List.not_mem_nil)
        rw [hevents] at hclosed
        exact absurd (hclosed.symm.trans hentry) (Option.some_ne_none _).symm
  · intro hsocket hregistered
    have hclosed := hnone c.epollEvent.watchingFd
      (by rw [hheld]; exact Connector.mem_descriptors.mpr (.inl rfl))
      (by
        obtain ⟨socket, hsome⟩ := Option.isSome_iff_exists.mp hsocket
        rw [hsome]
        exact List.not_mem_nil)
    rw [hevents] at hclosed
    exact absurd (hclosed.symm.trans hregistered) (Option.some_ne_none _).symm

/-- Under the invariant, a step is tidy exactly if it is orderly. -/
theorem Sound.tidy_iff (h : l.Sound) (hstep : Stepped l e l')
    (hnew : ∀ fd ∈ e.newFds, l.isOpen fd = false) : Tidy l e l' ↔ l.Orderly e := by
  constructor
  · intro htidy
    cases hstep with
    | createTimer id fd hnone => trivial
    | destroyTimer id timer htimer =>
        have hold : timer.handlerEvent.watchingFd ∈ held (l.objects id) := by
          rw [htimer]
          exact List.mem_cons_self
        have hnone := htidy.entry_eq_none none rfl _ hold List.not_mem_nil
        have hentry := h.objects id _ htimer
        exact absurd (hnone.symm.trans hentry) (Option.some_ne_none _).symm
    | makeConnector id fd hnone => trivial
    | destroyConnector id c hc =>
        intro c' hc'
        rw [hc] at hc'
        cases hc'
        exact htidy.destroyConnector h hc
    | connector id e c c' hc hstep =>
        intro d hd
        rw [hc] at hd
        cases hd
        have hfresh := h.fresh (e := .connector id e) hnew hc
        apply (h.enter hc).spares hstep hfresh
        intro fd hmem hnot
        have hold : fd ∈ held (l.objects id) := by
          rw [held_connector hc]
          exact hmem
        exact htidy.entry_eq_none (some (.connector c')) rfl fd hold hnot
    | remove event removals hremovals => trivial
  · intro horderly
    constructor
    · exact (h.step hstep hnew horderly).clean
    · exact fun fd hfd => h.clean fd (hnew fd hfd)
    · intro event hremoves
      rw [h.removes_eq_none e] at hremoves
      cases hremoves

/-! ## Runs -/

/-- A run of a loop leaves no entry of a closed descriptor, registers new objects as
new and removes no entry of another object exactly if it destroys no timer and
closes no socket that is registered. -/
theorem tidy_iff_orderly (ctlAnswers : Nat → Answer Unit) (isOpen : Int → Bool)
    (es : List Event) :
    Run.Always step (Run.Each step Tidy) (new ctlAnswers isOpen) es ↔
      Run.Always step (Run.Each step fun l e _ => l.Orderly e) (new ctlAnswers isOpen) es := by
  apply Run.always_each_iff _ _ (new_sound ctlAnswers isOpen)
  · intro l e l' hsound horderly hstep
    obtain ⟨hnew, hstepped⟩ := step_ok hstep
    exact hsound.step hstepped hnew horderly
  · intro l e l' hsound hstep
    obtain ⟨hnew, hstepped⟩ := step_ok hstep
    exact hsound.tidy_iff hstepped hnew

/-- A timer is created and destroyed, and its entry remains. -/
theorem tidy_fails : ¬∀ (ctlAnswers : Nat → Answer Unit) (isOpen : Int → Bool)
    (es : List Event), Run.Always step (Run.Each step Tidy) (new ctlAnswers isOpen) es := by
  intro h
  have hrun := h (fun _ => .done ()) (fun _ => false) [.createTimer 0 5, .destroyTimer 0]
  have hclosed := ((hrun.2 _ rfl).1 _ rfl).closed 5 rfl
  cases hclosed

end EventLoop

end Netpp
