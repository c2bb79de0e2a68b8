import Mathlib.Data.List.Nodup
import Mathlib.Logic.Function.Basic
import Netpp.Library.Run
import Netpp.Library.Table

/-!
# Dispatching a batch

`Epoll::poll` hands the loop a batch of pointers to `EpollEvent`s, and
`EventLoopImpl::start` calls `handleEvents` on one after the other. An `EpollEvent`
is destroyed with its handler, and a handler with its last owner: the handler set
of the loop, a copy of a `shared_ptr` to it, or `handleEvents`, which locks its
handler while it runs. `handleEvents` looks if its handler is still there, but it
is a method of the event that goes with the handler.

A handler may do anything to the others meanwhile, and so may another thread: the
actions below are all that changes who owns what. An address is not used again for
a new event. `alive_iff_spares` says when the events of a batch last until their
turn comes.
-/

namespace Netpp

/-- An `EventHandler`, which is known by a number. -/
structure Handler where
  /-- `m_epollEvent`. -/
  event : Nat
  /-- `m_handlers` of the loop has it. -/
  inHandlers : Bool
  /-- The `shared_ptr`s to it, except for these two. -/
  owners : Nat

structure Dispatch where
  /-- The handlers that exist. -/
  handlers : Nat → Option Handler
  /-- The events that exist, each with `_eventHandler`. -/
  events : Nat → Option Nat
  nextPtr : Nat
  /-- The active channels that are still to be handled. -/
  batch : List Nat
  /-- The handler whose event is being handled. -/
  running : Option Nat

namespace Dispatch

def new : Dispatch := ⟨fun _ => none, fun _ => none, 0, [], none⟩

inductive Action where
  /-- A handler and its event are made, for the caller. -/
  | make (id : Nat)
  /-- `m_epollEvent` gets a new event, as in the callback of the retry timer. -/
  | replaceEvent (id : Nat)
  /-- `EventLoopImpl::add` and `EventLoopImpl::remove`. -/
  | add (id : Nat)
  | remove (id : Nat)
  /-- A `shared_ptr` is copied or locked, or destroyed. -/
  | hold (id : Nat)
  | release (id : Nat)
  /-- `Epoll::poll`, with the events that are ready. -/
  | poll (ready : List Nat)
  /-- `handleEvents` is called on the next channel, and returns. -/
  | dispatch
  | finish

/-- Why there is no next state. -/
inductive Halt where
  /-- The action cannot happen here. -/
  | disabled
  /-- An event is used that does not exist any more. -/
  | dangling
  deriving DecidableEq

/-- Somebody owns the handler. -/
def owned (s : Dispatch) (id : Nat) (h : Handler) : Bool :=
  h.inHandlers || 0 < h.owners || s.running == some id

def put (s : Dispatch) (id : Nat) (h : Handler) : Dispatch :=
  { s with handlers := Function.update s.handlers id (some h) }

@[simp] theorem put_events (s : Dispatch) (id : Nat) (h : Handler) :
    (s.put id h).events = s.events := rfl

@[simp] theorem put_batch (s : Dispatch) (id : Nat) (h : Handler) :
    (s.put id h).batch = s.batch := rfl

/-- The handler is destroyed, and its event with it. -/
def destroy (s : Dispatch) (id : Nat) (h : Handler) : Dispatch :=
  { s with
    handlers := Function.update s.handlers id none
    events := Function.update s.events h.event none }

/-- The handler after one of its owners has gone. -/
def settle (s : Dispatch) (id : Nat) (h : Handler) : Dispatch :=
  if s.owned id h then s.put id h else s.destroy id h

def step (s : Dispatch) : Action → Except Halt Dispatch
  | .make id =>
      match s.handlers id with
      | some _ => .error .disabled
      | none => .ok { s.put id ⟨s.nextPtr, false, 1⟩ with
          events := Function.update s.events s.nextPtr (some id)
          nextPtr := s.nextPtr + 1 }
  | .replaceEvent id =>
      match s.handlers id with
      | none => .error .disabled
      | some h => .ok { s.put id { h with event := s.nextPtr } with
          events := Function.update (Function.update s.events h.event none) s.nextPtr (some id)
          nextPtr := s.nextPtr + 1 }
  | .add id =>
      match s.handlers id with
      | none => .error .disabled
      | some h =>
          if s.owned id { h with inHandlers := false } then
            .ok (s.put id { h with inHandlers := true })
          else .error .disabled
  | .remove id =>
      match s.handlers id with
      | none => .error .disabled
      | some h =>
          if s.owned id { h with inHandlers := false } then
            .ok (s.put id { h with inHandlers := false })
          else .error .disabled
  | .hold id =>
      match s.handlers id with
      | none => .error .disabled
      | some h => .ok (s.put id { h with owners := h.owners + 1 })
  | .release id =>
      match s.handlers id with
      | none => .error .disabled
      | some h =>
          if h.owners = 0 then .error .disabled
          else .ok (s.settle id { h with owners := h.owners - 1 })
  | .poll ready =>
      if s.batch = [] ∧ s.running = none ∧ ready.Nodup ∧ ready.all (s.events · |>.isSome) then
        .ok { s with batch := ready }
      else .error .disabled
  | .dispatch =>
      match s.running, s.batch with
      | none, ptr :: batch =>
          match s.events ptr with
          | none => .error .dangling
          | some id => .ok { s with batch := batch, running := some id }
      | _, _ => .error .disabled
  | .finish =>
      match s.running with
      | none => .error .disabled
      | some id =>
          match s.handlers id with
          | none => .error .disabled
          | some h => .ok ({ s with running := none }.settle id h)

/-! ## Paths of the code -/

/-- `TcpConnection::forceClose`, which extends the life of the connection. -/
def forceClose (id : Nat) : List Action := [.hold id, .remove id, .release id]

/-- `HalfCloseConnectionWheelEntry::onTimeout`, which locks the connection. -/
def onTimeout (id : Nat) : List Action := .hold id :: forceClose id ++ [.release id]

/-- The functors of `Acceptor::stop`, `SignalHandler::stop`, `Connector::stopConnect` and
`TimerHandler::remove`, which own their handler from the call until they have run. -/
def removalFunctor (id : Nat) : List Action := [.remove id, .release id]

variable {s s' : Dispatch} {a : Action}

/-! ## Steps -/

/-- A step that is made. -/
inductive Stepped (s : Dispatch) : Action → Dispatch → Prop
  | make (id) (hid : s.handlers id = none) :
      Stepped s (.make id) { s.put id ⟨s.nextPtr, false, 1⟩ with
        events := Function.update s.events s.nextPtr (some id)
        nextPtr := s.nextPtr + 1 }
  | replaceEvent (id h) (hid : s.handlers id = some h) :
      Stepped s (.replaceEvent id) { s.put id { h with event := s.nextPtr } with
        events := Function.update (Function.update s.events h.event none) s.nextPtr (some id)
        nextPtr := s.nextPtr + 1 }
  | add (id h) (hid : s.handlers id = some h) :
      Stepped s (.add id) (s.put id { h with inHandlers := true })
  | remove (id h) (hid : s.handlers id = some h) :
      Stepped s (.remove id) (s.put id { h with inHandlers := false })
  | hold (id h) (hid : s.handlers id = some h) :
      Stepped s (.hold id) (s.put id { h with owners := h.owners + 1 })
  | release (id h) (hid : s.handlers id = some h) :
      Stepped s (.release id) (s.settle id { h with owners := h.owners - 1 })
  | poll (ready) (hready : ∀ ptr ∈ ready, (s.events ptr).isSome) :
      Stepped s (.poll ready) { s with batch := ready }
  | dispatch (ptr batch id) (hbatch : s.batch = ptr :: batch) (hptr : s.events ptr = some id) :
      Stepped s .dispatch { s with batch := batch, running := some id }
  | finish (id h) (hrunning : s.running = some id) (hid : s.handlers id = some h) :
      Stepped s .finish ({ s with running := none }.settle id h)

theorem step_ok (hstep : s.step a = .ok s') : Stepped s a s' := by
  cases a with
  | make id =>
      cases hid : s.handlers id with
      | some h => simp [step, hid] at hstep
      | none =>
          simp only [step, hid] at hstep
          cases hstep
          exact .make id hid
  | poll ready =>
      simp only [step] at hstep
      split at hstep
      · rename_i hready
        cases hstep
        exact .poll ready (List.all_eq_true.mp hready.2.2.2)
      · cases hstep
  | dispatch =>
      simp only [step] at hstep
      split at hstep
      · rename_i ptr batch hrunning hbatch
        cases hptr : s.events ptr with
        | none => simp [hptr] at hstep
        | some id =>
            simp only [hptr] at hstep
            cases hstep
            exact .dispatch ptr batch id hbatch hptr
      · cases hstep
  | finish =>
      cases hrunning : s.running with
      | none => simp [step, hrunning] at hstep
      | some id =>
          cases hid : s.handlers id with
          | none => simp [step, hrunning, hid] at hstep
          | some h =>
              simp only [step, hrunning, hid] at hstep
              cases hstep
              exact .finish id h hrunning hid
  | replaceEvent id =>
      cases hid : s.handlers id with
      | none => simp [step, hid] at hstep
      | some h =>
          simp only [step, hid] at hstep
          cases hstep
          exact .replaceEvent id h hid
  | hold id =>
      cases hid : s.handlers id with
      | none => simp [step, hid] at hstep
      | some h =>
          simp only [step, hid] at hstep
          cases hstep
          exact .hold id h hid
  | add id =>
      cases hid : s.handlers id with
      | none => simp [step, hid] at hstep
      | some h =>
          simp only [step, hid] at hstep
          split at hstep
          · cases hstep
            exact .add id h hid
          · cases hstep
  | remove id =>
      cases hid : s.handlers id with
      | none => simp [step, hid] at hstep
      | some h =>
          simp only [step, hid] at hstep
          split at hstep
          · cases hstep
            exact .remove id h hid
          · cases hstep
  | release id =>
      cases hid : s.handlers id with
      | none => simp [step, hid] at hstep
      | some h =>
          simp only [step, hid] at hstep
          split at hstep
          · cases hstep
          · cases hstep
            exact .release id h hid

/-! ## Handlers and their events -/

/-- The invariant of all runs: an event exists exactly as long as its handler has
it, and has an address that has been given out. -/
structure Linked (s : Dispatch) : Prop where
  event : ∀ ptr id, s.events ptr = some id ↔ ∃ h, s.handlers id = some h ∧ h.event = ptr
  bound : ∀ ptr id, s.events ptr = some id → ptr < s.nextPtr

theorem new_linked : new.Linked where
  event _ _ := by simp [new]
  bound _ _ h := by cases h

variable {id : Nat} {h h' : Handler}

theorem Linked.event_of_handler (hs : s.Linked) (hid : s.handlers id = some h) :
    s.events h.event = some id := (hs.event h.event id).mpr ⟨h, hid, rfl⟩

/-- A handler that keeps its event. -/
theorem Linked.put (hs : s.Linked) (hid : s.handlers id = some h) (hevent : h'.event = h.event) :
    (s.put id h').Linked where
  event ptr id' := by
    rw [put_events, hs.event]
    simp only [Dispatch.put]
    by_cases heq : id' = id
    · rw [heq, Function.update_self, hid]
      simp [hevent]
    · rw [Function.update_of_ne heq]
  bound := hs.bound

theorem Linked.destroy (hs : s.Linked) (hid : s.handlers id = some h)
    (hevent : h'.event = h.event) : (s.destroy id h').Linked := by
  have hown := hs.event_of_handler hid
  constructor
  · intro ptr id'
    simp only [Dispatch.destroy, hevent]
    by_cases hptr : ptr = h.event
    · rw [hptr, Function.update_self]
      constructor
      · intro hnone
        cases hnone
      · rintro ⟨g, hg, hsame⟩
        obtain ⟨hne, hbefore⟩ := Table.erase_eq_some hg
        have hother := hs.event_of_handler hbefore
        rw [hsame, hown] at hother
        exact absurd (Option.some.inj hother).symm hne
    · rw [Function.update_of_ne hptr, hs.event]
      by_cases heq : id' = id
      · rw [heq, Function.update_self, hid]
        simp [Ne.symm hptr]
      · rw [Function.update_of_ne heq]
  · intro ptr id' hptr
    simp only [Dispatch.destroy, hevent] at hptr ⊢
    exact hs.bound ptr id' (Table.erase_eq_some hptr).2

theorem Linked.settle (hs : s.Linked) (hid : s.handlers id = some h)
    (hevent : h'.event = h.event) : (s.settle id h').Linked := by
  unfold Dispatch.settle
  split
  · exact hs.put hid hevent
  · exact hs.destroy hid hevent

/-- A handler that is made, with a new event. -/
theorem Linked.create (hs : s.Linked) (hid : s.handlers id = none) (hevent : h.event = s.nextPtr) :
    Linked { s.put id h with
      events := Function.update s.events s.nextPtr (some id)
      nextPtr := s.nextPtr + 1 } := by
  have hnew : s.events s.nextPtr = none := by
    cases hptr : s.events s.nextPtr with
    | none => rfl
    | some other => exact absurd (hs.bound _ _ hptr) (Nat.lt_irrefl _)
  constructor
  · intro ptr id'
    simp only [Dispatch.put]
    by_cases hptr : ptr = s.nextPtr
    · rw [hptr, Function.update_self]
      constructor
      · intro hsame
        cases hsame
        exact ⟨h, Function.update_self .., hevent⟩
      · rintro ⟨g, hg, hlast⟩
        by_cases heq : id' = id
        · rw [heq]
        · rw [Function.update_of_ne heq] at hg
          have hother := hs.event_of_handler hg
          rw [hlast, hnew] at hother
          cases hother
    · rw [Function.update_of_ne hptr, hs.event]
      by_cases heq : id' = id
      · rw [heq, Function.update_self, hid]
        simp [hevent, Ne.symm hptr]
      · rw [Function.update_of_ne heq]
  · intro ptr id' hptr
    rcases Table.insert_eq_some hptr with ⟨hnew, -⟩ | ⟨-, hbefore⟩
    · rw [hnew]
      exact Nat.lt_succ_self _
    · exact Nat.lt_succ_of_lt (hs.bound ptr id' hbefore)

/-- A new event for a handler is a new handler in the place of the old one. -/
theorem Linked.replaceEvent (hs : s.Linked) (hid : s.handlers id = some h) :
    Linked { s.put id { h with event := s.nextPtr } with
      events := Function.update (Function.update s.events h.event none) s.nextPtr (some id)
      nextPtr := s.nextPtr + 1 } := by
  have hgone := hs.destroy hid rfl
  have hfree : (Function.update s.handlers id none) id = none := Function.update_self ..
  have hcreate := Linked.create (h := { h with event := s.nextPtr }) hgone hfree rfl
  simp only [Dispatch.put, Dispatch.destroy, Function.update_idem] at hcreate
  exact hcreate

/-- Step lemma for all runs. -/
theorem Linked.step (hs : s.Linked) (hstep : Stepped s a s') : s'.Linked := by
  cases hstep with
  | make id hid => exact hs.create hid rfl
  | replaceEvent id h hid => exact hs.replaceEvent hid
  | add id h hid => exact hs.put hid rfl
  | remove id h hid => exact hs.put hid rfl
  | hold id h hid => exact hs.put hid rfl
  | release id h hid => exact hs.settle hid rfl
  | poll ready hready => exact ⟨hs.event, hs.bound⟩
  | dispatch ptr batch id hbatch hptr => exact ⟨hs.event, hs.bound⟩
  | finish id h hrunning hid =>
      have hlinked : Linked { s with running := none } := ⟨hs.event, hs.bound⟩
      exact hlinked.settle hid rfl

/-! ## The events of the batch -/

/-- The handler that owns the event exists. -/
def Alive (s : Dispatch) (ptr : Nat) : Prop := ∃ id h, s.handlers id = some h ∧ h.event = ptr

/-- No step uses an event that has gone, and the events that the loop has still to
handle exist after it. -/
structure Lasting (s : Dispatch) (a : Action) : Prop where
  used : s.step a ≠ .error .dangling
  waiting : ∀ s', s.step a = .ok s' → ∀ ptr ∈ s'.batch, s'.Alive ptr

/-- The event that goes with its last owner, or for a new one. -/
def doomed (s : Dispatch) : Action → Option Nat
  | .replaceEvent id => (s.handlers id).map (·.event)
  | .release id => (s.handlers id).bind fun h =>
      if s.owned id { h with owners := h.owners - 1 } then none else some h.event
  | .finish => s.running.bind fun id => (s.handlers id).bind fun h =>
      if { s with running := none }.owned id h then none else some h.event
  | _ => none

/-- The action takes no event away that is waiting in the batch. -/
def Spares (s : Dispatch) (a : Action) : Prop := ∀ ptr ∈ s.batch, s.doomed a ≠ some ptr

theorem Linked.alive_iff (hs : s.Linked) (ptr : Nat) : s.Alive ptr ↔ (s.events ptr).isSome := by
  rw [Option.isSome_iff_exists]
  exact exists_congr fun id => (hs.event ptr id).symm

/-- The events of the handler that is settled. -/
theorem settle_events (s : Dispatch) (id : Nat) (h : Handler) (ptr : Nat) :
    (s.settle id h).events ptr =
      if (if s.owned id h then none else some h.event) = some ptr then none
      else s.events ptr := by
  unfold settle
  cases s.owned id h with
  | true => rfl
  | false =>
      simp only [Bool.false_eq_true, if_false, Option.some.injEq, destroy]
      by_cases hptr : h.event = ptr
      · rw [if_pos hptr, hptr, Function.update_self]
      · rw [if_neg hptr, Function.update_of_ne (Ne.symm hptr)]

theorem settle_batch (s : Dispatch) (id : Nat) (h : Handler) : (s.settle id h).batch = s.batch := by
  unfold settle
  split <;> rfl

/-- Step lemma: an event that has been there is there afterwards, unless the action
takes it away. -/
theorem Linked.events_step (hs : s.Linked) (hstep : Stepped s a s') {ptr : Nat}
    (hptr : (s.events ptr).isSome) : (s'.events ptr).isSome ↔ s.doomed a ≠ some ptr := by
  obtain ⟨owner, howner⟩ := Option.isSome_iff_exists.mp hptr
  have hne : ptr ≠ s.nextPtr := Nat.ne_of_lt (hs.bound ptr owner howner)
  cases hstep with
  | make id hid => simp [doomed, Function.update_of_ne hne, hptr]
  | replaceEvent id h hid =>
      simp only [doomed, hid, Option.map_some, ne_eq, Option.some.injEq]
      rw [Function.update_of_ne hne]
      by_cases hown : h.event = ptr
      · rw [hown, Function.update_self]
        simp
      · rw [Function.update_of_ne (Ne.symm hown)]
        simp [hptr, hown]
  | release id h hid =>
      simp only [doomed, hid, Option.bind_some]
      rw [settle_events]
      dsimp only
      split <;> simp_all
  | finish id h hrunning hid =>
      simp only [doomed, hrunning, hid, Option.bind_some]
      rw [settle_events]
      split <;> simp_all
  | _ => simp [doomed, hptr]

/-- The batch gets events that exist, and loses some. -/
theorem Stepped.mem_batch (hstep : Stepped s a s') {ptr : Nat} (hptr : ptr ∈ s'.batch) :
    ptr ∈ s.batch ∨ (s.events ptr).isSome := by
  cases hstep with
  | poll ready hready => exact .inr (hready ptr hptr)
  | dispatch head batch id hbatch hhead =>
      left
      rw [hbatch]
      exact List.mem_cons_of_mem _ hptr
  | release id h hid =>
      rw [settle_batch] at hptr
      exact .inl hptr
  | finish id h hrunning hid =>
      rw [settle_batch] at hptr
      exact .inl hptr
  | _ => exact .inl hptr

/-- An action that takes an event away leaves the batch as it is. -/
theorem Stepped.batch_eq (hstep : Stepped s a s') {ptr : Nat} (hdoomed : s.doomed a = some ptr) :
    s'.batch = s.batch := by
  cases hstep with
  | replaceEvent id h hid => rfl
  | release id h hid => exact settle_batch ..
  | finish id h hrunning hid => exact settle_batch ..
  | _ => cases hdoomed

/-- While the batch lasts, it lasts through a step exactly if the action spares it. -/
theorem Linked.waiting_iff (hs : s.Linked) (hbatch : ∀ ptr ∈ s.batch, s.Alive ptr)
    (hstep : Stepped s a s') : (∀ ptr ∈ s'.batch, s'.Alive ptr) ↔ s.Spares a := by
  have hexists : ∀ ptr ∈ s.batch, (s.events ptr).isSome := fun ptr hptr =>
    (hs.alive_iff ptr).mp (hbatch ptr hptr)
  constructor
  · intro hwaiting ptr hptr hdoomed
    have hptr' : ptr ∈ s'.batch := by rwa [hstep.batch_eq hdoomed]
    have halive := ((hs.step hstep).alive_iff ptr).mp (hwaiting ptr hptr')
    exact (hs.events_step hstep (hexists ptr hptr)).mp halive hdoomed
  · intro hspares ptr hptr
    have hold : (s.events ptr).isSome := by
      rcases hstep.mem_batch hptr with hmem | hready
      · exact hexists ptr hmem
      · exact hready
    apply ((hs.step hstep).alive_iff ptr).mpr
    apply (hs.events_step hstep hold).mpr
    intro hdoomed
    rw [hstep.batch_eq hdoomed] at hptr
    exact hspares ptr hptr hdoomed

/-- Only an event of the batch is used after it has gone. -/
theorem used_of_alive (hs : s.Linked) (hbatch : ∀ ptr ∈ s.batch, s.Alive ptr) :
    s.step a ≠ .error .dangling := by
  intro hdangling
  cases a with
  | dispatch =>
      simp only [step] at hdangling
      split at hdangling
      · rename_i ptr batch hrunning hqueue
        have halive := hbatch ptr (by rw [hqueue]; exact List.mem_cons_self)
        obtain ⟨id, hid⟩ := Option.isSome_iff_exists.mp ((hs.alive_iff ptr).mp halive)
        simp [hid] at hdangling
      · cases hdangling
  | _ =>
      simp only [step] at hdangling
      repeat' split at hdangling
      all_goals cases hdangling

/-- A half-closed connection that only the loop owns is destroyed by its timeout. -/
theorem onTimeout_final {ptr : Nat} (hid : s.handlers id = some ⟨ptr, true, 0⟩)
    (hrunning : s.running ≠ some id) :
    Run.final step s (onTimeout id) = .ok (s.destroy id ⟨ptr, false, 0⟩) := by
  simp [onTimeout, forceClose, Run.final, step, hid, put, owned, settle, destroy, hrunning]

/-- So is a handler that only the loop and the functor of its removal own. -/
theorem removalFunctor_final {ptr : Nat} {inHandlers : Bool}
    (hid : s.handlers id = some ⟨ptr, inHandlers, 1⟩) (hrunning : s.running ≠ some id) :
    Run.final step s (removalFunctor id) = .ok (s.destroy id ⟨ptr, false, 0⟩) := by
  simp [removalFunctor, Run.final, step, hid, put, owned, settle, destroy, hrunning]

/-! ## Runs -/

/-- The events of every batch last until they are handled exactly if no action takes
the last owner of a handler away, or replaces its event, while that event waits. -/
theorem lasting_iff_spares (as : List Action) :
    Run.Always step Lasting new as ↔
      Run.Always step (Run.Each step fun s a _ => s.Spares a) new as := by
  apply Run.always_iff_always (J := fun s => s.Linked ∧ ∀ ptr ∈ s.batch, s.Alive ptr)
  · rintro s a s' ⟨hs, hbatch⟩ hspares hstep
    have hstepped := step_ok hstep
    exact ⟨hs.step hstepped, (hs.waiting_iff hbatch hstepped).mpr (hspares s' hstep)⟩
  · rintro s a ⟨hs, hbatch⟩
    constructor
    · intro hlasting s' hstep
      exact (hs.waiting_iff hbatch (step_ok hstep)).mp (hlasting.waiting s' hstep)
    · intro hspares
      refine ⟨used_of_alive hs hbatch, fun s' hstep => ?_⟩
      exact (hs.waiting_iff hbatch (step_ok hstep)).mpr (hspares s' hstep)
  · exact ⟨new_linked, fun _ h => absurd h List.not_mem_nil⟩

/-- A tick timer and a connection that only the loop owns are ready at once, and the
half-close entry of the connection times out in the tick. -/
theorem lasting_fails : ¬∀ as : List Action, Run.Always step Lasting new as := by
  intro h
  have hrun := (h ([.make 0, .make 1, .add 1, .release 1, .poll [0, 1], .dispatch] ++
    onTimeout 1 ++ [.finish] ++ [.dispatch])).of_append _ _ rfl
  exact hrun.1.used rfl

end Dispatch

end Netpp
