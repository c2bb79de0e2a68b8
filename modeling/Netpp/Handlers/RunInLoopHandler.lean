import Mathlib.Algebra.Ring.Nat
import Mathlib.Logic.Function.Basic
import Netpp.Library.Run

/-!
# Handing functors to the loop

`RunInLoopHandler::addPendingFunction` may be called from any thread. It first
writes the eventfd, which wakes the loop, and then takes the lock and appends its
functor to the queue. The loop reads the eventfd, takes the lock and moves the
queue out, and runs the functors. These are the steps of the model, one for each
system call or critical section, and a run is any interleaving of them.

A caller that is overtaken by the whole round of the loop between its two steps
appends a functor nobody is woken for. `FindsLoopAwake` is the condition that
rules this out, and `pending_implies_awake` shows that it is enough for every
run.
-/

namespace Netpp

namespace RunInLoopHandler

/-- Where the loop thread is. -/
inductive Loop (φ : Type*) where
  /-- In `epoll_wait`. -/
  | waiting
  /-- In `handleIn`, between reading the eventfd and taking the lock. -/
  | awake
  /-- In `handleIn`, with the functors it has moved out and not run yet. -/
  | running (functors : List φ)

/-- The handler, the callers `ι` and the loop; functors are of type `φ`. -/
structure State (ι φ : Type*) where
  /-- The counter of `m_wakeUpFd`. -/
  counter : Nat
  pendingFunctors : List φ
  /-- The functor of a call that has written the eventfd and not taken the lock. -/
  caller : ι → Option φ
  loop : Loop φ

/-- The steps of the threads. -/
inductive Event (ι φ : Type*) where
  /-- `addPendingFunction` writes the eventfd. -/
  | write (i : ι) (functor : φ)
  /-- `addPendingFunction` appends its functor under the lock. -/
  | push (i : ι)
  /-- `handleIn` is called and reads the eventfd. -/
  | read
  /-- `handleIn` moves the queue out under the lock. -/
  | swap
  /-- `handleIn` runs the next functor, or returns after the last one. -/
  | run

/-- An event that is not the next step of its thread. -/
inductive Disabled where
  | disabled

variable {ι φ : Type*}

def init : State ι φ := ⟨0, [], fun _ => none, .waiting⟩

/-- `eventfd_write(fd, 1)`. The largest value of the counter is `2 ^ 64 - 2`; a
write beyond it fails, which the program ignores. -/
def eventfdWrite (counter : Nat) : Nat :=
  if counter < 2 ^ 64 - 2 then counter + 1 else counter

/-- The loop of `handleIn` over its functors: the next one is run, or the handler
returns. -/
def runNext : List φ → Loop φ
  | [] => .waiting
  | _ :: functors => .running functors

/-- One step. The poll wakes the loop only while the counter is positive, and
reading the eventfd resets the counter. -/
def step [DecidableEq ι] (s : State ι φ) : Event ι φ → Except Disabled (State ι φ)
  | .write i functor =>
      match s.caller i with
      | some _ => .error .disabled
      | none => .ok { s with
          counter := eventfdWrite s.counter
          caller := Function.update s.caller i (some functor) }
  | .push i =>
      match s.caller i with
      | none => .error .disabled
      | some functor => .ok { s with
          pendingFunctors := s.pendingFunctors ++ [functor]
          caller := Function.update s.caller i none }
  | .read =>
      match s.loop with
      | .waiting =>
          if s.counter = 0 then .error .disabled
          else .ok { s with counter := 0, loop := .awake }
      | _ => .error .disabled
  | .swap =>
      match s.loop with
      | .awake => .ok { s with pendingFunctors := [], loop := .running s.pendingFunctors }
      | _ => .error .disabled
  | .run =>
      match s.loop with
      | .running functors => .ok { s with loop := runNext functors }
      | _ => .error .disabled

/-- No call of `addPendingFunction` or `handleIn` is in progress. -/
def Quiescent (s : State ι φ) : Prop := (∀ i, s.caller i = none) ∧ s.loop = .waiting

/-- Whenever no call is in progress, queued functors will wake the loop. -/
def NoLostWakeUp (s : State ι φ) : Prop :=
  Quiescent s → s.pendingFunctors ≠ [] → 0 < s.counter

/-- A functor is appended only while the eventfd is set or the loop, having read
it, has not moved the queue out. -/
def FindsLoopAwake (s : State ι φ) : Event ι φ → Prop
  | .push _ => 0 < s.counter ∨ s.loop = .awake
  | _ => True

/-- The invariant: the loop will still see the functors in the queue. -/
def Seen (s : State ι φ) : Prop :=
  s.pendingFunctors ≠ [] → 0 < s.counter ∨ s.loop = .awake

theorem eventfdWrite_pos (counter : Nat) : 0 < eventfdWrite counter := by
  rw [eventfdWrite]
  split <;> omega

theorem Seen.noLostWakeUp {s : State ι φ} (h : Seen s) : NoLostWakeUp s := by
  rintro ⟨-, hloop⟩ hpending
  rcases h hpending with hcounter | hawake
  · exact hcounter
  · rw [hloop] at hawake
    cases hawake

/-! ## What each step does -/

section Inversion

variable [DecidableEq ι] {s s' : State ι φ}

theorem step_write_ok {i : ι} {functor : φ} (h : step s (.write i functor) = .ok s') :
    s.caller i = none ∧ s' = { s with
      counter := eventfdWrite s.counter
      caller := Function.update s.caller i (some functor) } := by
  simp only [step] at h
  split at h
  · cases h
  · rename_i hcaller
    injection h with h
    exact ⟨hcaller, h.symm⟩

theorem step_push_ok {i : ι} (h : step s (.push i) = .ok s') :
    ∃ functor, s.caller i = some functor ∧ s' = { s with
      pendingFunctors := s.pendingFunctors ++ [functor]
      caller := Function.update s.caller i none } := by
  simp only [step] at h
  split at h
  · cases h
  · rename_i functor hcaller
    injection h with h
    exact ⟨functor, hcaller, h.symm⟩

theorem step_read_ok (h : step s .read = .ok s') :
    s.loop = .waiting ∧ s.counter ≠ 0 ∧ s' = { s with counter := 0, loop := .awake } := by
  simp only [step] at h
  split at h
  · rename_i hloop
    split at h
    · cases h
    · rename_i hcounter
      injection h with h
      exact ⟨hloop, hcounter, h.symm⟩
  · cases h

theorem step_swap_ok (h : step s .swap = .ok s') :
    s.loop = .awake ∧
      s' = { s with pendingFunctors := [], loop := .running s.pendingFunctors } := by
  simp only [step] at h
  split at h
  · rename_i hloop
    injection h with h
    exact ⟨hloop, h.symm⟩
  · cases h

theorem step_run_ok (h : step s .run = .ok s') :
    ∃ functors, s.loop = .running functors ∧ s' = { s with loop := runNext functors } := by
  simp only [step] at h
  split at h
  · rename_i functors hloop
    injection h with h
    exact ⟨functors, hloop, h.symm⟩
  · cases h

end Inversion

/-! ## No lost wake-up -/

/-- Step lemma: a step that meets the condition keeps the invariant. -/
theorem Seen.step [DecidableEq ι] {s s' : State ι φ} {e : Event ι φ} (h : Seen s)
    (hawake : FindsLoopAwake s e) (hok : step s e = .ok s') : Seen s' := by
  cases e with
  | write i functor =>
      obtain ⟨-, rfl⟩ := step_write_ok hok
      intro _
      exact .inl (eventfdWrite_pos s.counter)
  | push i =>
      obtain ⟨functor, -, rfl⟩ := step_push_ok hok
      intro _
      exact hawake
  | read =>
      obtain ⟨-, -, rfl⟩ := step_read_ok hok
      intro _
      exact .inr rfl
  | swap =>
      obtain ⟨-, rfl⟩ := step_swap_ok hok
      intro hpending
      exact absurd rfl hpending
  | run =>
      obtain ⟨functors, hloop, rfl⟩ := step_run_ok hok
      intro hpending
      rcases h hpending with hcounter | hbetween
      · exact .inl hcounter
      · rw [hloop] at hbetween
        cases hbetween

/-- In every run in which each functor is appended while the loop is awake or
will be woken, a wake-up is never lost. -/
theorem pending_implies_awake [DecidableEq ι] (events : List (Event ι φ))
    (hawake : Run.Always step FindsLoopAwake init events) :
    Run.Always step (Run.After step NoLostWakeUp) init events := by
  refine Run.always_of_always (J := Seen) (C := FindsLoopAwake) ?_ ?_ ?_ hawake
  · intro s e s' hseen hmeets hok
    exact hseen.step hmeets hok
  · intro s e hseen hmeets s' hok
    exact (hseen.step hmeets hok).noLostWakeUp
  · intro hpending
    exact absurd rfl hpending

/-- A call whose functor is appended while the loop is awake. -/
theorem pending_implies_awake_call :
    Run.Always step (Run.After step NoLostWakeUp) (init : State Unit Unit)
      [.write () (), .read, .push (), .swap, .run, .run] :=
  pending_implies_awake [.write () (), .read, .push (), .swap, .run, .run] (by
    refine ⟨trivial, fun s₁ h₁ => ⟨trivial, fun s₂ h₂ => ⟨.inr ?_, ?_⟩⟩⟩
    · obtain ⟨-, -, rfl⟩ := step_read_ok h₂
      rfl
    · exact fun _ _ => ⟨trivial, fun _ _ => ⟨trivial, fun _ _ => ⟨trivial, fun _ _ => trivial⟩⟩⟩)

/-- The loop is woken, reads the eventfd, finds no functor and waits again before
the caller has appended its functor. -/
theorem wake_up_lost : ¬ Run.Always step (Run.After step NoLostWakeUp) (init : State Unit Unit)
    [.write () (), .read, .swap, .run, .push ()] := by
  intro h
  have hlast := ((((h.2 _ rfl).2 _ rfl).2 _ rfl).2 _ rfl).1 _ rfl
  have hpos := hlast ⟨fun _ => rfl, rfl⟩ (List.cons_ne_nil _ _)
  exact absurd hpos (by decide)

end RunInLoopHandler

end Netpp
