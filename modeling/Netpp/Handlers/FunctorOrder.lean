import Netpp.Handlers.RunInLoopHandler

/-!
# The order in which functors run

The loop moves the whole queue out under the lock and runs what it has moved out
from the front, while callers, among them the functors that run, append to the
queue again. `History` keeps what has happened, and `InOrder` says that the
functors that have run, those moved out and those in the queue are together what
was submitted, in the order of the lock. A thread submits its functors in the order
of its calls.
-/

namespace Netpp

namespace RunInLoopHandler

/-- What has happened in a run. -/
structure History (ι φ : Type*) where
  /-- The calls of `addPendingFunction`, each with its thread. -/
  called : List (ι × φ)
  /-- The submissions, in the order in which they took `m_functorMutex`. -/
  submitted : List (ι × φ)
  /-- The functors that have run. -/
  ran : List φ

variable {ι φ : Type*}

/-- The functors that `handleIn` has moved out and not run yet. -/
def Loop.functors : Loop φ → List φ
  | .running functors => functors
  | _ => []

/-- The functor of a thread that has called and not submitted it yet. -/
def State.unsubmitted (s : State ι φ) (i : ι) : List (ι × φ) :=
  (s.caller i).toList.map fun functor => (i, functor)

def record (s : State ι φ) (e : Event ι φ) (h : History ι φ) : History ι φ :=
  match e with
  | .write i functor => { h with called := h.called ++ [(i, functor)] }
  | .push i => { h with submitted := h.submitted ++ s.unsubmitted i }
  | .run => { h with ran := h.ran ++ s.loop.functors.head?.toList }
  | _ => h

/-- Nothing has happened yet. -/
def History.empty : History ι φ := ⟨[], [], []⟩

/-- No functor is lost, duplicated or overtaken. -/
structure InOrder [DecidableEq ι] (s : State ι φ × History ι φ) : Prop where
  /-- The functors that have run, those moved out and those pending are the
  submissions in their order. -/
  conserved : s.2.ran ++ s.1.loop.functors ++ s.1.pendingFunctors = s.2.submitted.map Prod.snd
  /-- A thread submits in the order of its calls. -/
  ofThread : ∀ i, s.2.called.filter (·.1 = i) =
    s.2.submitted.filter (·.1 = i) ++ s.1.unsubmitted i

theorem functors_runNext (functors : List φ) :
    functors.head?.toList ++ (runNext functors).functors = functors := by
  cases functors with
  | nil => rfl
  | cons functor functors => rfl

/-- The entries of a thread, after one more of another thread or of its own. -/
theorem filter_append_single [DecidableEq ι] (xs : List (ι × φ)) (i j : ι) (functor : φ) :
    (xs ++ [(j, functor)]).filter (·.1 = i) =
      xs.filter (·.1 = i) ++ if j = i then [(j, functor)] else [] := by
  rw [List.filter_append]
  by_cases hij : j = i <;> simp [hij]

theorem init_inOrder [DecidableEq ι] : InOrder ((init, .empty) : State ι φ × History ι φ) :=
  ⟨rfl, fun _ => rfl⟩

/-- Step lemma: every step of every thread keeps the order. -/
theorem InOrder.step [DecidableEq ι] {s s' : State ι φ × History ι φ} {e : Event ι φ}
    (h : InOrder s) (hok : Run.recorded step record s e = .ok s') : InOrder s' := by
  obtain ⟨s, history⟩ := s
  obtain ⟨s', history'⟩ := s'
  obtain ⟨hstep, hrecord⟩ := Run.recorded_ok hok
  obtain ⟨hconserved, hthread⟩ := h
  simp only at hstep hrecord hconserved hthread
  subst hrecord
  cases e with
  | write i functor =>
      obtain ⟨hcaller, rfl⟩ := step_write_ok hstep
      refine ⟨hconserved, fun j => ?_⟩
      simp only [record]
      rw [filter_append_single, hthread j]
      by_cases hij : i = j
      · subst hij
        simp [State.unsubmitted, hcaller]
      · simp [State.unsubmitted, hij, Function.update_of_ne (Ne.symm hij)]
  | push i =>
      obtain ⟨functor, hcaller, rfl⟩ := step_push_ok hstep
      have hunsubmitted : s.unsubmitted i = [(i, functor)] := by
        simp [State.unsubmitted, hcaller]
      refine ⟨?_, fun j => ?_⟩
      · simp only [record, hunsubmitted]
        rw [List.map_append, ← hconserved, ← List.append_assoc]
        rfl
      · simp only [record, hunsubmitted]
        rw [filter_append_single, hthread j]
        by_cases hij : i = j
        · subst hij
          simp [State.unsubmitted, hcaller]
        · simp [State.unsubmitted, hij, Function.update_of_ne (Ne.symm hij)]
  | read =>
      obtain ⟨hloop, -, rfl⟩ := step_read_ok hstep
      rw [hloop] at hconserved
      exact ⟨hconserved, hthread⟩
  | swap =>
      obtain ⟨hloop, rfl⟩ := step_swap_ok hstep
      refine ⟨?_, hthread⟩
      rw [hloop] at hconserved
      simp only [record]
      rw [List.append_nil, ← hconserved]
      simp [Loop.functors]
  | run =>
      obtain ⟨functors, hloop, rfl⟩ := step_run_ok hstep
      refine ⟨?_, hthread⟩
      rw [hloop] at hconserved
      simp only [record, hloop]
      rw [← hconserved, List.append_assoc history.ran]
      exact congrArg (history.ran ++ · ++ s.pendingFunctors) (functors_runNext functors)

/-- In every run, what has run, what the loop has moved out and what is pending are the
submissions in the order of the lock. -/
theorem ran_in_order [DecidableEq ι] (events : List (Event ι φ)) :
    Run.Always (Run.recorded step record)
      (Run.After (Run.recorded step record) InOrder) (init, .empty) events :=
  Run.always_of_invariant (fun _ _ _ h hok => h.step hok) init_inOrder events

end RunInLoopHandler

end Netpp
