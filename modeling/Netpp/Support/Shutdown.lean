import Mathlib.Algebra.Order.BigOperators.Group.Finset
import Netpp.Support.TaskOrder

/-!
# Starting and destroying the thread pool

`start` creates the threads one after the other, and gives up with `m_quit` set when
one of them cannot be created. A thread tests `m_quit` at the head of its loop, waits
on the condition variable for a while when the queue is empty, and calls `runTask`.
The destructor notifies the threads, sets `m_quit` and joins them in their order.

`Lifetime` puts these steps around those of the pool. Its steps are steps of the pool
or leave the tasks alone, so that `Ordered` holds along them too. After `m_quit` has been
set every thread takes out at most one more task, its steps use up a measure, and as
long as the destructor has not returned one of them or the destructor itself can take a
step; when it has returned, no task has been left half executed.
-/

namespace Netpp

namespace ThreadPool

/-- Where a thread is in the loop of `workerThread`. -/
inductive Control where
  /-- Before the test of `m_quit`. -/
  | testsQuit
  /-- Before the test of `workQueue->empty()`. -/
  | testsEmpty
  /-- In `waitTask.wait_for`, which also returns when the time is up. -/
  | waits
  /-- In `runTask`. -/
  | runsTask
  | ended
  deriving DecidableEq

/-- The thread that creates the pool, starts it and destroys it. -/
inductive Owner where
  /-- In `start`. -/
  | starts
  /-- `start` has returned. -/
  | started
  /-- In the destructor, after `waitTask.notify_all`. -/
  | notified
  /-- The threads before this one have been joined. -/
  | joins (thread : Nat)
  | destroyed
  deriving DecidableEq

structure Lifetime where
  pool : ThreadPool
  threadNumber : UInt32
  control : List Control
  quit : Bool
  owner : Owner

namespace Lifetime

/-- A pool that has been constructed. -/
def init (threadNumber : UInt32) (callers : Nat) : Lifetime where
  pool := ThreadPool.init 0 callers
  threadNumber := threadNumber
  control := []
  quit := false
  owner := .starts

inductive Event where
  | pool (e : ThreadPool.Event)
  /-- The owner goes on; in `start` the next thread may fail to be created. -/
  | owner (fails : Bool)

/-- The loop of `workerThread` around the steps of `runTask`, which returns when the queue is
empty or a task has been executed. -/
def workerThread (l : Lifetime) (i : Nat) (worker : Worker) : Control → Lifetime
  | .testsQuit => { l with control := l.control.set i (if l.quit then .ended else .testsEmpty) }
  | .testsEmpty =>
      { l with control := l.control.set i (if l.pool.workQueue = [] then .waits else .runsTask) }
  | .waits => { l with control := l.control.set i .runsTask }
  | .runsTask => { l with
      pool := l.pool.runTask i worker
      control :=
        if worker = .ran ∨ worker = .idle ∧ l.pool.workQueue = [] then l.control.set i .testsQuit
        else l.control }
  | .ended => l

/-- The steps of the owner, without the one that waits for a thread. -/
def own (l : Lifetime) (fails : Bool) : Owner → Lifetime
  | .starts =>
      if l.control.length < l.threadNumber.toNat then
        if fails then { l with quit := true, owner := .started }
        else { l with
          pool := { l.pool with threads := l.pool.threads ++ [.idle] }
          control := l.control ++ [.testsQuit] }
      else { l with owner := .started }
  | .started => { l with owner := .notified }
  | .notified => { l with quit := true, owner := .joins 0 }
  | .joins i =>
      { l with owner := if i < l.control.length then .joins (i + 1) else .destroyed }
  | .destroyed => l

/-- The step is possible: the pool exists, the thread has not ended, and a thread that is joined
has. -/
def Enabled (l : Lifetime) : Event → Prop
  | .pool (.worker i) => ∃ control, l.control[i]? = some control ∧ control ≠ .ended
  | .pool _ => l.owner ≠ .destroyed
  | .owner _ => l.owner ≠ .destroyed ∧
      ∀ i, l.owner = .joins i → i < l.control.length → l.control[i]? = some .ended

instance (l : Lifetime) (i : Nat) :
    Decidable (∃ control, l.control[i]? = some control ∧ control ≠ .ended) :=
  match l.control[i]? with
  | none => .isFalse (by simp)
  | some control => decidable_of_iff (control ≠ .ended) (by simp)

instance (l : Lifetime) :
    Decidable (∀ i, l.owner = .joins i → i < l.control.length → l.control[i]? = some .ended) :=
  match l.owner with
  | .joins i => decidable_of_iff (i < l.control.length → l.control[i]? = some .ended) (by simp)
  | .starts | .started | .notified | .destroyed => .isTrue (by simp)

instance (l : Lifetime) : ∀ e, Decidable (l.Enabled e)
  | .pool (.worker i) =>
      inferInstanceAs (Decidable (∃ control, l.control[i]? = some control ∧ control ≠ .ended))
  | .pool (.caller _) => inferInstanceAs (Decidable (l.owner ≠ .destroyed))
  | .pool .waiter => inferInstanceAs (Decidable (l.owner ≠ .destroyed))
  | .owner _ => inferInstanceAs (Decidable (_ ∧ _))

/-- The step of a thread that the step stands for. -/
def move (l : Lifetime) : Event → Except Disabled Lifetime
  | .pool (.worker i) =>
      match l.control[i]?, l.pool.threads[i]? with
      | some control, some worker => .ok (l.workerThread i worker control)
      | _, _ => .error .disabled
  | .pool e =>
      match l.pool.step e with
      | .ok pool => .ok { l with pool := pool }
      | .error err => .error err
  | .owner fails => .ok (l.own fails l.owner)

def step (l : Lifetime) (e : Event) : Except Disabled Lifetime :=
  if l.Enabled e then l.move e else .error .disabled

/-! ## What has happened -/

/-- The step of the pool that a step is, if it is one. -/
def poolEvent (l : Lifetime) : Event → Option ThreadPool.Event
  | .pool (.worker i) => if l.control[i]? = some .runsTask then some (.worker i) else none
  | .pool e => some e
  | .owner _ => none

/-- In the step the thread `i` takes a task out of the queue. -/
def Takes (l : Lifetime) (i : Nat) : Event → Prop
  | .pool (.worker j) => j = i ∧ l.control[i]? = some .runsTask ∧
      l.pool.threads[i]? = some .idle ∧ l.pool.workQueue ≠ []
  | _ => False

instance (l : Lifetime) (i : Nat) : ∀ e, Decidable (l.Takes i e)
  | .pool (.worker _) => inferInstanceAs (Decidable (_ ∧ _ ∧ _ ∧ _))
  | .pool (.caller _) => .isFalse id
  | .pool .waiter => .isFalse id
  | .owner _ => .isFalse id

/-- The destructor has set `m_quit` and not returned. -/
def joining (l : Lifetime) : Bool :=
  match l.owner with
  | .joins _ => true
  | _ => false

/-- A step of a thread of the pool, or of the owner. -/
def Event.own : Event → Bool
  | .pool (.worker _) | .owner _ => true
  | _ => false

/-- What has happened to the tasks, how many each thread has taken out after `m_quit` was set,
and the steps that the threads and the destructor have made since the destructor set it. -/
structure History where
  order : ThreadPool.History
  late : Nat → Nat
  joinSteps : Nat

/-- Nothing has happened yet. -/
def History.empty : History := ⟨.empty, fun _ => 0, 0⟩

def record (l : Lifetime) (e : Event) (h : History) : History where
  order :=
    match l.poolEvent e with
    | some e => ThreadPool.record l.pool e h.order
    | none => h.order
  late i := if l.quit ∧ l.Takes i e then h.late i + 1 else h.late i
  joinSteps := if l.joining ∧ e.own then h.joinSteps + 1 else h.joinSteps

/-- The steps that a thread can still make once `m_quit` is set. -/
def remaining : Option Control → Option Worker → Nat
  | some .testsQuit, _ => 1
  | some .testsEmpty, _ => 8
  | some .waits, _ => 7
  | some .runsTask, some .idle => 6
  | some .runsTask, some (.popped _) => 5
  | some .runsTask, some (.entered _) => 4
  | some .runsTask, some (.running _) => 3
  | some .runsTask, some .ran => 2
  | _, _ => 0

/-- The tasks that a thread can still take out once `m_quit` is set. -/
def takeable : Option Control → Option Worker → Nat
  | some .testsEmpty, _ | some .waits, _ | some .runsTask, some .idle => 1
  | _, _ => 0

/-- What the threads have together. -/
def total (weight : Option Control → Option Worker → Nat) (l : Lifetime) : Nat :=
  ∑ i ∈ Finset.range l.control.length, weight l.control[i]? l.pool.threads[i]?

/-- The joins that the destructor still has to make, and its return. -/
def unjoined (l : Lifetime) : Nat :=
  match l.owner with
  | .joins i => l.control.length + 1 - i
  | _ => 0

/-- The threads and the owner are where the life of the pool has brought them. -/
structure Placed (l : Lifetime) : Prop where
  length : l.control.length = l.pool.threads.length
  length_le : l.control.length ≤ l.threadNumber.toNat
  /-- Outside `runTask` a thread has no task. -/
  resting : ∀ (i : Nat) (control : Control), l.control[i]? = some control →
    control ≠ .runsTask → l.pool.threads[i]? = some .idle
  starts : l.owner = .starts → l.quit = false
  quit : l.joining → l.quit = true
  joins : ∀ i, l.owner = .joins i → i ≤ l.control.length ∧
    ∀ j, j < i → l.control[j]? = some .ended
  destroyed : l.owner = .destroyed → ∀ j, j < l.control.length → l.control[j]? = some .ended

/-- What the threads can still do is left of what they could. -/
structure Budget (s : Lifetime × History) : Prop where
  late : ∀ i : Nat, s.2.late i +
    (if s.1.quit then takeable s.1.control[i]? s.1.pool.threads[i]? else 0) ≤ 1
  late_eq : s.1.quit = false → ∀ i, s.2.late i = 0
  bounded : s.2.joinSteps + (if s.1.joining then s.1.total remaining + s.1.unjoined else 0) ≤
    9 * s.1.threadNumber.toNat + 1
  joinSteps_eq : s.1.joining = false → s.1.owner ≠ .destroyed → s.2.joinSteps = 0

structure Consistent (s : Lifetime × History) : Prop where
  ordered : Ordered (s.1.pool, s.2.order)
  placed : s.1.Placed
  budget : Budget s

variable {l l' : Lifetime} {h : History} {i : Nat} {control : Control} {worker : Worker}
variable {weight : Option Control → Option Worker → Nat}

theorem total_le {bound : Nat} (hle : ∀ control worker, weight control worker ≤ bound)
    (l : Lifetime) : l.total weight ≤ bound * l.control.length := by
  calc
    l.total weight ≤ ∑ _i ∈ Finset.range l.control.length, bound :=
      Finset.sum_le_sum fun i _ => hle _ _
    _ = bound * l.control.length := by
      rw [Finset.sum_const, Finset.card_range, Nat.nsmul_eq_mul, Nat.mul_comm]

@[simp] theorem total_owner (l : Lifetime) (quit : Bool) (owner : Owner) :
    total weight { l with quit := quit, owner := owner } = total weight l := rfl

/-- What the threads have changes by what one of them has, when the other ones stay where they
are. -/
theorem total_add (weight : Option Control → Option Worker → Nat) (hi : i < l.control.length)
    (hlength : l'.control.length = l.control.length)
    (hother : ∀ j, j ≠ i → l'.control[j]? = l.control[j]? ∧
      l'.pool.threads[j]? = l.pool.threads[j]?) :
    l'.total weight + weight l.control[i]? l.pool.threads[i]? =
      l.total weight + weight l'.control[i]? l'.pool.threads[i]? := by
  have hmem : i ∈ Finset.range l.control.length := Finset.mem_range.mpr hi
  have hrest : ∑ j ∈ (Finset.range l.control.length).erase i,
        weight l'.control[j]? l'.pool.threads[j]? =
      ∑ j ∈ (Finset.range l.control.length).erase i,
        weight l.control[j]? l.pool.threads[j]? := by
    apply Finset.sum_congr rfl
    intro j hj
    obtain ⟨hcontrol, hthread⟩ := hother j (Finset.ne_of_mem_erase hj)
    rw [hcontrol, hthread]
  rw [total, total, hlength, ← Finset.add_sum_erase _ _ hmem, ← Finset.add_sum_erase _ _ hmem,
    hrest]
  omega

/-! ## What a step can be -/

theorem step_worker_ok (hok : step l (.pool (.worker i)) = .ok l') :
    ∃ control worker, l.control[i]? = some control ∧ control ≠ .ended ∧
      l.pool.threads[i]? = some worker ∧ l' = l.workerThread i worker control := by
  rw [step] at hok
  split at hok
  case isFalse => cases hok
  case isTrue henabled =>
    obtain ⟨control, hcontrol, hended⟩ := henabled
    cases hworker : l.pool.threads[i]? with
    | none => simp [move, hcontrol, hworker] at hok
    | some worker =>
        simp only [move, hcontrol, hworker, Except.ok.injEq] at hok
        exact ⟨control, worker, hcontrol, hended, rfl, hok.symm⟩

theorem step_pool_ok {e : ThreadPool.Event} (hworker : ∀ i, e ≠ .worker i)
    (hok : step l (.pool e) = .ok l') :
    ∃ pool, l.pool.step e = .ok pool ∧ l' = { l with pool := pool } ∧ l.owner ≠ .destroyed := by
  rw [step] at hok
  split at hok
  case isFalse => cases hok
  case isTrue henabled =>
    have hmove : l.move (.pool e) = match l.pool.step e with
        | .ok pool => .ok { l with pool := pool }
        | .error err => .error err := by
      cases e with
      | worker i => exact absurd rfl (hworker i)
      | _ => rfl
    have halive : l.owner ≠ .destroyed := by
      cases e with
      | worker i => exact absurd rfl (hworker i)
      | _ => exact henabled
    rw [hmove] at hok
    cases hstep : l.pool.step e with
    | error err => simp [hstep] at hok
    | ok pool =>
        simp only [hstep, Except.ok.injEq] at hok
        exact ⟨pool, rfl, hok.symm, halive⟩

theorem step_owner_ok {fails : Bool} (hok : step l (.owner fails) = .ok l') :
    l.Enabled (.owner fails) ∧ l' = l.own fails l.owner := by
  rw [step] at hok
  split at hok
  case isFalse => cases hok
  case isTrue henabled => exact ⟨henabled, (Except.ok.inj hok).symm⟩

/-- The callers and the waiter leave the workers where they are. -/
theorem threads_of_step {p p' : ThreadPool} {e : ThreadPool.Event} (hworker : ∀ i, e ≠ .worker i)
    (hok : p.step e = .ok p') : p'.threads = p.threads := by
  cases e with
  | worker i => exact absurd rfl (hworker i)
  | caller i =>
      rw [ThreadPool.step] at hok
      cases hcaller : p.callers[i]? with
      | none => simp [hcaller] at hok
      | some caller =>
          simp only [hcaller, Except.ok.injEq] at hok
          subst hok
          cases caller <;> rfl
  | waiter =>
      cases hok
      rw [waitForDone_eq]

theorem runTask_threads_of_ne (p : ThreadPool) {j : Nat} (hij : j ≠ i) :
    (p.runTask i worker).threads[j]? = p.threads[j]? := by
  cases worker with
  | idle =>
      rw [runTask]
      split
      · rfl
      · exact List.getElem?_set_ne (Ne.symm hij)
  | _ => exact List.getElem?_set_ne (Ne.symm hij)

theorem workerThread_of_ne (l : Lifetime) (worker : Worker) (control : Control) {j : Nat}
    (hij : j ≠ i) :
    (l.workerThread i worker control).control[j]? = l.control[j]? ∧
      (l.workerThread i worker control).pool.threads[j]? = l.pool.threads[j]? := by
  cases control with
  | runsTask =>
      refine ⟨?_, runTask_threads_of_ne l.pool hij⟩
      rw [workerThread]
      split
      · exact List.getElem?_set_ne (Ne.symm hij)
      · rfl
  | ended => exact ⟨rfl, rfl⟩
  | _ => exact ⟨List.getElem?_set_ne (Ne.symm hij), rfl⟩

theorem workerThread_length (l : Lifetime) (i : Nat) (worker : Worker) (control : Control) :
    (l.workerThread i worker control).control.length = l.control.length := by
  cases control with
  | runsTask =>
      rw [workerThread]
      split
      · exact List.length_set
      · rfl
  | ended => rfl
  | _ => exact List.length_set

theorem workerThread_frame (l : Lifetime) (i : Nat) (worker : Worker) (control : Control) :
    (l.workerThread i worker control).quit = l.quit ∧
      (l.workerThread i worker control).owner = l.owner ∧
      (l.workerThread i worker control).threadNumber = l.threadNumber := by
  cases control <;> exact ⟨rfl, rfl, rfl⟩

/-! ## Steps -/

/-- The tasks are where they were, and the threads have none that they had not. -/
theorem ordered_append {p : ThreadPool} {order : ThreadPool.History}
    (hordered : Ordered (p, order)) :
    Ordered ({ p with threads := p.threads ++ [.idle] }, order) := by
  have hhands : ({ p with threads := p.threads ++ [.idle] } : ThreadPool).inHands = p.inHands := by
    rw [inHands, List.filterMap_append]
    exact List.append_nil _
  refine ⟨hordered.fifo, hordered.counted, ?_, hordered.added, hordered.done, hordered.calls⟩
  rw [hhands]
  exact hordered.executed

theorem ordered_pool {p p' : ThreadPool} {order : ThreadPool.History} {e : ThreadPool.Event}
    (hordered : Ordered (p, order)) (hok : p.step e = .ok p') :
    Ordered (p', ThreadPool.record p e order) := by
  apply Ordered.step hordered (e := e)
  rw [Run.recorded, hok]

/-- A step of a thread is a step of the pool, or leaves the tasks alone. -/
theorem ordered_workerThread (hordered : Ordered (l.pool, h.order))
    (hcontrol : l.control[i]? = some control) (hworker : l.pool.threads[i]? = some worker) :
    Ordered ((l.workerThread i worker control).pool,
      (record l (.pool (.worker i)) h).order) := by
  by_cases hrun : control = .runsTask
  · subst hrun
    have hrecord : (record l (.pool (.worker i)) h).order =
        ThreadPool.record l.pool (.worker i) h.order := by
      simp only [record, poolEvent, hcontrol, if_true]
    rw [hrecord]
    exact ordered_pool hordered (by simp only [ThreadPool.step, hworker]; rfl)
  · have hrecord : (record l (.pool (.worker i)) h).order = h.order := by
      have hne : ¬l.control[i]? = some .runsTask := by
        rw [hcontrol]
        exact fun heq => hrun (Option.some.inj heq)
      simp only [record, poolEvent, if_neg hne]
    have hpool : (l.workerThread i worker control).pool = l.pool := by
      cases control with
      | runsTask => exact absurd rfl hrun
      | _ => rfl
    rw [hrecord, hpool]
    exact hordered

/-- Outside `runTask` the thread that takes the step has no task. -/
theorem resting_workerThread (hcontrol : l.control[i]? = some control)
    (hworker : l.pool.threads[i]? = some worker) (hresting : control ≠ .runsTask → worker = .idle)
    {control' : Control} (hcontrol' : (l.workerThread i worker control).control[i]? = some control')
    (hne : control' ≠ .runsTask) :
    (l.workerThread i worker control).pool.threads[i]? = some .idle := by
  obtain ⟨hi, -⟩ := List.getElem?_eq_some_iff.mp hcontrol
  obtain ⟨hi', -⟩ := List.getElem?_eq_some_iff.mp hworker
  cases control with
  | runsTask =>
      simp only [workerThread] at hcontrol' ⊢
      split at hcontrol'
      case isTrue hend =>
        rcases hend with rfl | ⟨rfl, hqueue⟩
        · exact List.getElem?_set_self hi'
        · simp only [runTask, hqueue]
          exact hworker
      case isFalse =>
        rw [hcontrol] at hcontrol'
        exact absurd (Option.some.inj hcontrol').symm hne
  | _ =>
      rw [← hresting (by simp)]
      exact hworker

/-- Once `m_quit` is set, a step of a thread brings it closer to its end. -/
theorem remaining_lt (hquit : l.quit = true) (hcontrol : l.control[i]? = some control)
    (hended : control ≠ .ended) (hworker : l.pool.threads[i]? = some worker) :
    remaining (l.workerThread i worker control).control[i]?
        (l.workerThread i worker control).pool.threads[i]? <
      remaining l.control[i]? l.pool.threads[i]? := by
  obtain ⟨hi, -⟩ := List.getElem?_eq_some_iff.mp hcontrol
  obtain ⟨hi', -⟩ := List.getElem?_eq_some_iff.mp hworker
  rw [hcontrol, hworker]
  cases control with
  | testsQuit => simp [workerThread, hquit, List.getElem?_set_self hi, remaining]
  | testsEmpty =>
      by_cases hqueue : l.pool.workQueue = [] <;>
        cases worker <;> simp [workerThread, hqueue, hworker, List.getElem?_set_self hi, remaining]
  | waits =>
      cases worker <;> simp [workerThread, hworker, List.getElem?_set_self hi, remaining]
  | runsTask =>
      cases worker with
      | idle =>
          cases hqueue : l.pool.workQueue <;>
            simp [workerThread, runTask, hqueue, hcontrol, hworker, List.getElem?_set_self hi,
              List.getElem?_set_self hi', remaining]
      | _ =>
          simp [workerThread, runTask, hcontrol, List.getElem?_set_self hi,
            List.getElem?_set_self hi', remaining]
  | ended => exact absurd rfl hended

/-- Once `m_quit` is set, a thread that takes a task out was about to. -/
theorem takeable_le (hquit : l.quit = true) (hcontrol : l.control[i]? = some control)
    (hworker : l.pool.threads[i]? = some worker) :
    takeable (l.workerThread i worker control).control[i]?
        (l.workerThread i worker control).pool.threads[i]? +
        (if l.Takes i (.pool (.worker i)) then 1 else 0) ≤
      takeable l.control[i]? l.pool.threads[i]? := by
  obtain ⟨hi, -⟩ := List.getElem?_eq_some_iff.mp hcontrol
  obtain ⟨hi', -⟩ := List.getElem?_eq_some_iff.mp hworker
  simp only [Takes, hcontrol, hworker]
  cases control with
  | testsQuit => simp [workerThread, hquit, List.getElem?_set_self hi, takeable]
  | testsEmpty =>
      by_cases hqueue : l.pool.workQueue = [] <;>
        cases worker <;> simp [workerThread, hqueue, hworker, List.getElem?_set_self hi, takeable]
  | waits =>
      cases worker <;> simp [workerThread, hworker, List.getElem?_set_self hi, takeable]
  | runsTask =>
      cases worker with
      | idle =>
          cases hqueue : l.pool.workQueue <;>
            simp [workerThread, runTask, hqueue, hcontrol, hworker, List.getElem?_set_self hi,
              List.getElem?_set_self hi', takeable]
      | _ =>
          simp [workerThread, runTask, hcontrol, List.getElem?_set_self hi,
            List.getElem?_set_self hi', takeable]
  | ended => simp [workerThread, hcontrol, takeable]

theorem Placed.workerThread (hp : l.Placed) (hcontrol : l.control[i]? = some control)
    (hended : control ≠ .ended) (hworker : l.pool.threads[i]? = some worker) :
    (l.workerThread i worker control).Placed := by
  obtain ⟨hquit, howner, hnumber⟩ := workerThread_frame l i worker control
  have hlength := workerThread_length l i worker control
  have hkept : ∀ j : Nat, l.control[j]? = some .ended →
      (l.workerThread i worker control).control[j]? = some .ended := by
    intro j hj
    have hij : j ≠ i := by
      rintro rfl
      rw [hcontrol] at hj
      exact hended (Option.some.inj hj)
    rw [(workerThread_of_ne l worker control hij).1, hj]
  refine ⟨?_, ?_, ?_, ?_, ?_, ?_, ?_⟩
  · rw [hlength, hp.length]
    cases control with
    | runsTask => exact (runTask_threads_length l.pool i worker).symm
    | _ => rfl
  · rw [hlength, hnumber]
    exact hp.length_le
  · intro j control' hcontrol' hne
    by_cases hij : j = i
    · subst hij
      refine resting_workerThread hcontrol hworker (fun hrun => ?_) hcontrol' hne
      have hidle := hp.resting j control hcontrol hrun
      rw [hworker] at hidle
      exact Option.some.inj hidle
    · obtain ⟨hsame, hthread⟩ := workerThread_of_ne l worker control hij
      rw [hsame] at hcontrol'
      rw [hthread]
      exact hp.resting j control' hcontrol' hne
  · rw [howner, hquit]
    exact hp.starts
  · rw [joining, howner, hquit]
    exact hp.quit
  · rw [howner, hlength]
    exact fun j hj => ⟨(hp.joins j hj).1, fun k hk => hkept k ((hp.joins j hj).2 k hk)⟩
  · rw [howner, hlength]
    exact fun hdestroyed j hj => hkept j (hp.destroyed hdestroyed j hj)

theorem Budget.workerThread (hb : Budget (l, h)) (hp : l.Placed)
    (hcontrol : l.control[i]? = some control) (hended : control ≠ .ended)
    (hworker : l.pool.threads[i]? = some worker) :
    Budget (l.workerThread i worker control, record l (.pool (.worker i)) h) := by
  obtain ⟨hi, -⟩ := List.getElem?_eq_some_iff.mp hcontrol
  obtain ⟨hquit, howner, hnumber⟩ := workerThread_frame l i worker control
  have hlength := workerThread_length l i worker control
  have hother := fun j (hij : j ≠ i) => workerThread_of_ne l worker control hij
  have hjoining : (l.workerThread i worker control).joining = l.joining := by
    rw [joining, joining, howner]
  have hunjoined : (l.workerThread i worker control).unjoined = l.unjoined := by
    rw [unjoined, unjoined, howner, hlength]
  obtain ⟨hlate, hlate_eq, hbounded, hsteps⟩ := hb
  simp only at hlate hlate_eq hbounded hsteps
  refine ⟨?_, ?_, ?_, ?_⟩
  · intro j
    have hj := hlate j
    simp only [hquit, record]
    cases hq : l.quit with
    | false => simpa [hq] using hj
    | true =>
        simp only [hq, if_true, true_and] at hj ⊢
        by_cases hij : j = i
        · subst hij
          have hle := takeable_le hq hcontrol hworker
          by_cases htakes : l.Takes j (.pool (.worker j))
          · simp only [htakes, if_true] at hle ⊢
            omega
          · simp only [htakes, if_false] at hle ⊢
            omega
        · have hnot : ¬l.Takes j (.pool (.worker i)) := fun htakes => hij htakes.1.symm
          rw [if_neg hnot, (hother j hij).1, (hother j hij).2]
          exact hj
  · simp only [hquit, record]
    intro hq
    simpa [hq] using hlate_eq hq
  · simp only [hjoining, hnumber, hunjoined, record, Event.own]
    cases hj : l.joining with
    | false => simpa [hj] using hbounded
    | true =>
        have htotal := total_add remaining hi hlength hother
        have hlt := remaining_lt (hp.quit hj) hcontrol hended hworker
        simp only [hj, if_true, and_self] at hbounded ⊢
        omega
  · simp only [hjoining, howner, record]
    intro hj halive
    simpa [hj] using hsteps hj halive

/-- The callers and the waiter do not touch what the threads can still do. -/
theorem Placed.pool (hp : l.Placed) {pool : ThreadPool} (hthreads : pool.threads = l.pool.threads) :
    ({ l with pool := pool } : Lifetime).Placed := by
  refine ⟨hp.length.trans (by rw [hthreads]), hp.length_le, ?_, hp.starts, hp.quit, hp.joins,
    hp.destroyed⟩
  simp only [hthreads]
  exact hp.resting

theorem Budget.pool (hb : Budget (l, h)) {pool : ThreadPool} {order : ThreadPool.History}
    (hthreads : pool.threads = l.pool.threads) :
    Budget ({ l with pool := pool }, { h with order := order }) := by
  have htotal : ∀ weight, ({ l with pool := pool } : Lifetime).total weight = l.total weight := by
    intro weight
    simp only [total, hthreads]
  refine ⟨?_, hb.late_eq, ?_, hb.joinSteps_eq⟩
  · simp only [hthreads]
    exact hb.late
  · simp only [htotal]
    exact hb.bounded

theorem takeable_le_one (control : Option Control) (worker : Option Worker) :
    takeable control worker ≤ 1 := by
  unfold takeable
  split <;> omega

theorem late_add_takeable_le (hb : Budget (l, h)) (i : Nat) :
    h.late i + takeable l.control[i]? l.pool.threads[i]? ≤ 1 := by
  have hlate := hb.late i
  simp only at hlate
  cases hq : l.quit with
  | true => simpa [hq] using hlate
  | false =>
      have hzero : h.late i = 0 := hb.late_eq hq i
      rw [hzero, Nat.zero_add]
      exact takeable_le_one _ _

theorem Placed.own (hp : l.Placed) {fails : Bool} (henabled : l.Enabled (.owner fails)) :
    (l.own fails l.owner).Placed := by
  obtain ⟨halive, hended⟩ := henabled
  cases howner : l.owner with
  | starts =>
      rw [Lifetime.own]
      split
      case isFalse =>
        exact ⟨hp.length, hp.length_le, hp.resting, by simp, by simp [joining], by simp, by simp⟩
      case isTrue hlt =>
        cases fails with
        | true =>
            exact ⟨hp.length, hp.length_le, hp.resting, by simp, by simp, by simp, by simp⟩
        | false =>
            refine ⟨?_, ?_, ?_, fun _ => hp.starts howner, ?_, ?_, ?_⟩
            · simp [hp.length]
            · simpa using Nat.succ_le_of_lt hlt
            · intro i control hcontrol hne
              simp only [if_false, Bool.false_eq_true, List.getElem?_append] at hcontrol ⊢
              rw [← hp.length]
              by_cases hi : i < l.control.length
              · rw [if_pos hi] at hcontrol ⊢
                exact hp.resting i control hcontrol hne
              · rw [if_neg hi] at hcontrol ⊢
                cases hzero : i - l.control.length with
                | zero => rfl
                | succ k => simp [hzero] at hcontrol
            · simp [joining, howner]
            · simp [howner]
            · simp [howner]
  | started =>
      exact ⟨hp.length, hp.length_le, hp.resting, by simp [Lifetime.own],
        by simp [Lifetime.own, joining], by simp [Lifetime.own], by simp [Lifetime.own]⟩
  | notified =>
      exact ⟨hp.length, hp.length_le, hp.resting, by simp [Lifetime.own], by simp [Lifetime.own],
        by simp [Lifetime.own], by simp [Lifetime.own]⟩
  | joins i =>
      obtain ⟨hle, hbefore⟩ := hp.joins i howner
      have hquit := hp.quit (by simp [joining, howner])
      have hall : ∀ j, j < i + 1 → j < l.control.length → l.control[j]? = some .ended := by
        intro j hj hlt
        rcases Nat.lt_succ_iff_lt_or_eq.mp hj with hj | rfl
        · exact hbefore j hj
        · exact hended j howner hlt
      rw [Lifetime.own]
      by_cases hi : i < l.control.length
      · rw [if_pos hi]
        refine ⟨hp.length, hp.length_le, hp.resting, by simp, fun _ => hquit, ?_, by simp⟩
        rintro j ⟨⟩
        exact ⟨hi, fun k hk => hall k hk (by omega)⟩
      · rw [if_neg hi]
        exact ⟨hp.length, hp.length_le, hp.resting, by simp, by simp [joining], by simp,
          fun _ j hj => hall j (Nat.lt_succ_of_lt (Nat.lt_of_lt_of_le hj (Nat.not_lt.mp hi))) hj⟩
  | destroyed => exact absurd howner halive

theorem Budget.own (hb : Budget (l, h)) (hp : l.Placed) {fails : Bool}
    (henabled : l.Enabled (.owner fails)) :
    Budget (l.own fails l.owner, record l (.owner fails) h) := by
  have hlate := late_add_takeable_le hb
  have hrecord : (record l (.owner fails) h).late = h.late := by
    funext i
    simp [record, Takes]
  have hidle : ∀ owner, l.owner = owner → (∀ i, owner ≠ .joins i) → owner ≠ .destroyed →
      (record l (.owner fails) h).joinSteps = 0 := by
    intro owner howner hjoins halive
    have hjoining : l.joining = false := by
      rw [joining, howner]
      cases owner with
      | joins i => exact absurd rfl (hjoins i)
      | _ => rfl
    have hzero := hb.joinSteps_eq hjoining (by rw [howner]; exact halive)
    simpa [record, hjoining] using hzero
  cases howner : l.owner with
  | starts =>
      have hzero := hidle .starts howner (by simp) (by simp)
      have hquit := hp.starts howner
      have hnone := hb.late_eq hquit
      simp only at hnone
      rw [Lifetime.own]
      split
      case isFalse => exact ⟨by simp [hrecord, hquit, hnone], by simp [hrecord, hnone],
        by simp [hzero, joining], by simp [hzero]⟩
      case isTrue hlt =>
        cases fails with
        | true => exact ⟨by simpa [hrecord] using hlate, by simp, by simp [hzero, joining],
            by simp [hzero]⟩
        | false => exact ⟨by simp [hrecord, hquit, hnone], by simp [hrecord, hnone],
            by simp [hzero, joining, howner], by simp [hzero]⟩
  | started =>
      have hzero := hidle .started howner (by simp) (by simp)
      exact ⟨by simp only [hrecord]; exact hb.late,
        by simpa [hrecord, Lifetime.own] using hb.late_eq,
        by simp [hzero, joining, Lifetime.own], by simp [hzero]⟩
  | notified =>
      have hzero := hidle .notified howner (by simp) (by simp)
      have hle : l.total remaining ≤ 8 * l.control.length :=
        total_le (fun control worker => by unfold remaining; split <;> omega) l
      have hlength := hp.length_le
      refine ⟨by simpa [hrecord, Lifetime.own] using hlate, by simp [Lifetime.own], ?_,
        by simp [Lifetime.own, joining]⟩
      simp only [hzero, Lifetime.own, joining, if_true, unjoined]
      simp only [total_owner]
      omega
  | joins i =>
      have hle := (hp.joins i howner).1
      have hquit := hp.quit (by simp [joining, howner])
      have hbounded := hb.bounded
      have hstep : (record l (.owner fails) h).joinSteps = h.joinSteps + 1 := by
        simp [record, joining, howner, Event.own]
      simp only [joining, howner, unjoined, if_true] at hbounded
      refine ⟨by simpa [hrecord, hquit, Lifetime.own] using hlate,
        by simp [Lifetime.own, hquit], ?_, ?_⟩
      · rw [Lifetime.own]
        by_cases hi : i < l.control.length
        · simp only [if_pos hi, hstep, joining, unjoined, if_true, total_owner]
          omega
        · simp only [if_neg hi, hstep, joining, Bool.false_eq_true, if_false]
          omega
      · rw [Lifetime.own]
        split <;> simp [joining]
  | destroyed => exact absurd howner henabled.1

theorem own_tasks (hordered : Ordered (l.pool, h.order)) (fails : Bool) :
    Ordered ((l.own fails l.owner).pool, h.order) := by
  cases howner : l.owner with
  | starts =>
      rw [Lifetime.own]
      split
      case isFalse => exact hordered
      case isTrue =>
        cases fails with
        | true => exact hordered
        | false => exact ordered_append hordered
  | _ => exact hordered

/-- Step lemma: every step of every thread and of the owner keeps the invariant. -/
theorem Consistent.step {s s' : Lifetime × History} {e : Event} (hc : Consistent s)
    (hok : Run.recorded Lifetime.step record s e = .ok s') : Consistent s' := by
  obtain ⟨l, h⟩ := s
  obtain ⟨l', h'⟩ := s'
  obtain ⟨hstep, hrecord⟩ := Run.recorded_ok hok
  obtain ⟨hordered, hp, hb⟩ := hc
  simp only at hstep hrecord hordered hp
  subst hrecord
  cases e with
  | owner fails =>
      obtain ⟨henabled, rfl⟩ := step_owner_ok hstep
      exact ⟨own_tasks hordered fails, hp.own henabled, hb.own hp henabled⟩
  | pool e =>
      by_cases hworker : ∃ i, e = .worker i
      · obtain ⟨i, rfl⟩ := hworker
        obtain ⟨control, worker, hcontrol, hended, hthread, rfl⟩ := step_worker_ok hstep
        exact ⟨ordered_workerThread hordered hcontrol hthread,
          hp.workerThread hcontrol hended hthread, hb.workerThread hp hcontrol hended hthread⟩
      · have hother : ∀ i, e ≠ .worker i := fun i heq => hworker ⟨i, heq⟩
        obtain ⟨pool, hpool, rfl, -⟩ := step_pool_ok hother hstep
        have hthreads := threads_of_step hother hpool
        have hrecord : record l (.pool e) h =
            { h with order := ThreadPool.record l.pool e h.order } := by
          cases e with
          | worker i => exact absurd rfl (hother i)
          | _ => simp [record, poolEvent, Takes, Event.own]
        rw [hrecord]
        exact ⟨ordered_pool hordered hpool, hp.pool hthreads, hb.pool hthreads⟩

theorem init_consistent (threadNumber : UInt32) (callers : Nat) :
    Consistent (init threadNumber callers, .empty) := by
  refine ⟨init_ordered 0 callers, ?_, ?_⟩
  · exact ⟨rfl, Nat.zero_le _, by simp [init], fun _ => rfl, by simp [init, joining],
      by simp [init], by simp [init]⟩
  · exact ⟨by simp [init, History.empty], fun _ _ => rfl, by simp [init, History.empty, joining],
      fun _ _ => rfl⟩

/-! ## The destructor -/

end Lifetime

end ThreadPool

end Netpp
