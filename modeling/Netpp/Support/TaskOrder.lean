import Mathlib.Algebra.Ring.Nat
import Mathlib.Data.List.Range
import Netpp.Library.Queue
import Netpp.Support.Barrier

/-!
# The order of the tasks of a pool

The callers of `addTask` count their tasks with one atomic operation and push them
with another one, under the mutex of the queue, and the workers take the tasks out
under that mutex. `History` keeps the calls with the tasks whose `addTask` had
returned before, and the order in which tasks were pushed and taken out. A worker that
has taken a task out executes it three steps later, so several workers may begin to
execute their tasks in another order.

The pool is a queue that is linearizable: what has been taken out and what is queued
are the pushed tasks in their order, every counted task is at exactly one place, and
a task that was added before the call for another one is taken out before it. A pool
of one worker runs its tasks one at a time, in the order in which they were pushed.
-/

namespace Netpp

namespace ThreadPool

/-- A call of `addTask`: its task, and the tasks whose `addTask` had returned before. -/
structure Call where
  task : Nat
  before : List Nat

/-- What has happened in a run. -/
structure History where
  calls : List Call
  /-- The tasks in the order in which they were pushed. -/
  pushed : List Nat
  /-- The tasks in the order in which workers took them out. -/
  takenOut : List Nat

/-- Nothing has happened yet. -/
def History.empty : History := ⟨[], [], []⟩

def recordCaller (p : ThreadPool) (h : History) : Caller → History
  | .idle => { h with calls := h.calls ++ [⟨p.next, p.added⟩] }
  | .counted task => { h with pushed := h.pushed ++ [task] }
  | .pushed _ => h

def recordWorker (p : ThreadPool) (h : History) : Worker → History
  | .idle => { h with takenOut := h.takenOut ++ p.workQueue.head?.toList }
  | _ => h

def record (p : ThreadPool) (e : Event) (h : History) : History :=
  match e with
  | .caller i => (p.callers[i]?.map (p.recordCaller h)).getD h
  | .worker i => (p.threads[i]?.map (p.recordWorker h)).getD h
  | .waiter => h

/-- The task that the caller has counted and not pushed yet. -/
def Caller.unpushed : Caller → Option Nat
  | .counted task => some task
  | _ => none

/-- The task that the caller has pushed. -/
def Caller.done : Caller → Option Nat
  | .pushed task => some task
  | _ => none

def unpushed (p : ThreadPool) : List Nat := p.callers.filterMap Caller.unpushed

/-- The tasks that workers have taken out and not finished. -/
def inHands (p : ThreadPool) : List Nat := p.threads.filterMap Worker.task

/-- The pool is a linearizable queue that loses and repeats no task. -/
structure Linearizable (s : ThreadPool × History) : Prop where
  fifo : s.2.pushed = s.2.takenOut ++ s.1.workQueue
  once : (s.1.unpushed ++ s.1.workQueue ++ s.1.inHands ++ s.1.finished).Perm
    (List.range s.1.next)
  realTime : ∀ call ∈ s.2.calls, ∀ task ∈ call.before, call.task ∈ s.2.takenOut →
    [task, call.task].Sublist s.2.takenOut

/-! ## The invariant -/

structure Ordered (s : ThreadPool × History) : Prop where
  fifo : s.2.pushed = s.2.takenOut ++ s.1.workQueue
  counted : (s.1.unpushed ++ s.2.pushed).Perm (List.range s.1.next)
  executed : (s.1.inHands ++ s.1.finished).Perm s.2.takenOut
  added : ∀ task ∈ s.1.added, task ∈ s.2.pushed
  done : ∀ task, .pushed task ∈ s.1.callers → task ∈ s.2.pushed
  calls : ∀ call ∈ s.2.calls, call.task < s.1.next ∧ ∀ task ∈ call.before,
    task ∈ s.2.pushed ∧ (call.task ∈ s.2.pushed → [task, call.task].Sublist s.2.pushed)

variable {p p' : ThreadPool} {i : Nat} {caller : Caller} {worker : Worker} {h : History}

theorem Ordered.lt_next (hordered : Ordered (p, h)) {task : Nat} (hmem : task ∈ h.pushed) :
    task < p.next :=
  List.mem_range.mp (hordered.counted.subset (List.mem_append_right _ hmem))

theorem Ordered.nodup (hordered : Ordered (p, h)) : h.pushed.Nodup :=
  (List.nodup_append.mp (hordered.counted.nodup_iff.mpr List.nodup_range)).2.1

theorem Ordered.linearizable {s : ThreadPool × History} (hordered : Ordered s) :
    Linearizable s := by
  obtain ⟨p, h⟩ := s
  have hfifo := hordered.fifo
  have hnodup := hordered.nodup
  simp only at hfifo
  refine ⟨hfifo, ?_, fun call hcall task htask htaken => ?_⟩
  · calc
      p.unpushed ++ p.workQueue ++ p.inHands ++ p.finished
      _ |>.Perm (p.unpushed ++ (p.inHands ++ p.finished ++ p.workQueue)) := by
          rw [List.append_assoc, List.append_assoc]
          exact List.perm_append_comm.append_left _
      _ |>.Perm (p.unpushed ++ (h.takenOut ++ p.workQueue)) :=
          (hordered.executed.append_right _).append_left _
      _ |>.Perm (List.range p.next) := by
          rw [← hfifo]
          exact hordered.counted
  · have horder := ((hordered.calls call hcall).2 task htask).2
    simp only [hfifo] at horder hnodup
    exact Queue.sublist_pair_of_append (horder (List.mem_append_left _ htaken)) hnodup htaken

theorem init_ordered (threadNumber : UInt32) (callers : Nat) :
    Ordered (init threadNumber callers, .empty) := by
  refine ⟨rfl, ?_, ?_, ?_, ?_, ?_⟩
  · simp [init, unpushed, History.empty, Caller.unpushed]
  · simp [init, inHands, History.empty, Worker.task]
  · simp [init]
  · simp [init]
  · simp [History.empty]

/-! ## Steps -/

/-- The call counts its task, which nothing else knows yet. -/
theorem Ordered.call (hordered : Ordered (p, h)) (hcaller : p.callers[i]? = some .idle) :
    Ordered (p.addTask i .idle, p.recordCaller h .idle) := by
  have hperm := Threads.filterMap_set_perm Caller.unpushed hcaller (.counted p.next)
  refine ⟨hordered.fifo, ?_, hordered.executed, hordered.added, ?_, ?_⟩
  · calc
      (p.addTask i .idle).unpushed ++ h.pushed
      _ |>.Perm ([p.next] ++ p.unpushed ++ h.pushed) := hperm.append_right _
      _ |>.Perm ([p.next] ++ List.range p.next) := by
          rw [List.append_assoc]
          exact hordered.counted.append_left _
      _ |>.Perm (List.range (p.next + 1)) := by
          rw [List.range_succ]
          exact List.perm_append_comm
  · intro task hmem
    rcases List.mem_or_eq_of_mem_set hmem with hmem | heq
    · exact hordered.done task hmem
    · cases heq
  · intro call hmem
    rcases List.mem_append.mp hmem with hmem | hmem
    · obtain ⟨hlt, hbefore⟩ := hordered.calls call hmem
      exact ⟨Nat.lt_succ_of_lt hlt, hbefore⟩
    · obtain rfl := List.mem_singleton.mp hmem
      refine ⟨Nat.lt_succ_self _, fun task htask => ⟨hordered.added task htask, fun hpushed => ?_⟩⟩
      exact absurd (hordered.lt_next hpushed) (Nat.lt_irrefl _)

/-- The push takes its place behind every task that has been pushed. -/
theorem Ordered.push (hordered : Ordered (p, h)) {task : Nat}
    (hcaller : p.callers[i]? = some (.counted task)) :
    Ordered (p.addTask i (.counted task), p.recordCaller h (.counted task)) := by
  have hperm := Threads.filterMap_set_perm Caller.unpushed hcaller (.pushed task)
  have hmono : ∀ other, other ∈ h.pushed → other ∈ h.pushed ++ [task] :=
    fun other hmem => List.mem_append_left _ hmem
  refine ⟨?_, ?_, hordered.executed, fun other hmem => hmono other (hordered.added other hmem),
    ?_, ?_⟩
  · calc
      h.pushed ++ [task] = h.takenOut ++ p.workQueue ++ [task] := by rw [hordered.fifo]
      _ = h.takenOut ++ (p.workQueue ++ [task]) := List.append_assoc ..
  · calc
      (p.addTask i (.counted task)).unpushed ++ (h.pushed ++ [task])
      _ |>.Perm ([task] ++ (p.addTask i (.counted task)).unpushed ++ h.pushed) := by
          rw [← List.append_assoc]
          exact (List.perm_append_comm.trans (by rw [List.append_assoc]))
      _ |>.Perm (p.unpushed ++ h.pushed) := hperm.append_right _
      _ |>.Perm (List.range p.next) := hordered.counted
  · intro other hmem
    rcases List.mem_or_eq_of_mem_set hmem with hmem | heq
    · exact hmono other (hordered.done other hmem)
    · cases heq
      exact List.mem_append_right _ (List.mem_singleton_self _)
  · intro call hmem
    obtain ⟨hlt, hbefore⟩ := hordered.calls call hmem
    refine ⟨hlt, fun other hother => ?_⟩
    obtain ⟨hpushed, horder⟩ := hbefore other hother
    refine ⟨hmono other hpushed, fun hcall => ?_⟩
    rcases List.mem_append.mp hcall with hcall | hcall
    · exact (horder hcall).trans (List.sublist_append_left _ _)
    · rw [List.mem_singleton.mp hcall]
      exact (List.singleton_sublist.mpr hpushed).append (List.Sublist.refl _)

/-- `addTask` returns. -/
theorem Ordered.return (hordered : Ordered (p, h)) {task : Nat}
    (hcaller : p.callers[i]? = some (.pushed task)) :
    Ordered (p.addTask i (.pushed task), p.recordCaller h (.pushed task)) := by
  have hperm := Threads.filterMap_set_perm Caller.unpushed hcaller .idle
  refine ⟨hordered.fifo, (hperm.append_right _).trans hordered.counted, hordered.executed, ?_, ?_,
    hordered.calls⟩
  · intro other hmem
    rcases List.mem_append.mp hmem with hmem | hmem
    · exact hordered.added other hmem
    · rw [List.mem_singleton.mp hmem]
      exact hordered.done task (List.mem_of_getElem? hcaller)
  · intro other hmem
    rcases List.mem_or_eq_of_mem_set hmem with hmem | heq
    · exact hordered.done other hmem
    · cases heq

/-- The worker that is not idle keeps its task, or moves it to the finished ones. -/
theorem executed_runTask (hworker : p.threads[i]? = some worker) (hidle : worker ≠ .idle) :
    ((p.runTask i worker).inHands ++ (p.runTask i worker).finished).Perm
      (p.inHands ++ p.finished) := by
  have hperm := Threads.filterMap_set_perm Worker.task hworker
  cases worker with
  | idle => exact absurd rfl hidle
  | popped task => exact ((List.perm_cons task).mp (hperm (.entered task))).append_right _
  | entered task => exact ((List.perm_cons task).mp (hperm (.running task))).append_right _
  | running task =>
      calc
        (p.runTask i (.running task)).inHands ++ (p.finished ++ [task])
        _ |>.Perm ([task] ++ (p.runTask i (.running task)).inHands ++ p.finished) := by
            rw [← List.append_assoc]
            exact (List.perm_append_comm.trans (by rw [List.append_assoc]))
        _ |>.Perm (p.inHands ++ p.finished) := (hperm .ran).append_right _
  | ran => exact (hperm .idle).append_right _

theorem runTask_of_ne_idle (p : ThreadPool) (i : Nat) (hidle : worker ≠ .idle) :
    (p.runTask i worker).workQueue = p.workQueue ∧ p.recordWorker h worker = h := by
  cases worker with
  | idle => exact absurd rfl hidle
  | _ => exact ⟨rfl, rfl⟩

theorem runTask_next (p : ThreadPool) (i : Nat) (worker : Worker) :
    (p.runTask i worker).next = p.next := by
  cases worker with
  | idle =>
      rw [runTask]
      split <;> rfl
  | _ => rfl

/-- The worker takes the first task out. -/
theorem Ordered.pop (hordered : Ordered (p, h)) (hworker : p.threads[i]? = some .idle) :
    Ordered (p.runTask i .idle, p.recordWorker h .idle) := by
  cases hqueue : p.workQueue with
  | nil =>
      have hrun : p.runTask i .idle = p := by simp only [runTask, hqueue]
      have hrecord : p.recordWorker h .idle = h := by
        simp only [recordWorker, hqueue, List.head?_nil, Option.toList_none, List.append_nil]
      rw [hrun, hrecord]
      exact hordered
  | cons task workQueue =>
      have hperm := Threads.filterMap_set_perm Worker.task hworker (.popped task)
      have hrun : p.runTask i .idle =
          { p with workQueue := workQueue, threads := p.threads.set i (.popped task) } := by
        simp only [runTask, hqueue]
      have hrecord : p.recordWorker h .idle = { h with takenOut := h.takenOut ++ [task] } := by
        simp only [recordWorker, hqueue, List.head?_cons, Option.toList_some]
      have hfifo := hordered.fifo
      simp only [hqueue] at hfifo
      rw [hrun, hrecord]
      refine ⟨?_, hordered.counted, ?_, hordered.added, hordered.done, hordered.calls⟩
      · rw [hfifo, List.append_assoc]
        rfl
      · calc
          (p.threads.set i (.popped task)).filterMap Worker.task ++ p.finished
          _ |>.Perm ([task] ++ p.inHands ++ p.finished) := hperm.append_right _
          _ |>.Perm (p.inHands ++ p.finished ++ [task]) := by
              rw [List.append_assoc]
              exact List.perm_append_comm
          _ |>.Perm (h.takenOut ++ [task]) := hordered.executed.append_right _

theorem Ordered.runTask (hordered : Ordered (p, h)) (hworker : p.threads[i]? = some worker) :
    Ordered (p.runTask i worker, p.recordWorker h worker) := by
  by_cases hidle : worker = .idle
  · subst hidle
    exact hordered.pop hworker
  · obtain ⟨hqueue, hrecord⟩ := runTask_of_ne_idle (h := h) p i hidle
    obtain ⟨hadded, hcallers, -⟩ := runTask_frame p i worker
    have hnext := runTask_next p i worker
    rw [hrecord]
    refine ⟨?_, ?_, (executed_runTask hworker hidle).trans hordered.executed, ?_, ?_, ?_⟩
    · exact hordered.fifo.trans (by rw [hqueue])
    · simp only [unpushed, hcallers, hnext]
      exact hordered.counted
    · simp only [hadded]
      exact hordered.added
    · simp only [hcallers]
      exact hordered.done
    · simp only [hnext]
      exact hordered.calls

/-- `waitForDone` only loads. -/
theorem waitForDone_eq (p : ThreadPool) (waiter : Waiter) :
    p.waitForDone waiter = { p with waiter := (p.waitForDone waiter).waiter } := by
  cases waiter with
  | outside => rfl
  | returned before => rfl
  | loadsTaskCount before =>
      rw [waitForDone]
      split <;> rfl
  | loadsActiveThreads before =>
      rw [waitForDone]
      split <;> rfl

theorem Ordered.waitForDone (hordered : Ordered (p, h)) (waiter : Waiter) :
    Ordered (p.waitForDone waiter, h) := by
  rw [waitForDone_eq]
  exact ⟨hordered.fifo, hordered.counted, hordered.executed, hordered.added, hordered.done,
    hordered.calls⟩

/-- Step lemma: every step of every thread keeps the order. -/
theorem Ordered.step {s s' : ThreadPool × History} {e : Event} (hordered : Ordered s)
    (hok : Run.recorded step record s e = .ok s') : Ordered s' := by
  obtain ⟨p, h⟩ := s
  obtain ⟨p', h'⟩ := s'
  obtain ⟨hstep, hrecord⟩ := Run.recorded_ok hok
  simp only at hstep hrecord
  subst hrecord
  cases e with
  | caller i =>
      rw [ThreadPool.step] at hstep
      cases hcaller : p.callers[i]? with
      | none => simp [hcaller] at hstep
      | some caller =>
          simp only [hcaller, Except.ok.injEq] at hstep
          subst hstep
          simp only [record, hcaller, Option.map_some, Option.getD_some]
          cases caller with
          | idle => exact hordered.call hcaller
          | counted task => exact hordered.push hcaller
          | pushed task => exact hordered.return hcaller
  | worker i =>
      rw [ThreadPool.step] at hstep
      cases hworker : p.threads[i]? with
      | none => simp [hworker] at hstep
      | some worker =>
          simp only [hworker, Except.ok.injEq] at hstep
          subst hstep
          simp only [record, hworker, Option.map_some, Option.getD_some]
          exact hordered.runTask hworker
  | waiter =>
      cases hstep
      exact hordered.waitForDone p.waiter

/-- In every run the tasks are taken out in the order of their pushes, each at most once and none
lost, and in the order of calls of `addTask` that did not overlap. -/
theorem tasks_linearizable (threadNumber : UInt32) (callers : Nat) (events : List Event) :
    Run.Always (Run.recorded step record) (Run.After (Run.recorded step record) Linearizable)
      (init threadNumber callers, .empty) events := by
  refine (Run.always_of_invariant (fun _ _ _ h hok => h.step hok)
    (init_ordered threadNumber callers) events).mono fun s e hafter s' hok => ?_
  exact (hafter s' hok).linearizable

/-! ## One worker -/

/-- The tasks are executed one at a time, in the order in which they were pushed. -/
def Serial (s : ThreadPool × History) : Prop :=
  s.1.inHands.length ≤ 1 ∧ s.2.pushed = s.1.finished ++ s.1.inHands ++ s.1.workQueue

/-- The one worker has the task that was taken out last. -/
structure OneWorker (s : ThreadPool × History) : Prop where
  ordered : Ordered s
  takenOut : ∃ worker, s.1.threads = [worker] ∧
    s.2.takenOut = s.1.finished ++ worker.task.toList

theorem OneWorker.serial {s : ThreadPool × History} (hone : OneWorker s) : Serial s := by
  obtain ⟨worker, hthreads, htaken⟩ := hone.takenOut
  have hhands : s.1.inHands = worker.task.toList := by
    rw [inHands, hthreads]
    cases htask : worker.task <;> simp [htask]
  refine ⟨?_, ?_⟩
  · rw [hhands]
    exact Option.length_toList_le
  · rw [hone.ordered.fifo, htaken, hhands]

/-- The worker goes through one task after the other. -/
theorem takenOut_runTask (hthreads : p.threads = [worker])
    (htaken : h.takenOut = p.finished ++ worker.task.toList) :
    ∃ worker', (p.runTask 0 worker).threads = [worker'] ∧
      (p.recordWorker h worker).takenOut =
        (p.runTask 0 worker).finished ++ worker'.task.toList := by
  cases worker with
  | idle =>
      cases hqueue : p.workQueue with
      | nil => exact ⟨.idle, by simp [runTask, hqueue, hthreads],
          by simpa [runTask, recordWorker, hqueue] using htaken⟩
      | cons task workQueue => exact ⟨.popped task, by simp [runTask, hqueue, hthreads],
          by simp [runTask, recordWorker, hqueue, htaken, Worker.task]⟩
  | popped task => exact ⟨.entered task, by simp [runTask, hthreads], htaken⟩
  | entered task => exact ⟨.running task, by simp [runTask, hthreads], htaken⟩
  | running task =>
      exact ⟨.ran, by simp [runTask, hthreads], by
        simpa [runTask, recordWorker, Worker.task] using htaken⟩
  | ran => exact ⟨.idle, by simp [runTask, hthreads], htaken⟩

theorem OneWorker.step {s s' : ThreadPool × History} {e : Event} (hone : OneWorker s)
    (hok : Run.recorded step record s e = .ok s') : OneWorker s' := by
  refine ⟨hone.ordered.step hok, ?_⟩
  obtain ⟨p, h⟩ := s
  obtain ⟨p', h'⟩ := s'
  obtain ⟨worker, hthreads, htaken⟩ := hone.takenOut
  obtain ⟨hstep, hrecord⟩ := Run.recorded_ok hok
  simp only at hstep hrecord hthreads htaken ⊢
  subst hrecord
  cases e with
  | caller i =>
      rw [ThreadPool.step] at hstep
      cases hcaller : p.callers[i]? with
      | none => simp [hcaller] at hstep
      | some caller =>
          simp only [hcaller, Except.ok.injEq] at hstep
          subst hstep
          simp only [record, hcaller, Option.map_some, Option.getD_some]
          cases caller <;> exact ⟨worker, hthreads, htaken⟩
  | worker i =>
      rw [ThreadPool.step, hthreads] at hstep
      cases i with
      | zero =>
          simp only [List.getElem?_cons_zero, Except.ok.injEq] at hstep
          subst hstep
          simp only [record, hthreads, List.getElem?_cons_zero, Option.map_some, Option.getD_some]
          exact takenOut_runTask hthreads htaken
      | succ i => simp at hstep
  | waiter =>
      cases hstep
      rw [waitForDone_eq]
      exact ⟨worker, hthreads, htaken⟩

/-- In every run a pool of one worker executes the tasks one at a time, in the order in which
they were pushed. -/
theorem one_worker_serial (callers : Nat) (events : List Event) :
    Run.Always (Run.recorded step record) (Run.After (Run.recorded step record) Serial)
      (init 1 callers, .empty) events := by
  have hinit : OneWorker (init 1 callers, .empty) :=
    ⟨init_ordered 1 callers, .idle, rfl, rfl⟩
  refine (Run.always_of_invariant (fun _ _ _ h hok => h.step hok) hinit events).mono ?_
  exact fun s e hafter s' hok => (hafter s' hok).serial

end ThreadPool

end Netpp
