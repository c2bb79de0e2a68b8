import Netpp.Library.Tagged
import Netpp.Signal.Signals
import Netpp.Stub
import Netpp.Support.TaskOrder

/-!
# The events of the user

The handlers of the loops call the methods of `Events`. A method calls the callback that
the user has bound, if there is one: as a task of the pool that all copies of the events
share, or in the thread of the loop if there is no pool. Every handler has a copy of its
own, and a callback may be bound anew in it at any time; a task keeps the callback that
was bound when the method was called.

`called` lists these calls, each with its loop. Whatever the threads do, the callbacks of
a loop are taken from the queue in the order in which its handlers have called them, none
is lost and none is taken twice. With several threads they may overlap, and a callback may
begin before one that was taken out before it; with one thread or none it begins when all
callbacks before it have returned.
-/

namespace Netpp

structure Events (φ : Type*) where
  connectedCb : Option φ
  receiveMsgCb : Option φ
  writeCompletedCb : Option φ
  disconnectCb : Option φ
  errorCb : Option φ
  signalCb : Option φ

namespace Events

variable {φ : Type*}

/-- What a callback is called with. -/
inductive Argument where
  | channel (id : Nat)
  | code (code : SocketError)
  | signal (signal : Signals)
  deriving DecidableEq

/-- A function of the user and its argument. -/
structure Call (φ : Type*) where
  callback : φ
  argument : Argument

/-- A method passes its argument on to the callback, if one is bound. -/
def pass (cb : Option φ) (argument : Argument) : Option (Call φ) := cb.map (⟨·, argument⟩)

def onConnected (e : Events φ) (channel : Nat) : Option (Call φ) :=
  pass e.connectedCb (.channel channel)

def onMessageReceived (e : Events φ) (channel : Nat) : Option (Call φ) :=
  pass e.receiveMsgCb (.channel channel)

def onWriteCompleted (e : Events φ) (channel : Nat) : Option (Call φ) :=
  pass e.writeCompletedCb (.channel channel)

def onDisconnect (e : Events φ) (channel : Nat) : Option (Call φ) :=
  pass e.disconnectCb (.channel channel)

def onError (e : Events φ) (code : SocketError) : Option (Call φ) := pass e.errorCb (.code code)

def onSignal (e : Events φ) (signal : Signals) : Option (Call φ) := pass e.signalCb (.signal signal)

/-- A method and its argument. -/
inductive Occurrence where
  | onConnected (channel : Nat)
  | onMessageReceived (channel : Nat)
  | onWriteCompleted (channel : Nat)
  | onDisconnect (channel : Nat)
  | onError (code : SocketError)
  | onSignal (signal : Signals)
  deriving DecidableEq

def on (e : Events φ) : Occurrence → Option (Call φ)
  | .onConnected channel => e.onConnected channel
  | .onMessageReceived channel => e.onMessageReceived channel
  | .onWriteCompleted channel => e.onWriteCompleted channel
  | .onDisconnect channel => e.onDisconnect channel
  | .onError code => e.onError code
  | .onSignal signal => e.onSignal signal

/-- The methods that bind a callback, which may be an empty function. -/
inductive Binding (φ : Type*) where
  | bindConnectedCallback (cb : Option φ)
  | bindMessageReceivedCallback (cb : Option φ)
  | bindWriteCompletedCallback (cb : Option φ)
  | bindDisconnectedCallback (cb : Option φ)
  | bindErrorCallback (cb : Option φ)
  | bindSignalCallback (cb : Option φ)

def bind (e : Events φ) : Binding φ → Events φ
  | .bindConnectedCallback cb => { e with connectedCb := cb }
  | .bindMessageReceivedCallback cb => { e with receiveMsgCb := cb }
  | .bindWriteCompletedCallback cb => { e with writeCompletedCb := cb }
  | .bindDisconnectedCallback cb => { e with disconnectCb := cb }
  | .bindErrorCallback cb => { e with errorCb := cb }
  | .bindSignalCallback cb => { e with signalCb := cb }

/-- The copies of the events, and what has become of the calls of their methods. -/
structure Shared (φ : Type*) where
  /-- The copy of each handler. -/
  copies : Nat → Events φ
  eventsPool : Option ThreadPool
  /-- The callbacks that the threads of the loops have called themselves. -/
  direct : List (Tagged Nat (Call φ))
  /-- What the tasks of the pool call, in the order in which they are counted. -/
  tasks : List (Tagged Nat (Call φ))

/-- `initThread`, for so many loops that may call the methods. -/
def initThread (threadsCount : Int32) (loops : Nat) : Option ThreadPool :=
  -- if thread number is less than 0, not run handler in thread
  if 0 < threadsCount then some (ThreadPool.init threadsCount.toUInt32 loops) else none

namespace Shared

/-- The constructor of the events; all handlers get copies of them. -/
def new (events : Events φ) (threadsCount : Int32) (loops : Nat) : Shared φ where
  copies := fun _ => events
  eventsPool := initThread threadsCount loops
  direct := []
  tasks := []

inductive Event (φ : Type*) where
  /-- A callback is bound in the copy of a handler. -/
  | bind (handler : Nat) (binding : Binding φ)
  /-- A handler that is made gets a copy of the events of another one. -/
  | copy (source target : Nat)
  /-- A handler calls a method, in the thread of its loop. -/
  | call (loop handler : Nat) (what : Occurrence)
  /-- Another step of the pool. -/
  | pool (e : ThreadPool.Event)

/-- The step begins a call of `addTask`. -/
def begins (pool : ThreadPool) : ThreadPool.Event → Bool
  | .caller i => pool.callers[i]? = some .idle
  | _ => false

/-- The callback is called, as a task or at once. The thread of the loop may be in `addTask`. -/
def run (s : Shared φ) (loop : Nat) (call : Call φ) : Except ThreadPool.Disabled (Shared φ) :=
  match s.eventsPool with
  | none => .ok { s with direct := s.direct ++ [⟨loop, call⟩] }
  | some pool =>
      if begins pool (.caller loop) then
        .ok { s with
          eventsPool := some (pool.addTask loop .idle)
          tasks := s.tasks ++ [⟨loop, call⟩] }
      else .error .disabled

def step (s : Shared φ) : Event φ → Except ThreadPool.Disabled (Shared φ)
  | .bind handler binding =>
      .ok { s with copies := Function.update s.copies handler ((s.copies handler).bind binding) }
  | .copy source target =>
      .ok { s with copies := Function.update s.copies target (s.copies source) }
  | .call loop handler what =>
      match (s.copies handler).on what with
      | none => .ok s
      | some call => s.run loop call
  | .pool e =>
      match s.eventsPool with
      | none => .error .disabled
      | some pool =>
          if begins pool e then .error .disabled
          else (pool.step e).map fun pool => { s with eventsPool := some pool }

/-! ## The order of the callbacks -/

/-- The step of the pool that a step is, if it is one. -/
def poolEvent (s : Shared φ) : Event φ → Option ThreadPool.Event
  | .call loop handler what => ((s.copies handler).on what).map fun _ => .caller loop
  | .pool e => some e
  | _ => none

def record (s : Shared φ) (e : Event φ) (h : ThreadPool.History) : ThreadPool.History :=
  match s.eventsPool, s.poolEvent e with
  | some pool, some e => ThreadPool.record pool e h
  | _, _ => h

/-- What the tasks with these numbers call. -/
def numbered (tasks : List (Tagged Nat (Call φ))) (numbers : List Nat) :
    List (Tagged Nat (Call φ)) :=
  numbers.filterMap fun task => tasks[task]?

/-- The calls of callbacks. -/
def called (s : Shared φ) : List (Tagged Nat (Call φ)) := s.direct ++ s.tasks

/-- The task that the thread of a loop has counted and not pushed yet. -/
def counting (pool : ThreadPool) (loop : Nat) : List Nat :=
  (pool.callers[loop]?.bind ThreadPool.Caller.unpushed).toList

/-- The tasks of the loop that have not been taken out, the queued ones first. -/
def waiting (s : Shared φ) (loop : Nat) : List Nat :=
  match s.eventsPool with
  | none => []
  | some pool => pool.workQueue ++ counting pool loop

/-- The callbacks are called at once or taken from the queue in order. -/
structure InOrder (threadsCount : Int32) (s : Shared φ × ThreadPool.History) : Prop where
  /-- The callbacks of a loop that were called at once or taken out and the waiting ones are those
  it has called. -/
  order : ∀ loop, Tagged.part loop (s.1.direct ++ numbered s.1.tasks s.2.takenOut) ++
    Tagged.part loop (numbered s.1.tasks (s.1.waiting loop)) = Tagged.part loop s.1.called
  /-- With one thread only the last callback that was taken out may not have returned. -/
  alone : threadsCount = 1 → ∀ pool, s.1.eventsPool = some pool →
    pool.inHands.length ≤ 1 ∧ s.2.takenOut = pool.finished ++ pool.inHands

/-! ## The invariant -/

/-- The tasks of the pool are the calls of the loops, and each loop pushes its own in their
order. -/
structure Listed (pool : ThreadPool) (tasks : List (Tagged Nat (Call φ)))
    (h : ThreadPool.History) : Prop where
  ordered : ThreadPool.Ordered (pool, h)
  next : pool.next = tasks.length
  counted : ∀ loop task : Nat, pool.callers[loop]? = some (.counted task) →
    ∃ call, tasks[task]? = some ⟨loop, call⟩
  order : ∀ loop, Tagged.part loop (numbered tasks h.pushed) ++
    Tagged.part loop (numbered tasks (counting pool loop)) = Tagged.part loop tasks

/-- Without a pool there are no tasks, and with one all calls are tasks. -/
def Consistent (threadsCount : Int32) (s : Shared φ × ThreadPool.History) : Prop :=
  match s.1.eventsPool with
  | none => s.1.tasks = []
  | some pool => s.1.direct = [] ∧ Listed pool s.1.tasks s.2 ∧
      (threadsCount = 1 → ThreadPool.OneWorker (pool, s.2))

variable {s s' : Shared φ} {h : ThreadPool.History} {pool pool' : ThreadPool}
variable {tasks : List (Tagged Nat (Call φ))} {loop : Nat} {threadsCount : Int32}

theorem numbered_append (tasks : List (Tagged Nat (Call φ))) (numbers numbers' : List Nat) :
    numbered tasks (numbers ++ numbers') = numbered tasks numbers ++ numbered tasks numbers' :=
  List.filterMap_append

/-- New tasks do not change what the old ones call. -/
theorem numbered_of_lt {numbers : List Nat} (hlt : ∀ task ∈ numbers, task < tasks.length)
    (more : List (Tagged Nat (Call φ))) :
    numbered (tasks ++ more) numbers = numbered tasks numbers :=
  List.filterMap_congr fun task htask => List.getElem?_append_left (hlt task htask)

theorem counting_of_caller {caller : ThreadPool.Caller}
    (hcaller : pool.callers[loop]? = some caller) :
    counting pool loop = caller.unpushed.toList := by
  rw [counting, hcaller, Option.bind_some]

/-- The step of one caller leaves what the others count. -/
theorem counting_set_of_ne {i : Nat} (hne : i ≠ loop) {caller : ThreadPool.Caller}
    (hcallers : pool'.callers = pool.callers.set i caller) :
    counting pool' loop = counting pool loop := by
  rw [counting, counting, hcallers, List.getElem?_set_ne hne]

theorem counting_set_self {before caller : ThreadPool.Caller}
    (hcaller : pool.callers[loop]? = some before)
    (hcallers : pool'.callers = pool.callers.set loop caller) :
    counting pool' loop = caller.unpushed.toList := by
  obtain ⟨hlt, -⟩ := List.getElem?_eq_some_iff.mp hcaller
  apply counting_of_caller
  rw [hcallers, List.getElem?_set_self hlt]

/-! ## Steps -/

theorem mem_counting {task : Nat} (hmem : task ∈ counting pool loop) :
    pool.callers[loop]? = some (.counted task) := by
  rw [counting, Option.mem_toList, Option.bind_eq_some_iff] at hmem
  obtain ⟨caller, hcaller, hunpushed⟩ := hmem
  cases caller with
  | counted other =>
      cases hunpushed
      exact hcaller
  | _ => cases hunpushed

theorem Listed.lt_next (hlisted : Listed pool tasks h) {task : Nat}
    (hmem : task ∈ counting pool loop) : task < pool.next := by
  obtain ⟨call, hcall⟩ := hlisted.counted loop task (mem_counting hmem)
  rw [hlisted.next]
  exact (List.getElem?_eq_some_iff.mp hcall).1

/-- The task that a loop counts is its new call. -/
theorem Listed.call (hlisted : Listed pool tasks h) (hcaller : pool.callers[loop]? = some .idle)
    (call : Call φ) :
    Listed (pool.addTask loop .idle) (tasks ++ [⟨loop, call⟩])
      (ThreadPool.record pool (.caller loop) h) := by
  have hrecord : ThreadPool.record pool (.caller loop) h = pool.recordCaller h .idle := by
    simp only [ThreadPool.record, hcaller, Option.map_some, Option.getD_some]
  have hlast : (tasks ++ [⟨loop, call⟩])[pool.next]? = some ⟨loop, call⟩ := by
    rw [hlisted.next, List.getElem?_concat_length]
  have hnumbered : ∀ {numbers : List Nat}, (∀ task ∈ numbers, task < pool.next) →
      numbered (tasks ++ [⟨loop, call⟩]) numbers = numbered tasks numbers := by
    intro numbers hlt
    rw [hlisted.next] at hlt
    exact numbered_of_lt hlt _
  have hpushed := hnumbered fun task htask => hlisted.ordered.lt_next htask
  rw [hrecord]
  refine ⟨hlisted.ordered.call hcaller, ?_, fun i task hcounted => ?_, fun i => ?_⟩
  · rw [List.length_append, List.length_singleton, ← hlisted.next]
    rfl
  · change (pool.callers.set loop (.counted pool.next))[i]? = _ at hcounted
    by_cases hi : loop = i
    · subst hi
      rw [List.getElem?_set_self (List.getElem?_eq_some_iff.mp hcaller).1] at hcounted
      cases hcounted
      exact ⟨call, hlast⟩
    · rw [List.getElem?_set_ne hi] at hcounted
      obtain ⟨call', hcall'⟩ := hlisted.counted i task hcounted
      exact ⟨call', List.getElem?_append_left (List.getElem?_eq_some_iff.mp hcall').1 ▸ hcall'⟩
  · change Tagged.part i (numbered _ h.pushed) ++ _ = _
    rw [hpushed, Tagged.part_append, ← hlisted.order i]
    by_cases hi : loop = i
    · subst hi
      rw [counting_set_self hcaller rfl, counting_of_caller hcaller]
      simp [numbered, ThreadPool.Caller.unpushed, hlast]
    · rw [counting_set_of_ne hi rfl, Tagged.part_cons_of_ne hi, Tagged.part_nil, List.append_nil,
        hnumbered fun task htask => hlisted.lt_next htask]

/-- A loop that goes on in `addTask` has not counted another task. -/
theorem Listed.counted_set (hlisted : Listed pool tasks h) {before : ThreadPool.Caller}
    (hcaller : pool.callers[loop]? = some before) (caller : ThreadPool.Caller)
    (hpast : ∀ task, caller ≠ .counted task) {i task : Nat}
    (hcounted : (pool.callers.set loop caller)[i]? = some (.counted task)) :
    ∃ call, tasks[task]? = some ⟨i, call⟩ := by
  by_cases hi : loop = i
  · subst hi
    rw [List.getElem?_set_self (List.getElem?_eq_some_iff.mp hcaller).1] at hcounted
    exact absurd (Option.some.inj hcounted) (hpast task)
  · rw [List.getElem?_set_ne hi] at hcounted
    exact hlisted.counted i task hcounted

/-- The loop pushes the task that it has counted. -/
theorem Listed.push (hlisted : Listed pool tasks h) {task : Nat}
    (hcaller : pool.callers[loop]? = some (.counted task)) :
    Listed (pool.addTask loop (.counted task)) tasks
      (pool.recordCaller h (.counted task)) := by
  obtain ⟨call, hcall⟩ := hlisted.counted loop task hcaller
  refine ⟨hlisted.ordered.push hcaller, hlisted.next, fun i other hcounted => ?_, fun i => ?_⟩
  · exact hlisted.counted_set hcaller (.pushed task) nofun hcounted
  · change Tagged.part i (numbered tasks (h.pushed ++ [task])) ++ _ = _
    have htask : numbered tasks [task] = [⟨loop, call⟩] := by simp [numbered, hcall]
    rw [numbered_append, htask, Tagged.part_append, ← hlisted.order i]
    by_cases hi : loop = i
    · subst hi
      rw [counting_set_self hcaller rfl, counting_of_caller hcaller]
      simp [numbered, ThreadPool.Caller.unpushed, hcall]
    · rw [counting_set_of_ne hi rfl, Tagged.part_cons_of_ne hi, Tagged.part_nil, List.append_nil]

/-- `addTask` returns. -/
theorem Listed.return (hlisted : Listed pool tasks h) {task : Nat}
    (hcaller : pool.callers[loop]? = some (.pushed task)) :
    Listed (pool.addTask loop (.pushed task)) tasks (pool.recordCaller h (.pushed task)) := by
  refine ⟨hlisted.ordered.return hcaller, hlisted.next, fun i other hcounted => ?_, fun i => ?_⟩
  · exact hlisted.counted_set hcaller .idle nofun hcounted
  · rw [← hlisted.order i]
    by_cases hi : loop = i
    · subst hi
      rw [counting_set_self hcaller rfl, counting_of_caller hcaller]
      rfl
    · rw [counting_set_of_ne hi rfl]
      rfl

/-- The workers and the waiter leave the callers and the pushed tasks alone. -/
theorem Listed.frame (hlisted : Listed pool tasks h) {h' : ThreadPool.History}
    (hordered : ThreadPool.Ordered (pool', h')) (hcallers : pool'.callers = pool.callers)
    (hnext : pool'.next = pool.next) (hpushed : h'.pushed = h.pushed) :
    Listed pool' tasks h' := by
  refine ⟨hordered, hnext.trans hlisted.next, ?_, ?_⟩
  · rw [hcallers]
    exact hlisted.counted
  · intro i
    rw [hpushed, counting, hcallers]
    exact hlisted.order i

theorem recordWorker_pushed (pool : ThreadPool) (h : ThreadPool.History)
    (worker : ThreadPool.Worker) : (pool.recordWorker h worker).pushed = h.pushed := by
  cases worker <;> rfl

theorem Listed.step (hlisted : Listed pool tasks h) {e : ThreadPool.Event}
    (hbegins : ¬begins pool e) (hok : pool.step e = .ok pool') :
    Listed pool' tasks (ThreadPool.record pool e h) := by
  cases e with
  | caller i =>
      rw [ThreadPool.step] at hok
      cases hcaller : pool.callers[i]? with
      | none => simp [hcaller] at hok
      | some caller =>
          simp only [hcaller, Except.ok.injEq] at hok
          subst hok
          simp only [ThreadPool.record, hcaller, Option.map_some, Option.getD_some]
          cases caller with
          | idle => exact absurd (by simp [begins, hcaller]) hbegins
          | counted task => exact hlisted.push hcaller
          | pushed task => exact hlisted.return hcaller
  | worker i =>
      rw [ThreadPool.step] at hok
      cases hworker : pool.threads[i]? with
      | none => simp [hworker] at hok
      | some worker =>
          simp only [hworker, Except.ok.injEq] at hok
          subst hok
          simp only [ThreadPool.record, hworker, Option.map_some, Option.getD_some]
          obtain ⟨-, hcallers, -⟩ := ThreadPool.runTask_frame pool i worker
          exact hlisted.frame (hlisted.ordered.runTask hworker) hcallers
            (ThreadPool.runTask_next pool i worker) (recordWorker_pushed pool h worker)
  | waiter =>
      cases hok
      refine hlisted.frame (hlisted.ordered.waitForDone pool.waiter) ?_ ?_ rfl <;>
        rw [ThreadPool.waitForDone_eq]

theorem oneWorker_step (hone : ThreadPool.OneWorker (pool, h)) {e : ThreadPool.Event}
    (hok : pool.step e = .ok pool') :
    ThreadPool.OneWorker (pool', ThreadPool.record pool e h) := by
  apply ThreadPool.OneWorker.step hone (e := e)
  rw [Run.recorded, hok]

/-- Step lemma: every step of every thread keeps the invariant. -/
theorem consistent_step {e : Event φ} (hc : Consistent threadsCount (s, h))
    (hok : s.step e = .ok s') : Consistent threadsCount (s', s.record e h) := by
  cases hpool : s.eventsPool with
  | none =>
      simp only [Consistent, hpool] at hc
      cases e with
      | call loop handler what =>
          cases hon : (s.copies handler).on what with
          | none =>
              simp only [step, hon, Except.ok.injEq] at hok
              subst hok
              simpa only [Consistent, hpool] using hc
          | some call =>
              simp only [step, hon, run, hpool, Except.ok.injEq] at hok
              subst hok
              simpa only [Consistent, hpool] using hc
      | pool e => simp [step, hpool] at hok
      | _ =>
          cases hok
          simpa only [Consistent, hpool] using hc
  | some pool =>
      simp only [Consistent, hpool] at hc
      obtain ⟨hdirect, hlisted, hone⟩ := hc
      cases e with
      | call loop handler what =>
          cases hon : (s.copies handler).on what with
          | none =>
              simp only [step, hon, Except.ok.injEq] at hok
              subst hok
              simp only [Consistent, record, poolEvent, hpool, hon, Option.map_none]
              exact ⟨hdirect, hlisted, hone⟩
          | some call =>
              simp only [step, hon, run, hpool] at hok
              split at hok
              case isFalse => cases hok
              case isTrue hbegins =>
                cases hok
                have hcaller : pool.callers[loop]? = some .idle := by simpa [begins] using hbegins
                simp only [Consistent, record, poolEvent, hpool, hon, Option.map_some]
                refine ⟨hdirect, hlisted.call hcaller call, fun hthreads => ?_⟩
                refine oneWorker_step (hone hthreads) ?_
                rw [ThreadPool.step, hcaller]
      | pool e =>
          simp only [step, hpool] at hok
          split at hok
          case isTrue => cases hok
          case isFalse hbegins =>
            cases hstep : pool.step e with
            | error err => simp [hstep, Except.map] at hok
            | ok pool' =>
                simp only [hstep, Except.map, Except.ok.injEq] at hok
                subst hok
                simp only [Consistent, record, poolEvent, hpool]
                exact ⟨hdirect, hlisted.step hbegins hstep,
                  fun hthreads => oneWorker_step (hone hthreads) hstep⟩
      | _ =>
          cases hok
          simp only [Consistent, record, poolEvent, hpool]
          exact ⟨hdirect, hlisted, hone⟩

theorem new_consistent (events : Events φ) (threadsCount : Int32) (loops : Nat) :
    Consistent threadsCount (new events threadsCount loops, .empty) := by
  by_cases hpos : 0 < threadsCount
  · simp only [Consistent, new, initThread, if_pos hpos]
    have hordered := ThreadPool.init_ordered threadsCount.toUInt32 loops
    refine ⟨trivial, ⟨hordered, rfl, fun loop task hcounted => ?_, fun loop => ?_⟩, ?_⟩
    · have hidle := List.eq_of_mem_replicate (List.mem_of_getElem? hcounted)
      cases hidle
    · have hnone : counting (ThreadPool.init threadsCount.toUInt32 loops) loop = [] := by
        refine List.eq_nil_iff_forall_not_mem.mpr fun task hmem => ?_
        have hidle := List.eq_of_mem_replicate (List.mem_of_getElem? (mem_counting hmem))
        cases hidle
      rw [hnone]
      rfl
    · rintro rfl
      exact ⟨hordered, .idle, rfl, rfl⟩
  · simp only [Consistent, new, initThread, if_neg hpos]

/-! ## All runs -/

theorem Listed.inOrder (hlisted : Listed pool tasks h) (loop : Nat) :
    Tagged.part loop (numbered tasks h.takenOut) ++
      Tagged.part loop (numbered tasks (pool.workQueue ++ counting pool loop)) =
        Tagged.part loop tasks := by
  have hfifo : h.pushed = h.takenOut ++ pool.workQueue := hlisted.ordered.fifo
  rw [← hlisted.order loop, hfifo, numbered_append, numbered_append, Tagged.part_append,
    Tagged.part_append, List.append_assoc]

theorem Consistent.inOrder {s : Shared φ × ThreadPool.History} (hc : Consistent threadsCount s) :
    InOrder threadsCount s := by
  obtain ⟨s, h⟩ := s
  cases hpool : s.eventsPool with
  | none =>
      simp only [Consistent, hpool] at hc
      refine ⟨fun loop => ?_, fun _ pool hsome => ?_⟩
      · simp [called, hc, numbered]
      · rw [hpool] at hsome
        cases hsome
  | some pool =>
      simp only [Consistent, hpool] at hc
      obtain ⟨hdirect, hlisted, hone⟩ := hc
      refine ⟨fun loop => ?_, fun hthreads pool' hsome => ?_⟩
      · simp only [waiting, hpool, called, hdirect, List.nil_append]
        exact hlisted.inOrder loop
      · rw [hpool] at hsome
        cases hsome
        obtain ⟨hlength, hserial⟩ := (hone hthreads).serial
        have hfifo : h.takenOut ++ pool.workQueue =
            pool.finished ++ pool.inHands ++ pool.workQueue :=
          (hlisted.ordered.fifo.symm : _ = h.pushed).trans hserial
        exact ⟨hlength, List.append_cancel_right hfifo⟩

/-- In every run the callbacks of a loop are taken from the queue in the order in which its
handlers have called them, each once and none lost, and with one thread of the events they run
one after the other. -/
theorem callbacks_in_order (events : Events φ) (threadsCount : Int32) (loops : Nat)
    (es : List (Event φ)) :
    Run.Always (Run.recorded step record)
      (Run.After (Run.recorded step record) (InOrder threadsCount))
      (new events threadsCount loops, .empty) es := by
  refine (Run.always_of_invariant (J := Consistent threadsCount) ?_
    (new_consistent events threadsCount loops) es).mono fun s e hafter s' hok => ?_
  · rintro ⟨s, h⟩ e ⟨s', h'⟩ hc hok
    obtain ⟨hstep, hrecord⟩ := Run.recorded_ok hok
    simp only at hstep hrecord
    subst hrecord
    exact consistent_step hc hstep
  · exact (hafter s' hok).inOrder

end Shared

end Events

end Netpp
