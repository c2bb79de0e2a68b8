import Netpp.Support.Shutdown

/-!
# Starting the loops

A dispatcher with several loops has a pool with one thread less. `startLoop` adds
`EventLoop::run` of every loop but the first one to the pool, starts the pool, and then
runs the first loop in the thread of the caller. It does not look at what `start`
returns. A loop runs until an exception leaves it: `run` clears `m_loopRunning` and
throws on, out of `startLoop` in the thread of the caller, and into a `std::future` that
nobody has in a thread of the pool.

The steps are those of `ThreadPool.Lifetime`, of the caller, and the beginning and the end
of the calls of `run`. What the handlers of a running loop do is no step here.
-/

namespace Netpp

namespace StartLoop

/-- The thread that has called `startLoop`, or one of the pool. -/
inductive Thread where
  | caller
  | worker (i : Nat)
  deriving DecidableEq

/-- The call of `EventLoop::run` that a thread is to make or is in. -/
inductive Phase where
  /-- Before the test of `m_loopRunning`. -/
  | calls
  | inside
  /-- It has returned or thrown. -/
  | ended
  deriving DecidableEq

/-- Where the caller is in `startLoop`. -/
inductive Place where
  /-- `run` of the loops before this one has been added. -/
  | adds (loop : Nat)
  /-- In `m_threadPool->start`. -/
  | starts
  /-- In `run` of the first loop. -/
  | runs
  /-- There is no loop. -/
  | returned
  deriving DecidableEq

end StartLoop

open StartLoop in
structure StartLoop where
  loopsCount : UInt32
  threadPool : Option ThreadPool.Lifetime
  place : Place
  /-- The flag of each loop. -/
  loopRunning : Nat → Bool
  phases : Thread → Phase

namespace StartLoop

/-- The constructor of the dispatcher, and the call of `startLoop`. -/
def new (loopsCount : UInt32) : StartLoop where
  loopsCount := loopsCount
  -- one loop will run in main thread
  threadPool := if 1 < loopsCount then some (.init (loopsCount - 1) 1) else none
  place := .adds 1
  loopRunning := fun _ => false
  phases := fun _ => .calls

/-- The loop whose `run` the thread has called. The task `k` of the pool runs the loop `k + 1`. -/
def loopOf (s : StartLoop) : Thread → Option Nat
  | .caller => if s.place = .runs then some 0 else none
  | .worker i =>
      match s.threadPool.bind fun pool => pool.pool.threads[i]? with
      | some (.running task) => some (task + 1)
      | _ => none

/-- The thread runs the loop. -/
def Runs (s : StartLoop) (t : Thread) (loop : Nat) : Prop :=
  s.loopOf t = some loop ∧ s.phases t = .inside

inductive Event where
  /-- The caller goes on in `startLoop`; in `start` the next thread may fail to be created. -/
  | caller (fails : Bool)
  /-- A thread of the pool goes on outside `run`. -/
  | worker (i : Nat)
  /-- A thread tests and sets the flag of its loop. -/
  | enter (t : Thread)
  /-- An exception leaves the loop that the thread runs. -/
  | throw (t : Thread)

/-! ## Steps -/

/-- The caller is in `m_threadPool->run` for this loop. -/
def add (s : StartLoop) (pool : ThreadPool.Lifetime) (loop : Nat) :
    Except ThreadPool.Disabled StartLoop :=
  (pool.step (.pool (.caller 0))).map fun pool' => { s with
    threadPool := some pool'
    place := .adds (if pool'.pool.callers[0]? = some .idle then loop + 1 else loop) }

/-- The caller is in `m_threadPool->start`. -/
def start (s : StartLoop) (pool : ThreadPool.Lifetime) (fails : Bool) :
    Except ThreadPool.Disabled StartLoop :=
  if pool.owner = .starts then
    (pool.step (.owner fails)).map fun pool' => { s with threadPool := some pool' }
  else .ok { s with place := .runs }

def startLoop (s : StartLoop) (fails : Bool) : Place → Except ThreadPool.Disabled StartLoop
  | .adds loop =>
      match s.threadPool with
      | none => .ok { s with place := if s.loopsCount = 0 then .returned else .runs }
      | some pool =>
          if loop < s.loopsCount.toNat then s.add pool loop else .ok { s with place := .starts }
  | .starts =>
      match s.threadPool with
      | none => .error .disabled
      | some pool => s.start pool fails
  | .runs | .returned => .error .disabled

/-- A thread of the pool goes on; when `run` has been left, the task has been executed. -/
def work (s : StartLoop) (i : Nat) : Except ThreadPool.Disabled StartLoop :=
  match s.threadPool with
  | none => .error .disabled
  | some pool =>
      if s.loopOf (.worker i) = none then
        (pool.step (.pool (.worker i))).map fun pool' => { s with threadPool := some pool' }
      else if s.phases (.worker i) = .ended then
        (pool.step (.pool (.worker i))).map fun pool' => { s with
          threadPool := some pool'
          phases := Function.update s.phases (.worker i) .calls }
      else .error .disabled

/-- The beginning of `EventLoop::run`. -/
def enter (s : StartLoop) (t : Thread) : Except ThreadPool.Disabled StartLoop :=
  match s.loopOf t with
  | none => .error .disabled
  | some loop =>
      if s.phases t = .calls then
        if s.loopRunning loop then .ok { s with phases := Function.update s.phases t .ended }
        else .ok { s with
          loopRunning := Function.update s.loopRunning loop true
          phases := Function.update s.phases t .inside }
      else .error .disabled

/-- The end of `EventLoop::run`. -/
def throw (s : StartLoop) (t : Thread) : Except ThreadPool.Disabled StartLoop :=
  match s.loopOf t with
  | none => .error .disabled
  | some loop =>
      if s.phases t = .inside then
        .ok { s with
          loopRunning := Function.update s.loopRunning loop false
          phases := Function.update s.phases t .ended }
      else .error .disabled

def step (s : StartLoop) : Event → Except ThreadPool.Disabled StartLoop
  | .caller fails => s.startLoop fails s.place
  | .worker i => s.work i
  | .enter t => s.enter t
  | .throw t => s.throw t

/-! ## What has happened -/

structure History where
  lifetime : ThreadPool.Lifetime.History
  /-- A thread could not be created, or an exception has left a loop. -/
  failed : Bool
  /-- The steps of each thread. -/
  steps : Thread → Nat

/-- Nothing has happened yet. -/
def History.empty : History := ⟨.empty, false, fun _ => 0⟩

/-- The step of the pool that a step is, if it is one. -/
def poolEvent (s : StartLoop) : Event → Option ThreadPool.Lifetime.Event
  | .caller fails =>
      match s.place, s.threadPool with
      | .adds loop, some _ =>
          if loop < s.loopsCount.toNat then some (.pool (.caller 0)) else none
      | .starts, some pool => if pool.owner = .starts then some (.owner fails) else none
      | _, _ => none
  | .worker i => some (.pool (.worker i))
  | _ => none

def Event.fails : Event → Bool
  | .caller fails => fails
  | .throw _ => true
  | _ => false

/-- The thread whose step it is. -/
def Event.thread : Event → Thread
  | .caller _ => .caller
  | .worker i => .worker i
  | .enter t | .throw t => t

def record (s : StartLoop) (e : Event) (h : History) : History where
  lifetime :=
    match s.threadPool, s.poolEvent e with
    | some pool, some e => ThreadPool.Lifetime.record pool e h.lifetime
    | _, _ => h.lifetime
  failed := h.failed || e.fails
  steps := Function.update h.steps e.thread (h.steps e.thread + 1)

/-- No step is possible but that an exception leaves a loop. -/
def Settled (s : StartLoop) : Prop := ∀ e s', s.step e = .ok s' → ∃ t, e = .throw t

/-- Every loop gets a thread of its own. -/
structure Served (s : StartLoop × History) : Prop where
  /-- No two threads run the same loop. -/
  exclusive : ∀ t t' loop, s.1.Runs t loop → s.1.Runs t' loop → t = t'
  /-- A thread of the pool is in its loop after six steps of its own. -/
  prompt : s.2.failed = false → ∀ i, s.2.steps (.worker i) ≤ 6
  /-- The caller starts the threads and is in the first loop after so many steps. -/
  bounded : s.2.failed = false → s.2.steps .caller ≤ 4 * s.1.loopsCount.toNat + 1
  /-- In the end every loop is run. -/
  all : s.2.failed = false → s.1.Settled → ∀ loop, loop < s.1.loopsCount.toNat →
    ∃ t, s.1.Runs t loop

end StartLoop

end Netpp
