import Mathlib.Algebra.Ring.Nat
import Mathlib.Logic.Function.Basic
import Netpp.Library.Run
import Netpp.Library.Threads
import Netpp.Signal.Signals

/-!
# The signal watcher

`enableWatchSignal` blocks all signals in every thread, opens a signal descriptor and
starts one thread that blocks the watched signals only: a signal that is not watched
gets to that thread and its default action, a watched one stays pending until a
`SignalHandler` reads it from the descriptor. `watch` and `restore` change the set of
the watched signals and the mask of the descriptor under `m_watchSignalMutex` and
notify the thread, which adopts the set as its mask and waits, under the same mutex.

A run interleaves these calls, the steps of the thread, signals that are sent to the
process, and signal handlers on any loops, as `with` installs them one after the
other. A handler reads at most twenty signals one by one, and then asks for each of
them whether it is still watched. The log says what has become of every signal.
-/

namespace Netpp

namespace SignalWatcher

/-- Where `m_unHandledSignalThread` is. -/
inductive UnHandled where
  | absent
  /-- Before `m_watchSignalMutex` is locked. -/
  | locks
  /-- In `m_waitWatchSignalChange.wait`. -/
  | waits
  /-- Notified, or woken up by nothing. -/
  | woken
  deriving DecidableEq

/-- Where a signal handler is. -/
inductive Phase where
  /-- The functor that registers the handler has not run. -/
  | made
  | idle
  /-- In the read of `handleIn`, with the signals read so far. -/
  | reading (signals : List Nat)
  /-- In the loop of `handleIn`, with the signals that are left. -/
  | handling (signals : List Nat)
  | stopped
  deriving DecidableEq

structure SignalHandler where
  phase : Phase
  /-- The functor of `stop` is queued. -/
  stopping : Bool
  deriving DecidableEq

/-- What has become of the signals that were sent, by their numbers. -/
structure Log where
  raised : Nat → Nat
  /-- The signal was pending already. -/
  merged : Nat → Nat
  /-- A stop signal discards `SIGCONT` and the other way round. -/
  discarded : Nat → Nat
  /-- The default action was taken. -/
  defaulted : Nat → Nat
  /-- A handler read the signal and found that it is not watched. -/
  dropped : Nat → Nat
  /-- The calls of `onSignal`. -/
  told : List Signals

end SignalWatcher

open SignalWatcher in
structure SignalWatcher where
  /-- `enableWatchSignal` has been called. -/
  enabled : Bool
  /-- The signals that the descriptor accepts, if it is not -1. -/
  signalFd : Option (Nat → Bool)
  /-- `m_watchingSignals`. -/
  watching : Nat → Bool
  thread : UnHandled
  /-- The signals that `m_unHandledSignalThread` blocks. -/
  blocked : Nat → Bool
  pending : Nat → Nat
  handlers : List SignalHandler
  log : Log

namespace SignalWatcher

/-- Before `enableWatchSignal`. -/
def init : SignalWatcher where
  enabled := false
  signalFd := none
  watching := fun _ => false
  thread := .absent
  blocked := fun _ => false
  pending := fun _ => 0
  handlers := []
  log := ⟨fun _ => 0, fun _ => 0, fun _ => 0, fun _ => 0, fun _ => 0, []⟩

/-! ## The kernel -/

/-- `SIGKILL` and `SIGSTOP` cannot be blocked. -/
def maskable (signal : Nat) : Bool := signal ≠ 9 ∧ signal ≠ 19

/-- The mask that a thread has after `pthread_sigmask`. -/
def sigmask (set : Nat → Bool) (signal : Nat) : Bool := set signal && maskable signal

/-- No thread of the process takes the signal. The threads other than `m_unHandledSignalThread`
block everything that they can once `enableWatchSignal` has been called. -/
def blocks (s : SignalWatcher) (signal : Nat) : Bool :=
  s.enabled && maskable signal && (s.thread == .absent || s.blocked signal)

/-- `SIGCONT` discards the pending stop signals, and a stop signal a pending `SIGCONT`. -/
def discards (signal other : Nat) : Bool :=
  signal = 18 ∧ other ∈ [19, 20, 21, 22] ∨ signal ∈ [19, 20, 21, 22] ∧ other = 18

/-- One more at this number. -/
def bump (f : Nat → Nat) (signal : Nat) : Nat → Nat := Function.update f signal (f signal + 1)

/-- The pending signals that a new one discards. -/
def discard (s : SignalWatcher) (signal : Nat) : SignalWatcher := { s with
  pending := fun other => if discards signal other then 0 else s.pending other
  log := { s.log with
    discarded := fun other =>
      s.log.discarded other + if discards signal other then s.pending other else 0 } }

/-- A signal is sent to the process. The signals below `SIGRTMIN` are not queued twice. -/
def send (s : SignalWatcher) (signal : Nat) : SignalWatcher :=
  let log := { s.log with raised := bump s.log.raised signal }
  if s.blocks signal then
    if signal < 32 ∧ s.pending signal ≠ 0 then
      { s with log := { log with merged := bump log.merged signal } }
    else { s with pending := bump s.pending signal, log := log }
  else { s with log := { log with defaulted := bump log.defaulted signal } }

def raise (s : SignalWatcher) (signal : Nat) : SignalWatcher := (s.discard signal).send signal

/-- The kernel delivers what the process does not block any more. -/
def deliver (s : SignalWatcher) : SignalWatcher := { s with
  pending := fun signal => if s.blocks signal then s.pending signal else 0
  log := { s.log with
    defaulted := fun signal =>
      s.log.defaulted signal + if s.blocks signal then 0 else s.pending signal } }

/-- The read of the descriptor finds this signal. -/
def readable (s : SignalWatcher) (signal : Nat) : Bool :=
  (s.signalFd.map fun mask => mask signal).getD false && decide (s.pending signal ≠ 0)

/-! ## The watcher -/

def enableWatchSignal (s : SignalWatcher) (opened : Bool) : SignalWatcher :=
  if s.enabled then s
  else { s with
    enabled := true
    watching := fun _ => false
    signalFd := if opened then some fun _ => false else none
    thread := if opened then .locks else .absent
    blocked := sigmask fun _ => true }

/-- `notify_one`. -/
def UnHandled.notify : UnHandled → UnHandled
  | .waits => .woken
  | thread => thread

/-- The body of `watch` and of `restore`, under the mutex. -/
def change (s : SignalWatcher) (signal : Nat) (watched : Bool) : SignalWatcher :=
  match s.signalFd with
  | none => s
  | some _ => { s with
      watching := Function.update s.watching signal watched
      signalFd := some (Function.update s.watching signal watched)
      thread := s.thread.notify }

def watch (s : SignalWatcher) (signal : Signals) : SignalWatcher :=
  s.change signal.toLinuxSignal true

def restore (s : SignalWatcher) (signal : Signals) : SignalWatcher :=
  s.change signal.toLinuxSignal false

/-- `isWatching(int)`. -/
def isWatching (s : SignalWatcher) (signal : Nat) : Bool :=
  s.signalFd.isSome && s.watching signal

/-- A step of `m_unHandledSignalThread`. It holds the mutex from the adoption of the set until it
waits. -/
def unHandled (s : SignalWatcher) : UnHandled → Option SignalWatcher
  | .locks => some { s with blocked := sigmask s.watching, thread := .waits }.deliver
  | .woken => some { s with thread := .locks }
  | .absent | .waits => none

/-! ## The handlers -/

/-- `with`: the handler before is stopped, and a new one is made. -/
def with' (s : SignalWatcher) : SignalWatcher :=
  { s with handlers :=
      s.handlers.dropLast ++
        (s.handlers.getLast?.map fun h => { h with stopping := true }).toList ++
          [⟨.made, false⟩] }

/-- The signals that the handler has read and not handled. -/
def Phase.signals : Phase → List Nat
  | .reading signals | .handling signals => signals
  | _ => []

/-- The loop of the handler runs its next functor. -/
def functor (h : SignalHandler) : Option SignalHandler :=
  match h.phase with
  | .made => some { h with phase := .idle }
  | .idle => if h.stopping then some { h with phase := .stopped } else none
  | _ => none

/-- `maxSignalRead`. -/
def maxSignalRead : Nat := 20

/-- The handler reads one more signal. -/
def dequeue (s : SignalWatcher) (i : Nat) (h : SignalHandler) (signal : Nat) :
    Option SignalWatcher :=
  match h.phase with
  | .reading signals =>
      if signals.length < maxSignalRead ∧ s.readable signal then some { s with
        pending := Function.update s.pending signal (s.pending signal - 1)
        handlers := s.handlers.set i { h with phase := .reading (signals ++ [signal]) } }
      else none
  | _ => none

/-- The read returns when it has read enough or there is nothing to read; with nothing read it
fails. -/
def endRead (s : SignalWatcher) (h : SignalHandler) : Option SignalHandler :=
  match h.phase with
  | .reading signals =>
      if signals.length = maxSignalRead ∨ ∀ signal ∈ List.range 65, s.readable signal = false then
        some { h with phase := if signals = [] then .idle else .handling signals }
      else none
  | _ => none

/-- The next signal of the loop in `handleIn`. -/
def handle (s : SignalWatcher) (i : Nat) (h : SignalHandler) : Option SignalWatcher :=
  match h.phase with
  | .handling [] => some { s with handlers := s.handlers.set i { h with phase := .idle } }
  | .handling (signal :: signals) => some { s with
      log :=
        if s.isWatching signal then
          { s.log with told := s.log.told ++ [Signals.toNetppSignal signal] }
        else { s.log with dropped := bump s.log.dropped signal }
      handlers := s.handlers.set i { h with phase := .handling signals } }
  | _ => none

/-! ## Steps -/

inductive Event where
  | enableWatchSignal (opened : Bool)
  | watch (signal : Signals)
  | restore (signal : Signals)
  | unHandled
  /-- The wait returns without a notification. -/
  | wake
  | raise (signal : Nat)
  | with'
  | functor (i : Nat)
  /-- The loop calls `handleIn`, which begins to read. -/
  | handleIn (i : Nat)
  | dequeue (i : Nat) (signal : Nat)
  | endRead (i : Nat)
  | handle (i : Nat)

/-- The step is not possible. -/
inductive Disabled where
  | disabled

/-- The step of a handler alone. -/
def stepHandler (s : SignalWatcher) (i : Nat) (h' : Option SignalHandler) : Option SignalWatcher :=
  h'.map fun h' => { s with handlers := s.handlers.set i h' }

/-- The step, if it is possible. -/
def step? (s : SignalWatcher) : Event → Option SignalWatcher
  | .enableWatchSignal opened => some (s.enableWatchSignal opened)
  | .watch signal => some (s.watch signal)
  | .restore signal => some (s.restore signal)
  | .unHandled => s.unHandled s.thread
  | .wake => if s.thread = .waits then some { s with thread := .woken } else none
  | .raise signal => if 0 < signal ∧ signal < 65 then some (s.raise signal) else none
  | .with' => some s.with'
  | .functor i => s.handlers[i]?.bind fun h => s.stepHandler i (functor h)
  | .handleIn i => s.handlers[i]?.bind fun h =>
      s.stepHandler i (if h.phase = .idle then some { h with phase := .reading [] } else none)
  | .dequeue i signal => s.handlers[i]?.bind fun h => s.dequeue i h signal
  | .endRead i => s.handlers[i]?.bind fun h => s.stepHandler i (s.endRead h)
  | .handle i => s.handlers[i]?.bind fun h => s.handle i h

def step (s : SignalWatcher) (e : Event) : Except Disabled SignalWatcher :=
  match s.step? e with
  | some s' => .ok s'
  | none => .error .disabled

end SignalWatcher

end Netpp
