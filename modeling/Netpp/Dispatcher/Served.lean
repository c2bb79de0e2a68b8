import Netpp.Dispatcher.StartLoop

/-!
# Every loop gets a thread

The tasks that the threads of the pool have in their hands are different ones, so no two
threads run the same loop. As long as nothing fails no thread of the pool is done with
its task, and there are not more threads than tasks: a thread that has none finds one in
the queue, does not wait, and is so many steps away from its loop as `distance` says.
-/

namespace Netpp

namespace StartLoop

open ThreadPool (Control Worker Lifetime)

variable {s s' : StartLoop} {h : History} {pool pool' : Lifetime} {t t' : Thread} {loop i : Nat}

/-! ## Different threads run different loops -/

theorem consistent_step {order : Lifetime.History} (hc : Lifetime.Consistent (pool, order))
    {e : Lifetime.Event} (hok : pool.step e = .ok pool') :
    Lifetime.Consistent (pool', Lifetime.record pool e order) := by
  apply Lifetime.Consistent.step hc (e := e)
  rw [Run.recorded, hok]

theorem nodup_inHands {p : ThreadPool} {order : ThreadPool.History}
    (hordered : ThreadPool.Ordered (p, order)) : p.inHands.Nodup := by
  have hpushed := hordered.nodup
  rw [show order.pushed = order.takenOut ++ p.workQueue from hordered.fifo] at hpushed
  have htaken := (List.nodup_append.mp hpushed).1
  exact (List.nodup_append.mp (hordered.executed.nodup_iff.mpr htaken)).1

theorem loopOf_worker (h : s.loopOf (.worker i) = some loop) :
    ∃ pool task, s.threadPool = some pool ∧ pool.pool.threads[i]? = some (.running task) ∧
      loop = task + 1 := by
  rw [loopOf] at h
  split at h
  case h_1 task hrunning =>
    obtain ⟨pool, hpool, hthread⟩ := Option.bind_eq_some_iff.mp hrunning
    exact ⟨pool, task, hpool, hthread, (Option.some.inj h).symm⟩
  case h_2 => cases h

theorem loopOf_caller (h : s.loopOf .caller = some loop) : s.place = .runs ∧ loop = 0 := by
  rw [loopOf] at h
  split at h
  case isTrue hruns => exact ⟨hruns, (Option.some.inj h).symm⟩
  case isFalse => cases h

theorem loopOf_of_running (hpool : s.threadPool = some pool) {task : Nat}
    (hthread : pool.pool.threads[i]? = some (.running task)) :
    s.loopOf (.worker i) = some (task + 1) := by
  simp only [loopOf, hpool, Option.bind_some, hthread]

/-- Different threads have called `run` of different loops. -/
theorem loopOf_injective
    (hc : ∀ pool, s.threadPool = some pool → Lifetime.Consistent (pool, h.lifetime))
    (ht : s.loopOf t = some loop) (ht' : s.loopOf t' = some loop) : t = t' := by
  cases t with
  | caller =>
      cases t' with
      | caller => rfl
      | worker j =>
          obtain ⟨pool, task, -, -, hloop⟩ := loopOf_worker ht'
          have hzero := (loopOf_caller ht).2
          omega
  | worker i =>
      obtain ⟨pool, task, hpool, hthread, hloop⟩ := loopOf_worker ht
      cases t' with
      | caller =>
          have hzero := (loopOf_caller ht').2
          omega
      | worker j =>
          obtain ⟨pool', task', hpool', hthread', hloop'⟩ := loopOf_worker ht'
          rw [hpool] at hpool'
          cases hpool'
          obtain rfl : task = task' := by omega
          have hnodup := nodup_inHands (hc pool hpool).ordered
          rw [Threads.eq_of_filterMap_nodup hnodup hthread hthread' rfl rfl]

/-! ## How far a thread is from its loop -/

/-- The steps that a thread makes before it is in its loop. There is no number for a thread that
waits or is done with a task. -/
def distance : Option Control → Option Worker → Phase → Option Nat
  | some .testsQuit, some .idle, .calls => some 6
  | some .testsEmpty, some .idle, .calls => some 5
  | some .runsTask, some .idle, .calls => some 4
  | some .runsTask, some (.popped _), .calls => some 3
  | some .runsTask, some (.entered _), .calls => some 2
  | some .runsTask, some (.running _), .calls => some 1
  | some .runsTask, some (.running _), .inside => some 0
  | _, _, _ => none

/-- Outside `run` a step of the thread brings it closer, if a thread without a task finds one. -/
theorem distance_workerThread {control : Control} {worker : Worker} {phase : Phase} {k : Nat}
    (hquit : pool.quit = false) (hqueue : worker = .idle → pool.pool.workQueue ≠ [])
    (hcontrol : pool.control[i]? = some control) (hworker : pool.pool.threads[i]? = some worker)
    (hrunning : ∀ task, worker ≠ .running task)
    (hdistance : distance (some control) (some worker) phase = some (k + 1)) :
    distance (pool.workerThread i worker control).control[i]?
      (pool.workerThread i worker control).pool.threads[i]? phase = some k := by
  obtain ⟨hi, -⟩ := List.getElem?_eq_some_iff.mp hcontrol
  obtain ⟨hi', -⟩ := List.getElem?_eq_some_iff.mp hworker
  cases worker with
  | running task => exact absurd rfl (hrunning task)
  | ran => cases control <;> simp [distance] at hdistance
  | idle =>
      obtain ⟨task, rest, hcons⟩ := List.exists_cons_of_ne_nil (hqueue rfl)
      cases control <;> cases phase <;>
        simp_all [distance, Lifetime.workerThread, ThreadPool.runTask]
  | _ =>
      cases control <;> cases phase <;>
        simp_all [distance, Lifetime.workerThread, ThreadPool.runTask]

/-! ## What a step can be -/

/-- The outcomes of a step. -/
inductive Stepped (s : StartLoop) : Event → StartLoop → Prop
  | alone (fails : Bool) (loop : Nat) (hplace : s.place = .adds loop)
      (hpool : s.threadPool = none) :
      Stepped s (.caller fails) { s with place := if s.loopsCount = 0 then .returned else .runs }
  | adds (fails : Bool) (loop : Nat) (pool pool' : Lifetime) (hplace : s.place = .adds loop)
      (hpool : s.threadPool = some pool) (hlt : loop < s.loopsCount.toNat)
      (hstep : pool.step (.pool (.caller 0)) = .ok pool') :
      Stepped s (.caller fails) { s with
        threadPool := some pool'
        place := .adds (if pool'.pool.callers[0]? = some .idle then loop + 1 else loop) }
  | added (fails : Bool) (loop : Nat) (pool : Lifetime) (hplace : s.place = .adds loop)
      (hpool : s.threadPool = some pool) (hle : s.loopsCount.toNat ≤ loop) :
      Stepped s (.caller fails) { s with place := .starts }
  | starts (fails : Bool) (pool pool' : Lifetime) (hplace : s.place = .starts)
      (hpool : s.threadPool = some pool) (howner : pool.owner = .starts)
      (hstep : pool.step (.owner fails) = .ok pool') :
      Stepped s (.caller fails) { s with threadPool := some pool' }
  | started (fails : Bool) (pool : Lifetime) (hplace : s.place = .starts)
      (hpool : s.threadPool = some pool) (howner : pool.owner ≠ .starts) :
      Stepped s (.caller fails) { s with place := .runs }
  | works (i : Nat) (pool pool' : Lifetime) (hpool : s.threadPool = some pool)
      (hloop : s.loopOf (.worker i) = none) (hstep : pool.step (.pool (.worker i)) = .ok pool') :
      Stepped s (.worker i) { s with threadPool := some pool' }
  | executed (i : Nat) (pool pool' : Lifetime) (hpool : s.threadPool = some pool)
      (hphase : s.phases (.worker i) = .ended)
      (hstep : pool.step (.pool (.worker i)) = .ok pool') :
      Stepped s (.worker i) { s with
        threadPool := some pool'
        phases := Function.update s.phases (.worker i) .calls }
  | refused (t : Thread) (loop : Nat) (hloop : s.loopOf t = some loop)
      (hphase : s.phases t = .calls) (hflag : s.loopRunning loop = true) :
      Stepped s (.enter t) { s with phases := Function.update s.phases t .ended }
  | enters (t : Thread) (loop : Nat) (hloop : s.loopOf t = some loop)
      (hphase : s.phases t = .calls) (hflag : s.loopRunning loop = false) :
      Stepped s (.enter t) { s with
        loopRunning := Function.update s.loopRunning loop true
        phases := Function.update s.phases t .inside }
  | throws (t : Thread) (loop : Nat) (hloop : s.loopOf t = some loop)
      (hphase : s.phases t = .inside) :
      Stepped s (.throw t) { s with
        loopRunning := Function.update s.loopRunning loop false
        phases := Function.update s.phases t .ended }

/-- A step that succeeds has one of the outcomes. -/
theorem step_ok {e : Event} (hok : s.step e = .ok s') : Stepped s e s' := by
  cases e with
  | caller fails =>
      rw [step] at hok
      cases hplace : s.place with
      | adds loop =>
          rw [hplace] at hok
          simp only [startLoop] at hok
          split at hok
          case h_1 hpool =>
            cases hok
            exact .alone fails loop hplace hpool
          case h_2 pool hpool =>
            split at hok
            case isTrue hlt =>
              obtain ⟨pool', hstep, rfl⟩ := Except.exists_of_map_eq_ok hok
              exact .adds fails loop pool pool' hplace hpool hlt hstep
            case isFalse hle =>
              cases hok
              exact .added fails loop pool hplace hpool (Nat.not_lt.mp hle)
      | starts =>
          rw [hplace] at hok
          simp only [startLoop] at hok
          split at hok
          case h_1 => cases hok
          case h_2 pool hpool =>
            rw [start] at hok
            split at hok
            case isTrue howner =>
              obtain ⟨pool', hstep, rfl⟩ := Except.exists_of_map_eq_ok hok
              exact .starts fails pool pool' hplace hpool howner hstep
            case isFalse howner =>
              cases hok
              exact .started fails pool hplace hpool howner
      | runs => simp [hplace, startLoop] at hok
      | returned => simp [hplace, startLoop] at hok
  | worker i =>
      rw [step, work] at hok
      split at hok
      case h_1 => cases hok
      case h_2 pool hpool =>
        split at hok
        case isTrue hloop =>
          obtain ⟨pool', hstep, rfl⟩ := Except.exists_of_map_eq_ok hok
          exact .works i pool pool' hpool hloop hstep
        case isFalse =>
          split at hok
          case isTrue hphase =>
            obtain ⟨pool', hstep, rfl⟩ := Except.exists_of_map_eq_ok hok
            exact .executed i pool pool' hpool hphase hstep
          case isFalse => cases hok
  | enter t =>
      rw [step, enter] at hok
      split at hok
      case h_1 => cases hok
      case h_2 loop hloop =>
        split at hok
        case isFalse => cases hok
        case isTrue hphase =>
          split at hok
          case isTrue hflag =>
            cases hok
            exact .refused t loop hloop hphase hflag
          case isFalse hflag =>
            cases hok
            exact .enters t loop hloop hphase (Bool.not_eq_true _ ▸ hflag)
  | throw t =>
      rw [step, throw] at hok
      split at hok
      case h_1 => cases hok
      case h_2 loop hloop =>
        split at hok
        case isFalse => cases hok
        case isTrue hphase =>
          cases hok
          exact .throws t loop hloop hphase

/-! ## The invariant -/

/-- As long as nothing has failed: without a pool the caller runs the one loop, if there is one. -/
def Alone (s : StartLoop) (steps : Nat) : Place → Prop
  | .adds _ => s.loopsCount.toNat ≤ 1 ∧ s.phases .caller = .calls ∧ steps = 0
  | .runs => s.loopsCount.toNat = 1 ∧
      (s.phases .caller = .calls ∧ steps = 1 ∨ s.phases .caller = .inside ∧ steps = 2)
  | .returned => s.loopsCount.toNat = 0 ∧ steps = 1
  | .starts => False

/-- How far the caller has come in `m_threadPool->run`. -/
def Adding (pool : ThreadPool) (n loop steps : Nat) : Prop :=
  (pool.callers = [.idle] ∧ pool.next + 1 = loop ∧ steps + 3 = 3 * loop) ∨
    (∃ task, pool.callers = [.counted task] ∧ pool.next = loop ∧ loop < n ∧
      steps + 2 = 3 * loop) ∨
    (∃ task, pool.callers = [.pushed task] ∧ pool.next = loop ∧ loop < n ∧ steps + 1 = 3 * loop)

/-- As long as nothing has failed: with a pool the caller adds a task for each other loop and
starts a thread for each task. -/
def Underway (s : StartLoop) (pool : Lifetime) (steps : Nat) : Place → Prop
  | .adds loop => pool.owner = .starts ∧ pool.control.length = 0 ∧ s.phases .caller = .calls ∧
      loop ≤ s.loopsCount.toNat ∧ Adding pool.pool s.loopsCount.toNat loop steps
  | .starts => pool.pool.callers = [.idle] ∧ pool.pool.next + 1 = s.loopsCount.toNat ∧
      s.phases .caller = .calls ∧
      (pool.owner = .starts ∧ steps + 2 = 3 * s.loopsCount.toNat + pool.control.length ∨
        pool.owner = .started ∧ pool.control.length + 1 = s.loopsCount.toNat ∧
          steps + 1 = 3 * s.loopsCount.toNat + pool.control.length)
  | .runs => pool.pool.callers = [.idle] ∧ pool.pool.next + 1 = s.loopsCount.toNat ∧
      pool.owner = .started ∧ pool.control.length + 1 = s.loopsCount.toNat ∧
      (s.phases .caller = .calls ∧ steps = 3 * s.loopsCount.toNat + pool.control.length ∨
        s.phases .caller = .inside ∧ steps = 3 * s.loopsCount.toNat + pool.control.length + 1)
  | .returned => False

/-- As long as nothing has failed, the threads of the pool are on their way. -/
structure Intact (s : StartLoop) (h : History) (pool : Lifetime) : Prop where
  quit : pool.quit = false
  threadNumber : pool.threadNumber.toNat + 1 = s.loopsCount.toNat
  finished : pool.pool.finished = []
  workers : ∀ i, i < pool.control.length → ∃ k,
    distance pool.control[i]? pool.pool.threads[i]? (s.phases (.worker i)) = some k ∧
      h.steps (.worker i) + k = 6
  unborn : ∀ i, pool.control.length ≤ i →
    s.phases (.worker i) = .calls ∧ h.steps (.worker i) = 0
  underway : s.Underway pool (h.steps .caller) s.place

structure Sound (s : StartLoop) (h : History) : Prop where
  flagged : ∀ loop, s.loopRunning loop = true → ∃ t, s.Runs t loop
  alone : s.threadPool = none → s.Alone (h.steps .caller) s.place ∧
    ∀ i, h.steps (.worker i) = 0
  intact : ∀ pool, s.threadPool = some pool → Intact s h pool

structure Serving (s : StartLoop) (h : History) : Prop where
  consistent : ∀ pool, s.threadPool = some pool → Lifetime.Consistent (pool, h.lifetime)
  sound : h.failed = false → Sound s h

theorem Serving.stepped_consistent (hserving : Serving s h) {e : Event} (hstep : Stepped s e s')
    (hpool' : s'.threadPool = some pool') :
    Lifetime.Consistent (pool', (record s e h).lifetime) := by
  cases hstep with
  | alone fails loop hplace hpool => simp [hpool] at hpool'
  | adds fails loop pool pool'' hplace hpool hlt hstep =>
      cases hpool'
      simpa only [record, poolEvent, hplace, hpool, hlt, if_true] using
        consistent_step (hserving.consistent pool hpool) hstep
  | added fails loop pool hplace hpool hle =>
      simpa only [record, poolEvent, hplace, hpool, Nat.not_lt.mpr hle, if_false] using
        hserving.consistent pool' hpool'
  | starts fails pool pool'' hplace hpool howner hstep =>
      cases hpool'
      simpa only [record, poolEvent, hplace, hpool, howner, if_true] using
        consistent_step (hserving.consistent pool hpool) hstep
  | started fails pool hplace hpool howner =>
      simpa only [record, poolEvent, hplace, hpool, howner, if_false] using
        hserving.consistent pool' hpool'
  | works i pool pool'' hpool hloop hstep =>
      cases hpool'
      simpa only [record, poolEvent, hpool] using
        consistent_step (hserving.consistent pool hpool) hstep
  | executed i pool pool'' hpool hphase hstep =>
      cases hpool'
      simpa only [record, poolEvent, hpool] using
        consistent_step (hserving.consistent pool hpool) hstep
  | _ =>
      have hpool : s.threadPool = some pool' := hpool'
      simpa only [record, poolEvent, hpool] using hserving.consistent pool' hpool

/-- The calls of `run` that have been made when the caller goes on in `startLoop`, or a thread of
the pool goes on outside `run`. -/
theorem loopOf_kept (hplace : s'.place = s.place ∨ s.place ≠ .runs)
    (hthreads : ∀ (pool : Lifetime) (i task : Nat), s.threadPool = some pool →
      pool.pool.threads[i]? = some (.running task) → ∃ pool', s'.threadPool = some pool' ∧
        pool'.pool.threads[i]? = some (.running task))
    (hloop : s.loopOf t = some loop) : s'.loopOf t = some loop := by
  cases t with
  | caller =>
      obtain ⟨hruns, rfl⟩ := loopOf_caller hloop
      rcases hplace with hplace | hplace
      · rw [loopOf, hplace, if_pos hruns]
      · exact absurd hruns hplace
  | worker i =>
      obtain ⟨pool, task, hpool, hthread, rfl⟩ := loopOf_worker hloop
      obtain ⟨pool', hpool', hthread'⟩ := hthreads pool i task hpool hthread
      exact loopOf_of_running hpool' hthread'

theorem Sound.flagged_of_kept (hsound : Sound s h) (hflags : s'.loopRunning = s.loopRunning)
    (hphases : s'.phases = s.phases)
    (hkept : ∀ t loop, s.loopOf t = some loop → s'.loopOf t = some loop) (loop : Nat)
    (hflag : s'.loopRunning loop = true) : ∃ t, s'.Runs t loop := by
  rw [hflags] at hflag
  obtain ⟨t, hloop, hinside⟩ := hsound.flagged loop hflag
  exact ⟨t, hkept t loop hloop, by rw [hphases, hinside]⟩

/-- The caller goes on in `startLoop` before it runs a loop. -/
theorem Sound.flagged_of_place (hsound : Sound s h) (hplace : s.place ≠ .runs) {place : Place}
    (loop : Nat) (hflag : s.loopRunning loop = true) :
    ∃ t, Runs { s with place := place } t loop := by
  obtain ⟨t, hloop, hinside⟩ := hsound.flagged loop hflag
  have hkept : loopOf { s with place := place } t = some loop :=
    loopOf_kept (s := s) (.inr hplace)
      (fun pool i task hsome hthread => ⟨pool, hsome, hthread⟩) hloop
  exact ⟨t, hkept, hinside⟩

/-! ## The caller -/

theorem record_steps (s : StartLoop) (e : Event) (h : History) :
    (s.record e h).steps e.thread = h.steps e.thread + 1 := Function.update_self _ _ _

theorem record_steps_of_ne {e : Event} (hne : t ≠ e.thread) (s : StartLoop) (h : History) :
    (s.record e h).steps t = h.steps t := Function.update_of_ne hne _ _

theorem Sound.alone_caller (hsound : Sound s h) {fails : Bool} (hplace : s.place = .adds loop)
    (hpool : s.threadPool = none) :
    Sound { s with place := if s.loopsCount = 0 then .returned else .runs }
      (record s (.caller fails) h) := by
  obtain ⟨halone, hworkers⟩ := hsound.alone hpool
  rw [hplace] at halone
  obtain ⟨hcount, hphase, hsteps⟩ := halone
  refine ⟨hsound.flagged_of_place (by simp [hplace]), fun _ => ⟨?_, fun i => ?_⟩,
    fun pool hsome => ?_⟩
  · rw [show (s.record (.caller fails) h).steps .caller = _ from record_steps ..]
    by_cases hzero : s.loopsCount = 0
    · rw [if_pos hzero]
      exact ⟨by simp only [hzero]; rfl, congrArg Nat.succ hsteps⟩
    · rw [if_neg hzero]
      have hpos : s.loopsCount.toNat ≠ 0 := fun h => hzero (UInt32.toNat_inj.mp h)
      exact ⟨Nat.le_antisymm hcount (Nat.pos_of_ne_zero hpos),
        .inl ⟨hphase, congrArg Nat.succ hsteps⟩⟩
  · rw [record_steps_of_ne (by simp [Event.thread]), hworkers]
  · simp [hpool] at hsome

theorem Adding.step {p : ThreadPool} {n steps : Nat} (hadding : Adding p n loop steps)
    (hlt : loop < n) : ∃ p', p.step (.caller 0) = .ok p' ∧ p'.threads = p.threads ∧
      p'.finished = p.finished ∧
      Adding p' n (if p'.callers[0]? = some .idle then loop + 1 else loop) (steps + 1) := by
  rcases hadding with ⟨hcallers, hnext, hsteps⟩ | ⟨task, hcallers, hnext, hlt, hsteps⟩ |
    ⟨task, hcallers, hnext, hlt, hsteps⟩
  · refine ⟨p.addTask 0 .idle, by simp [ThreadPool.step, hcallers], rfl, rfl, ?_⟩
    simp only [ThreadPool.addTask, hcallers, List.set_cons_zero, List.getElem?_cons_zero,
      Option.some.injEq, reduceCtorEq, if_false]
    exact .inr (.inl ⟨p.next, rfl, hnext, hlt, by omega⟩)
  · refine ⟨p.addTask 0 (.counted task), by simp [ThreadPool.step, hcallers], rfl, rfl, ?_⟩
    simp only [ThreadPool.addTask, hcallers, List.set_cons_zero, List.getElem?_cons_zero,
      Option.some.injEq, reduceCtorEq, if_false]
    exact .inr (.inr ⟨task, rfl, hnext, hlt, by omega⟩)
  · refine ⟨p.addTask 0 (.pushed task), by simp [ThreadPool.step, hcallers], rfl, rfl, ?_⟩
    simp only [ThreadPool.addTask, hcallers, List.set_cons_zero, List.getElem?_cons_zero, if_true]
    exact .inl ⟨rfl, by simp only; omega, by omega⟩

/-- Steps of the caller leave the threads of the pool as far as they were. -/
theorem Intact.workers_caller (hintact : Intact s h pool) (fails : Bool)
    (hcontrol : pool'.control = pool.control) (hthreads : pool'.pool.threads = pool.pool.threads)
    (hi : i < pool'.control.length) : ∃ k,
      distance pool'.control[i]? pool'.pool.threads[i]? (s.phases (.worker i)) = some k ∧
        (s.record (.caller fails) h).steps (.worker i) + k = 6 := by
  rw [record_steps_of_ne (by simp [Event.thread]), hcontrol, hthreads]
  exact hintact.workers i (hcontrol ▸ hi)

theorem Intact.unborn_caller (hintact : Intact s h pool) (fails : Bool)
    (hi : pool.control.length ≤ i) : s.phases (.worker i) = .calls ∧
      (s.record (.caller fails) h).steps (.worker i) = 0 := by
  rw [record_steps_of_ne (by simp [Event.thread])]
  exact hintact.unborn i hi

theorem Sound.adds_caller (hsound : Sound s h) {fails : Bool} (hplace : s.place = .adds loop)
    (hpool : s.threadPool = some pool) (hlt : loop < s.loopsCount.toNat)
    (hok : pool.step (.pool (.caller 0)) = .ok pool') :
    Sound { s with
        threadPool := some pool'
        place := .adds (if pool'.pool.callers[0]? = some .idle then loop + 1 else loop) }
      (record s (.caller fails) h) := by
  have hintact := hsound.intact pool hpool
  have hunderway := hintact.underway
  rw [hplace] at hunderway
  obtain ⟨howner, hcontrol, hphase, -, hadding⟩ := hunderway
  obtain ⟨p', hstep, hthreads, hfinished, hadding'⟩ := hadding.step hlt
  obtain ⟨p, hp, rfl, -⟩ := Lifetime.step_pool_ok (by simp) hok
  rw [hstep] at hp
  cases hp
  refine ⟨hsound.flagged_of_kept rfl rfl fun t loop' hloop => ?_, fun hnone => ?_,
    fun pool' hsome => ?_⟩
  · refine loopOf_kept (s := s) (.inr (by simp [hplace]))
      (fun pool' i task hsome hthread => ?_) hloop
    rw [hpool] at hsome
    cases hsome
    exact ⟨_, rfl, by rw [hthreads, hthread]⟩
  · cases hnone
  · cases hsome
    refine ⟨hintact.quit, hintact.threadNumber, hfinished.trans hintact.finished,
      fun i hi => hintact.workers_caller fails rfl hthreads hi,
      fun i hi => hintact.unborn_caller fails hi, howner, hcontrol, hphase, ?_, ?_⟩
    · change _ ≤ s.loopsCount.toNat
      split <;> omega
    · rw [show (s.record (.caller fails) h).steps .caller = _ from record_steps ..]
      exact hadding'

theorem Sound.added_caller (hsound : Sound s h) {fails : Bool} (hplace : s.place = .adds loop)
    (hpool : s.threadPool = some pool) (hle : s.loopsCount.toNat ≤ loop) :
    Sound { s with place := .starts } (record s (.caller fails) h) := by
  have hintact := hsound.intact pool hpool
  have hunderway := hintact.underway
  rw [hplace] at hunderway
  obtain ⟨howner, hcontrol, hphase, hle', hadding⟩ := hunderway
  obtain rfl := Nat.le_antisymm hle' hle
  refine ⟨hsound.flagged_of_place (by simp [hplace]), fun hnone => ?_, fun pool' hsome => ?_⟩
  · simp [hpool] at hnone
  · obtain rfl := Option.some.inj (hpool.symm.trans hsome)
    refine ⟨hintact.quit, hintact.threadNumber, hintact.finished,
      fun i hi => hintact.workers_caller fails rfl rfl hi,
      fun i hi => hintact.unborn_caller fails hi, ?_⟩
    rw [show (s.record (.caller fails) h).steps .caller = _ from record_steps ..]
    have hidle : pool.pool.callers = [.idle] ∧ pool.pool.next + 1 = s.loopsCount.toNat ∧
        h.steps .caller + 3 = 3 * s.loopsCount.toNat := by
      rcases hadding with hidle | ⟨task, -, -, hlt, -⟩ | ⟨task, -, -, hlt, -⟩
      · exact hidle
      · exact absurd hlt (Nat.lt_irrefl _)
      · exact absurd hlt (Nat.lt_irrefl _)
    obtain ⟨hcallers, hnext, hsteps⟩ := hidle
    refine ⟨hcallers, hnext, hphase, .inl ⟨howner, ?_⟩⟩
    rw [hcontrol]
    change h.steps .caller + 1 + 2 = _
    omega

/-- A thread that has just been created has all its steps before it. -/
theorem Intact.created (hintact : Intact s h pool)
    (hlength : pool.control.length = pool.pool.threads.length) (fails : Bool)
    (hi : i < pool.control.length + 1) : ∃ k,
      distance (pool.control ++ [.testsQuit])[i]? (pool.pool.threads ++ [.idle])[i]?
        (s.phases (.worker i)) = some k ∧
        (s.record (.caller fails) h).steps (.worker i) + k = 6 := by
  rw [record_steps_of_ne (by simp [Event.thread])]
  rcases Nat.lt_succ_iff_lt_or_eq.mp hi with hi | rfl
  · rw [List.getElem?_append_left hi, List.getElem?_append_left (hlength ▸ hi)]
    exact hintact.workers i hi
  · obtain ⟨hphase, hsteps⟩ := hintact.unborn _ le_rfl
    refine ⟨6, ?_, by rw [hsteps]⟩
    rw [List.getElem?_concat_length, hlength, List.getElem?_concat_length, ← hlength, hphase]
    rfl

theorem Sound.starts_caller (hsound : Sound s h)
    (hc : Lifetime.Consistent (pool, h.lifetime)) (hplace : s.place = .starts)
    (hpool : s.threadPool = some pool) (howner : pool.owner = .starts)
    (hok : pool.step (.owner false) = .ok pool') :
    Sound { s with threadPool := some pool' } (record s (.caller false) h) := by
  have hintact := hsound.intact pool hpool
  have hunderway := hintact.underway
  rw [hplace] at hunderway
  obtain ⟨hcallers, hnext, hphase, hsteps⟩ := hunderway
  have hsteps : h.steps .caller + 2 = 3 * s.loopsCount.toNat + pool.control.length := by
    rcases hsteps with ⟨-, hsteps⟩ | ⟨hstarted, -⟩
    · exact hsteps
    · rw [howner] at hstarted
      cases hstarted
  have hlength : pool.control.length = pool.pool.threads.length := hc.placed.length
  have hle : pool.control.length ≤ pool.threadNumber.toNat := hc.placed.length_le
  have hnumber := hintact.threadNumber
  have hrecord : (s.record (.caller false) h).steps .caller = h.steps .caller + 1 :=
    record_steps ..
  obtain ⟨-, rfl⟩ := Lifetime.step_owner_ok hok
  rw [howner, Lifetime.own]
  by_cases hlt : pool.control.length < pool.threadNumber.toNat
  · simp only [if_pos hlt, Bool.false_eq_true, if_false]
    refine ⟨hsound.flagged_of_kept rfl rfl fun t loop' hloop => ?_, fun hnone => ?_,
      fun pool' hsome => ?_⟩
    · refine loopOf_kept (s := s) (.inl rfl) (fun pool' i task hsome hthread => ?_) hloop
      obtain rfl := Option.some.inj (hpool.symm.trans hsome)
      refine ⟨_, rfl, ?_⟩
      rw [List.getElem?_append_left (List.getElem?_eq_some_iff.mp hthread).1, hthread]
    · cases hnone
    · cases hsome
      refine ⟨hintact.quit, hnumber, hintact.finished, fun i hi => ?_, fun i hi => ?_, ?_⟩
      · exact hintact.created hlength false (by simpa using hi)
      · have hlast : pool.control.length + 1 ≤ i := by simpa using hi
        exact hintact.unborn_caller false (Nat.le_of_succ_le hlast)
      · rw [hplace, hrecord]
        refine ⟨hcallers, hnext, hphase, .inl ⟨howner, ?_⟩⟩
        rw [List.length_append, List.length_singleton]
        change _ = 3 * s.loopsCount.toNat + _
        omega
  · simp only [if_neg hlt]
    refine ⟨hsound.flagged_of_kept rfl rfl fun t loop' hloop => ?_, fun hnone => ?_,
      fun pool' hsome => ?_⟩
    · refine loopOf_kept (s := s) (.inl rfl) (fun pool' i task hsome hthread => ?_) hloop
      obtain rfl := Option.some.inj (hpool.symm.trans hsome)
      exact ⟨_, rfl, hthread⟩
    · cases hnone
    · cases hsome
      refine ⟨hintact.quit, hnumber, hintact.finished,
        fun i hi => hintact.workers_caller false rfl rfl hi,
        fun i hi => hintact.unborn_caller false hi, ?_⟩
      rw [hplace, hrecord]
      refine ⟨hcallers, hnext, hphase, .inr ⟨rfl, ?_, ?_⟩⟩
      · change pool.control.length + 1 = s.loopsCount.toNat
        omega
      · change _ = 3 * s.loopsCount.toNat + pool.control.length
        omega

theorem Sound.started_caller (hsound : Sound s h) {fails : Bool} (hplace : s.place = .starts)
    (hpool : s.threadPool = some pool) (howner : pool.owner ≠ .starts) :
    Sound { s with place := .runs } (record s (.caller fails) h) := by
  have hintact := hsound.intact pool hpool
  have hunderway := hintact.underway
  rw [hplace] at hunderway
  obtain ⟨hcallers, hnext, hphase, hsteps⟩ := hunderway
  refine ⟨hsound.flagged_of_place (by simp [hplace]), fun hnone => ?_, fun pool' hsome => ?_⟩
  · simp [hpool] at hnone
  · obtain rfl := Option.some.inj (hpool.symm.trans hsome)
    refine ⟨hintact.quit, hintact.threadNumber, hintact.finished,
      fun i hi => hintact.workers_caller fails rfl rfl hi,
      fun i hi => hintact.unborn_caller fails hi, ?_⟩
    rw [show (s.record (.caller fails) h).steps .caller = _ from record_steps ..]
    rcases hsteps with ⟨hstarts, -⟩ | ⟨hstarted, hlength, hsteps⟩
    · exact absurd hstarts howner
    · exact ⟨hcallers, hnext, hstarted, hlength, .inl ⟨hphase, hsteps⟩⟩

/-! ## The threads of the pool -/

theorem Underway.frame {place : Place} {steps : Nat} (hunderway : s.Underway pool steps place)
    (hcount : s'.loopsCount = s.loopsCount) (hphase : s'.phases .caller = s.phases .caller)
    (howner : pool'.owner = pool.owner) (hlength : pool'.control.length = pool.control.length)
    (hcallers : pool'.pool.callers = pool.pool.callers)
    (hnext : pool'.pool.next = pool.pool.next) : s'.Underway pool' steps place := by
  cases place with
  | returned => exact hunderway
  | _ =>
      simpa only [Underway, Adding, hcount, hphase, howner, hlength, hcallers, hnext]
        using hunderway

/-- When there are threads, all tasks have been added. -/
theorem Intact.added (hintact : Intact s h pool) (hpos : 0 < pool.control.length) :
    pool.pool.callers = [.idle] ∧ pool.pool.next + 1 = s.loopsCount.toNat := by
  have hunderway := hintact.underway
  cases hplace : s.place with
  | adds loop =>
      rw [hplace] at hunderway
      exact absurd hunderway.2.1 (Nat.ne_of_gt hpos)
  | starts =>
      rw [hplace] at hunderway
      exact ⟨hunderway.1, hunderway.2.1⟩
  | runs =>
      rw [hplace] at hunderway
      exact ⟨hunderway.1, hunderway.2.1⟩
  | returned =>
      rw [hplace] at hunderway
      exact hunderway.elim

/-- If there are not more threads than tasks and no task has been executed, there is a task in the
queue for a thread that has none. -/
theorem workQueue_ne_nil {p : ThreadPool} {order : ThreadPool.History}
    (hordered : ThreadPool.Ordered (p, order)) (hcallers : p.callers = [.idle])
    (hfinished : p.finished = []) (hle : p.threads.length ≤ p.next)
    (hidle : p.threads[i]? = some .idle) : p.workQueue ≠ [] := by
  intro hqueue
  have hcounted := hordered.counted.length_eq
  have hexecuted := hordered.executed.length_eq
  have hfifo := congrArg List.length hordered.fifo
  have hhands : p.inHands.length < p.threads.length :=
    List.length_filterMap_lt_length_iff_exists.mpr
      ⟨.idle, List.mem_of_getElem? hidle, rfl⟩
  have hunpushed : p.unpushed = [] := by
    rw [ThreadPool.unpushed, hcallers]
    rfl
  simp only [hunpushed, hqueue, hfinished, List.nil_append, List.append_nil,
    List.length_range] at hcounted hexecuted hfifo
  omega

theorem workerThread_tasks (pool : Lifetime) (i : Nat) {worker : Worker} (control : Control)
    (hrunning : ∀ task, worker ≠ .running task) :
    (pool.workerThread i worker control).pool.callers = pool.pool.callers ∧
      (pool.workerThread i worker control).pool.next = pool.pool.next ∧
      (pool.workerThread i worker control).pool.finished = pool.pool.finished := by
  cases control with
  | runsTask =>
      refine ⟨(ThreadPool.runTask_frame pool.pool i worker).2.1,
        ThreadPool.runTask_next pool.pool i worker, ?_⟩
      cases worker with
      | running task => exact absurd rfl (hrunning task)
      | idle =>
          rw [Lifetime.workerThread, ThreadPool.runTask]
          split <;> rfl
      | _ => rfl
  | _ => exact ⟨rfl, rfl, rfl⟩

/-- A thread that is not in `run` has steps to go. -/
theorem distance_ne_zero {control : Option Control} {worker : Worker} {phase : Phase}
    (hrunning : ∀ task, worker ≠ .running task) :
    distance control (some worker) phase ≠ some 0 := by
  cases worker with
  | running task => exact absurd rfl (hrunning task)
  | _ =>
      cases control with
      | none => simp [distance]
      | some control => cases control <;> cases phase <;> simp [distance]

/-- A thread that is to call `run` is in `runTask`. -/
theorem distance_calls {control : Option Control} {task k : Nat}
    (hdistance : distance control (some (.running task)) .calls = some k) :
    control = some .runsTask ∧ k = 1 := by
  cases control with
  | none => cases hdistance
  | some control =>
      cases control with
      | runsTask => exact ⟨rfl, (Option.some.inj hdistance).symm⟩
      | _ => cases hdistance

theorem distance_ended (control : Option Control) (worker : Option Worker) :
    distance control worker .ended = none := by
  unfold distance
  split <;> simp_all

theorem Sound.works (hsound : Sound s h) (hc : Lifetime.Consistent (pool, h.lifetime))
    (hpool : s.threadPool = some pool) (hloop : s.loopOf (.worker i) = none)
    (hok : pool.step (.pool (.worker i)) = .ok pool') :
    Sound { s with threadPool := some pool' } (record s (.worker i) h) := by
  have hintact := hsound.intact pool hpool
  obtain ⟨control, worker, hcontrol, -, hworker, rfl⟩ := Lifetime.step_worker_ok hok
  obtain ⟨hi, -⟩ := List.getElem?_eq_some_iff.mp hcontrol
  have hrunning : ∀ task, worker ≠ .running task := by
    rintro task rfl
    rw [loopOf_of_running hpool hworker] at hloop
    cases hloop
  obtain ⟨hcallers, hnext⟩ := hintact.added (Nat.zero_lt_of_lt hi)
  have hlength : pool.control.length = pool.pool.threads.length := hc.placed.length
  have hle : pool.control.length ≤ pool.threadNumber.toNat := hc.placed.length_le
  have hnumber := hintact.threadNumber
  have hqueue : worker = .idle → pool.pool.workQueue ≠ [] := by
    rintro rfl
    exact workQueue_ne_nil hc.ordered hcallers hintact.finished (by omega) hworker
  obtain ⟨hquit', howner', hnumber'⟩ := Lifetime.workerThread_frame pool i worker control
  have hlength' := Lifetime.workerThread_length pool i worker control
  obtain ⟨hcallers', hnext', hfinished'⟩ := workerThread_tasks pool i control hrunning
  refine ⟨hsound.flagged_of_kept rfl rfl fun t loop' hkept => ?_, fun hnone => ?_,
    fun pool' hsome => ?_⟩
  · refine loopOf_kept (s := s) (.inl rfl) (fun pool' j task hsome hthread => ?_) hkept
    obtain rfl := Option.some.inj (hpool.symm.trans hsome)
    have hij : j ≠ i := by
      rintro rfl
      rw [hworker] at hthread
      exact hrunning task (Option.some.inj hthread)
    exact ⟨_, rfl, by rw [(Lifetime.workerThread_of_ne pool worker control hij).2, hthread]⟩
  · cases hnone
  · cases hsome
    refine ⟨hquit'.trans hintact.quit, ?_, hfinished'.trans hintact.finished, fun j hj => ?_,
      fun j hj => ?_, ?_⟩
    · rw [hnumber']
      exact hnumber
    · rw [hlength'] at hj
      obtain ⟨k, hdistance, hsum⟩ := hintact.workers j hj
      by_cases hij : j = i
      · subst hij
        rw [hcontrol, hworker] at hdistance
        obtain ⟨k, rfl⟩ : ∃ k', k = k' + 1 := Nat.exists_eq_succ_of_ne_zero fun hzero =>
          distance_ne_zero hrunning (hzero ▸ hdistance)
        refine ⟨k, distance_workerThread hintact.quit hqueue hcontrol hworker hrunning hdistance,
          ?_⟩
        rw [show (s.record (.worker j) h).steps (.worker j) = _ from record_steps ..]
        change h.steps (.worker j) + 1 + k = 6
        omega
      · obtain ⟨hcontrol', hthread'⟩ := Lifetime.workerThread_of_ne pool worker control hij
        rw [record_steps_of_ne (by simpa [Event.thread] using hij), hcontrol', hthread']
        exact ⟨k, hdistance, hsum⟩
    · rw [hlength'] at hj
      rw [record_steps_of_ne (by
        intro heq
        cases heq
        exact absurd hi (Nat.not_lt.mpr hj))]
      exact hintact.unborn j hj
    · rw [record_steps_of_ne (by simp [Event.thread])]
      exact hintact.underway.frame rfl rfl howner' hlength' hcallers' hnext'

/-! ## The beginning of `run` -/

theorem loopOf_of_same (hpool : s'.threadPool = s.threadPool) (hplace : s'.place = s.place)
    (t : Thread) : s'.loopOf t = s.loopOf t := by
  cases t with
  | caller => rw [loopOf, loopOf, hplace]
  | worker i => simp only [loopOf, hpool]

/-- A thread that calls `run` finds the flag clear. -/
theorem Serving.clear (hserving : Serving s h) (hsound : Sound s h)
    (hloop : s.loopOf t = some loop) (hphase : s.phases t = .calls) :
    s.loopRunning loop = false := by
  by_contra hflag
  obtain ⟨t', hloop', hinside⟩ := hsound.flagged loop (Bool.not_eq_false _ ▸ hflag)
  rw [loopOf_injective hserving.consistent hloop' hloop, hphase] at hinside
  cases hinside

theorem Sound.enters (hserving : Serving s h) (hsound : Sound s h) (hloop : s.loopOf t = some loop)
    (hphase : s.phases t = .calls) :
    Sound { s with
        loopRunning := Function.update s.loopRunning loop true
        phases := Function.update s.phases t .inside } (record s (.enter t) h) := by
  have hsteps : (s.record (.enter t) h).steps t = h.steps t + 1 := record_steps s (.enter t) h
  have hother : ∀ t', t' ≠ t → (s.record (.enter t) h).steps t' = h.steps t' :=
    fun t' hne => record_steps_of_ne hne s h
  have hself : Function.update s.phases t .inside t = .inside := Function.update_self _ _ _
  have hphases : ∀ t', t' ≠ t → Function.update s.phases t .inside t' = s.phases t' :=
    fun t' hne => Function.update_of_ne hne _ _
  refine ⟨fun loop' hflag => ?_, fun hnone => ?_, fun pool hpool => ?_⟩
  · by_cases heq : loop' = loop
    · subst heq
      exact ⟨t, (loopOf_of_same rfl rfl t).trans hloop, hself⟩
    · change Function.update s.loopRunning loop true loop' = true at hflag
      rw [Function.update_of_ne heq] at hflag
      obtain ⟨t', hloop', hinside⟩ := hsound.flagged loop' hflag
      have hne : t' ≠ t := by
        rintro rfl
        rw [hphase] at hinside
        cases hinside
      exact ⟨t', (loopOf_of_same rfl rfl t').trans hloop', (hphases t' hne).trans hinside⟩
  · obtain ⟨halone, hworkers⟩ := hsound.alone hnone
    cases t with
    | worker i =>
        obtain ⟨pool, task, hpool, -, -⟩ := loopOf_worker hloop
        simp [hpool] at hnone
    | caller =>
        refine ⟨?_, fun i => (hother _ (by simp)).trans (hworkers i)⟩
        rw [(loopOf_caller hloop).1] at halone ⊢
        obtain ⟨hcount, ⟨-, hone⟩ | ⟨hinside, -⟩⟩ := halone
        · exact ⟨hcount, .inr ⟨hself, by rw [hsteps, hone]⟩⟩
        · rw [hphase] at hinside
          cases hinside
  · have hintact := hsound.intact pool hpool
    cases t with
    | caller =>
        refine ⟨hintact.quit, hintact.threadNumber, hintact.finished, fun i hi => ?_,
          fun i hi => ?_, ?_⟩
        · dsimp only
          rw [hphases _ (by simp), hother _ (by simp)]
          exact hintact.workers i hi
        · dsimp only
          rw [hphases _ (by simp), hother _ (by simp)]
          exact hintact.unborn i hi
        · have hunderway := hintact.underway
          rw [(loopOf_caller hloop).1] at hunderway ⊢
          obtain ⟨hcallers, hnext, howner, hlength, ⟨-, hcount⟩ | ⟨hinside, -⟩⟩ := hunderway
          · refine ⟨hcallers, hnext, howner, hlength, .inr ⟨hself, ?_⟩⟩
            rw [hsteps, hcount]
          · rw [hphase] at hinside
            cases hinside
    | worker i =>
        obtain ⟨pool', task, hpool', hthread, -⟩ := loopOf_worker hloop
        obtain rfl := Option.some.inj (hpool.symm.trans hpool')
        refine ⟨hintact.quit, hintact.threadNumber, hintact.finished, fun j hj => ?_,
          fun j hj => ?_, ?_⟩
        · dsimp only
          obtain ⟨k, hdistance, hsum⟩ := hintact.workers j hj
          by_cases hij : j = i
          · subst hij
            rw [hthread, hphase] at hdistance
            rw [hself, hsteps, hthread]
            obtain ⟨hcontrol, rfl⟩ := distance_calls hdistance
            exact ⟨0, by rw [hcontrol]; rfl, by omega⟩
          · rw [hphases _ (by simpa using hij), hother _ (by simpa using hij)]
            exact ⟨k, hdistance, hsum⟩
        · dsimp only
          have hne : Thread.worker j ≠ .worker i := by
            rintro ⟨⟩
            have hlength : pool.control.length = pool.pool.threads.length :=
              (hserving.consistent pool hpool).placed.length
            have hlt := (List.getElem?_eq_some_iff.mp hthread).1
            omega
          rw [hphases _ hne, hother _ hne]
          exact hintact.unborn j hj
        · rw [hother _ (by simp)]
          exact hintact.underway.frame rfl (hphases .caller (by simp)) rfl rfl rfl rfl

/-! ## All runs -/

/-- Nothing but an exception is to come for a thread that runs a loop. -/
theorem Settled.inside (hsettled : s.Settled) (hloop : s.loopOf t = some loop)
    (hphase : s.phases t = .calls ∨ s.phases t = .inside) : s.Runs t loop := by
  refine ⟨hloop, hphase.resolve_left fun hcalls => ?_⟩
  have hok : ∃ s', s.step (.enter t) = .ok s' := by
    simp only [StartLoop.step, enter, hloop, hcalls, if_true]
    split <;> exact ⟨_, rfl⟩
  obtain ⟨s', hok⟩ := hok
  obtain ⟨t', heq⟩ := hsettled _ _ hok
  cases heq

/-- The caller goes on as long as it is in `startLoop`. -/
theorem Sound.caller_goes_on (hsound : Sound s h) (hruns : s.place ≠ .runs)
    (hreturned : s.place ≠ .returned) : ∃ s', s.step (.caller false) = .ok s' := by
  cases hplace : s.place with
  | runs => exact absurd hplace hruns
  | returned => exact absurd hplace hreturned
  | adds loop =>
      cases hpool : s.threadPool with
      | none =>
          refine ⟨{ s with place := if s.loopsCount = 0 then .returned else .runs }, ?_⟩
          simp only [StartLoop.step, startLoop, hplace, hpool]
      | some pool =>
          have hunderway := (hsound.intact pool hpool).underway
          rw [hplace] at hunderway
          obtain ⟨howner, -, -, -, hadding⟩ := hunderway
          by_cases hlt : loop < s.loopsCount.toNat
          · obtain ⟨p', hstep, -⟩ := hadding.step hlt
            have hok : pool.step (.pool (.caller 0)) = .ok { pool with pool := p' } := by
              rw [Lifetime.step, if_pos (by simp [Lifetime.Enabled, howner])]
              simp only [Lifetime.move, hstep]
            obtain ⟨s', hadd⟩ : ∃ s', s.add pool loop = .ok s' := by
              rw [add, hok]
              exact ⟨_, rfl⟩
            refine ⟨s', ?_⟩
            simp only [StartLoop.step, startLoop, hplace, hpool, if_pos hlt, hadd]
          · refine ⟨{ s with place := .starts }, ?_⟩
            simp only [StartLoop.step, startLoop, hplace, hpool, if_neg hlt]
  | starts =>
      cases hpool : s.threadPool with
      | none =>
          have halone := (hsound.alone hpool).1
          rw [hplace] at halone
          exact halone.elim
      | some pool =>
          by_cases howner : pool.owner = .starts
          · have hok : pool.step (.owner false) = .ok (pool.own false pool.owner) := by
              rw [Lifetime.step, if_pos (by simp [Lifetime.Enabled, howner]), Lifetime.move]
            obtain ⟨s', hstart⟩ : ∃ s', s.start pool false = .ok s' := by
              rw [start, if_pos howner, hok]
              exact ⟨_, rfl⟩
            refine ⟨s', ?_⟩
            simp only [StartLoop.step, startLoop, hplace, hpool, hstart]
          · refine ⟨{ s with place := .runs }, ?_⟩
            simp only [StartLoop.step, startLoop, start, hplace, hpool, if_neg howner]

/-- In the end a thread of the pool runs the loop of its task. -/
theorem Settled.worker_runs (hsettled : s.Settled) (hintact : Intact s h pool)
    (hpool : s.threadPool = some pool) (hi : i < pool.control.length)
    (hi' : i < pool.pool.threads.length) :
    ∃ task, pool.pool.threads[i]? = some (.running task) ∧ s.Runs (.worker i) (task + 1) := by
  obtain ⟨k, hdistance, -⟩ := hintact.workers i hi
  by_cases hrunning : ∃ task, pool.pool.threads[i]? = some (.running task)
  · obtain ⟨task, hthread⟩ := hrunning
    refine ⟨task, hthread, hsettled.inside (loopOf_of_running hpool hthread) ?_⟩
    cases hphase : s.phases (.worker i) with
    | ended =>
        rw [hphase, distance_ended] at hdistance
        cases hdistance
    | _ => simp
  · have hloop : s.loopOf (.worker i) = none := by
      by_contra hsome
      obtain ⟨loop, hloop⟩ := Option.ne_none_iff_exists'.mp hsome
      obtain ⟨pool', task, hpool', hthread, -⟩ := loopOf_worker hloop
      obtain rfl := Option.some.inj (hpool.symm.trans hpool')
      exact hrunning ⟨task, hthread⟩
    have hended : pool.control[i] ≠ .ended := by
      intro hended
      rw [List.getElem?_eq_getElem hi, hended] at hdistance
      cases hdistance
    have hok : pool.step (.pool (.worker i)) =
        .ok (pool.workerThread i pool.pool.threads[i] pool.control[i]) := by
      rw [Lifetime.step, if_pos ⟨_, List.getElem?_eq_getElem hi, hended⟩, Lifetime.move,
        List.getElem?_eq_getElem hi, List.getElem?_eq_getElem hi']
    obtain ⟨s', hwork⟩ : ∃ s', s.step (.worker i) = .ok s' := by
      simp only [StartLoop.step, work, hpool, hloop, if_true, hok]
      exact ⟨_, rfl⟩
    obtain ⟨t, heq⟩ := hsettled _ _ hwork
    cases heq

/-- As long as nothing has failed, `run` has not been left by a thread of the pool. -/
theorem Sound.not_ended (hsound : Sound s h) (hpool : s.threadPool = some pool)
    (hi : i < pool.control.length) : s.phases (.worker i) ≠ .ended := by
  intro hphase
  obtain ⟨k, hdistance, -⟩ := (hsound.intact pool hpool).workers i hi
  rw [hphase, distance_ended] at hdistance
  cases hdistance

theorem Serving.step {e : Event} (hserving : Serving s h) (hok : s.step e = .ok s') :
    Serving s' (s.record e h) := by
  have hstep := step_ok hok
  refine ⟨fun pool hpool => hserving.stepped_consistent hstep hpool, fun hfailed => ?_⟩
  obtain ⟨hfailed, hfails⟩ : h.failed = false ∧ e.fails = false := by
    simpa only [record, Bool.or_eq_false_iff] using hfailed
  have hsound := hserving.sound hfailed
  cases hstep with
  | alone fails loop hplace hpool => exact hsound.alone_caller hplace hpool
  | adds fails loop pool pool' hplace hpool hlt hstep =>
      exact hsound.adds_caller hplace hpool hlt hstep
  | added fails loop pool hplace hpool hle => exact hsound.added_caller hplace hpool hle
  | starts fails pool pool' hplace hpool howner hstep =>
      obtain rfl : fails = false := hfails
      exact hsound.starts_caller (hserving.consistent pool hpool) hplace hpool howner hstep
  | started fails pool hplace hpool howner => exact hsound.started_caller hplace hpool howner
  | works i pool pool' hpool hloop hstep =>
      exact hsound.works (hserving.consistent pool hpool) hpool hloop hstep
  | executed i pool pool' hpool hphase hstep =>
      obtain ⟨control, worker, hcontrol, -⟩ := ThreadPool.Lifetime.step_worker_ok hstep
      exact absurd hphase (hsound.not_ended hpool (List.getElem?_eq_some_iff.mp hcontrol).1)
  | refused t loop hloop hphase hflag =>
      rw [hserving.clear hsound hloop hphase] at hflag
      cases hflag
  | enters t loop hloop hphase hflag => exact hsound.enters hserving hloop hphase
  | throws t loop hloop hphase => cases hfails

theorem new_serving (loopsCount : UInt32) : Serving (new loopsCount) .empty := by
  refine ⟨fun pool hpool => ?_, fun _ => ⟨fun loop hflag => ?_, fun hnone => ?_,
    fun pool hpool => ?_⟩⟩
  · rw [new] at hpool
    split at hpool
    case isTrue =>
      cases hpool
      exact Lifetime.init_consistent _ _
    case isFalse => cases hpool
  · cases hflag
  · rw [new] at hnone
    split at hnone
    case isTrue => cases hnone
    case isFalse hle =>
      have hcount : loopsCount.toNat ≤ 1 :=
        Nat.not_lt.mp fun hlt => hle (UInt32.lt_iff_toNat_lt.mpr hlt)
      exact ⟨⟨hcount, rfl, rfl⟩, fun _ => rfl⟩
  · rw [new] at hpool
    split at hpool
    case isFalse => cases hpool
    case isTrue hlt =>
      cases hpool
      have hcount : 1 < loopsCount.toNat := UInt32.lt_iff_toNat_lt.mp hlt
      refine ⟨rfl, ?_, rfl, fun i hi => ?_, fun i _ => ⟨rfl, rfl⟩, rfl, rfl, rfl, ?_, ?_⟩
      · have hle : (1 : UInt32) ≤ loopsCount := UInt32.le_iff_toNat_le.mpr hcount.le
        change (loopsCount - 1).toNat + 1 = loopsCount.toNat
        rw [UInt32.toNat_sub_of_le _ _ hle]
        exact Nat.sub_add_cancel hcount.le
      · cases hi
      · exact hcount.le
      · exact .inl ⟨rfl, rfl, rfl⟩

/-- When as many threads have a task as there are tasks, every task is in the hands of one. -/
theorem mem_inHands {p : ThreadPool} {order : ThreadPool.History}
    (hordered : ThreadPool.Ordered (p, order)) (hcallers : p.callers = [.idle])
    (hfinished : p.finished = []) (hlength : p.inHands.length = p.next) {task : Nat}
    (hlt : task < p.next) : task ∈ p.inHands := by
  have hunpushed : p.unpushed = [] := by
    rw [ThreadPool.unpushed, hcallers]
    rfl
  have honce := hordered.linearizable.once
  simp only [hunpushed, hfinished, List.nil_append, List.append_nil] at honce
  have hqueue : p.workQueue = [] := by
    have htotal := honce.length_eq
    rw [List.length_append, List.length_range, hlength] at htotal
    exact List.length_eq_zero_iff.mp (by omega)
  rw [hqueue, List.nil_append] at honce
  exact honce.symm.subset (List.mem_range.mpr hlt)

theorem Serving.all (hserving : Serving s h) (hsound : Sound s h) (hsettled : s.Settled)
    (hlt : loop < s.loopsCount.toNat) : ∃ t, s.Runs t loop := by
  have hplace : s.place = .runs ∨ s.place = .returned := by
    by_contra hneither
    rw [not_or] at hneither
    obtain ⟨s', hok⟩ := hsound.caller_goes_on hneither.1 hneither.2
    obtain ⟨t, heq⟩ := hsettled _ _ hok
    cases heq
  cases hpool : s.threadPool with
  | none =>
      have halone := (hsound.alone hpool).1
      rcases hplace with hplace | hplace
      · rw [hplace] at halone
        obtain ⟨hone, hphase⟩ := halone
        obtain rfl : loop = 0 := by omega
        exact ⟨.caller, hsettled.inside (by rw [loopOf, if_pos hplace])
          (hphase.imp And.left And.left)⟩
      · rw [hplace] at halone
        have hzero := halone.1
        omega
  | some pool =>
      have hintact := hsound.intact pool hpool
      have hunderway := hintact.underway
      rcases hplace with hplace | hplace
      · rw [hplace] at hunderway
        obtain ⟨hcallers, hnext, -, hcontrol, hphase⟩ := hunderway
        have hc := hserving.consistent pool hpool
        have hlength : pool.control.length = pool.pool.threads.length := hc.placed.length
        cases loop with
        | zero =>
            exact ⟨.caller, hsettled.inside (by rw [loopOf, if_pos hplace])
              (hphase.imp And.left And.left)⟩
        | succ task =>
            have hruns := fun i (hi : i < pool.pool.threads.length) =>
              hsettled.worker_runs hintact hpool (hlength ▸ hi) hi
            have hhands : pool.pool.inHands.length = pool.pool.threads.length := by
              refine Nat.le_antisymm (List.length_filterMap_le ..) (Nat.not_lt.mp fun hlt => ?_)
              obtain ⟨worker, hworker, hnone⟩ := List.length_filterMap_lt_length_iff_exists.mp hlt
              obtain ⟨i, hi⟩ := List.mem_iff_getElem?.mp hworker
              obtain ⟨task, hthread, -⟩ := hruns i (List.getElem?_eq_some_iff.mp hi).1
              rw [hi] at hthread
              rw [Option.some.inj hthread] at hnone
              cases hnone
            have hordered : ThreadPool.Ordered (pool.pool, h.lifetime.order) := hc.ordered
            have hmem := mem_inHands hordered hcallers hintact.finished (by omega)
              (show task < pool.pool.next by omega)
            obtain ⟨worker, hworker, htask⟩ := List.mem_filterMap.mp hmem
            obtain ⟨i, hi⟩ := List.mem_iff_getElem?.mp hworker
            obtain ⟨task', hthread, hrun⟩ := hruns i (List.getElem?_eq_some_iff.mp hi).1
            rw [hi] at hthread
            rw [Option.some.inj hthread] at htask
            cases htask
            exact ⟨.worker i, hrun⟩
      · rw [hplace] at hunderway
        exact hunderway.elim

theorem Sound.prompt (hsound : Sound s h) (i : Nat) : h.steps (.worker i) ≤ 6 := by
  cases hpool : s.threadPool with
  | none =>
      rw [(hsound.alone hpool).2 i]
      exact Nat.zero_le _
  | some pool =>
      have hintact := hsound.intact pool hpool
      rcases Nat.lt_or_ge i pool.control.length with hi | hi
      · obtain ⟨k, -, hsum⟩ := hintact.workers i hi
        omega
      · rw [(hintact.unborn i hi).2]
        exact Nat.zero_le _

theorem Serving.bounded (hserving : Serving s h) (hsound : Sound s h) :
    h.steps .caller ≤ 4 * s.loopsCount.toNat + 1 := by
  cases hpool : s.threadPool with
  | none =>
      have halone := (hsound.alone hpool).1
      cases hplace : s.place with
      | adds loop =>
          rw [hplace] at halone
          obtain ⟨-, -, hzero⟩ := halone
          omega
      | starts =>
          rw [hplace] at halone
          exact halone.elim
      | runs =>
          rw [hplace] at halone
          obtain ⟨hone, ⟨-, hsteps⟩ | ⟨-, hsteps⟩⟩ := halone <;> omega
      | returned =>
          rw [hplace] at halone
          obtain ⟨-, hsteps⟩ := halone
          omega
  | some pool =>
      have hintact := hsound.intact pool hpool
      have hunderway := hintact.underway
      have hnumber := hintact.threadNumber
      have hle : pool.control.length ≤ pool.threadNumber.toNat :=
        (hserving.consistent pool hpool).placed.length_le
      cases hplace : s.place with
      | adds loop =>
          rw [hplace] at hunderway
          obtain ⟨-, -, -, hloop, hadding⟩ := hunderway
          rcases hadding with ⟨-, -, hsteps⟩ | ⟨-, -, -, -, hsteps⟩ | ⟨-, -, -, -, hsteps⟩ <;> omega
      | starts =>
          rw [hplace] at hunderway
          obtain ⟨-, -, -, ⟨-, hsteps⟩ | ⟨-, -, hsteps⟩⟩ := hunderway <;> omega
      | runs =>
          rw [hplace] at hunderway
          obtain ⟨-, -, -, hlength, ⟨-, hsteps⟩ | ⟨-, hsteps⟩⟩ := hunderway <;> omega
      | returned =>
          rw [hplace] at hunderway
          exact hunderway.elim

theorem Serving.served (hserving : Serving s h) : Served (s, h) where
  exclusive _ _ _ ht ht' := loopOf_injective hserving.consistent ht.1 ht'.1
  prompt hfailed := (hserving.sound hfailed).prompt
  bounded hfailed := hserving.bounded (hserving.sound hfailed)
  all hfailed hsettled _ hlt := hserving.all (hserving.sound hfailed) hsettled hlt

/-- In every run of `startLoop` no two threads run the same loop, and as long as all threads can
be created and no exception leaves a loop, every thread is in its loop after a bounded number of
steps, and when no step is left every loop is run. -/
theorem startLoop_served (loopsCount : UInt32) (events : List Event) :
    Run.Always (Run.recorded step record) (Run.After (Run.recorded step record) Served)
      (new loopsCount, .empty) events := by
  refine (Run.always_of_invariant (J := fun s => Serving s.1 s.2) ?_ (new_serving loopsCount)
    events).mono fun s e hafter s' hok => (hafter s' hok).served
  rintro ⟨s, h⟩ e ⟨s', h'⟩ hserving hok
  obtain ⟨hstep, hrecord⟩ := Run.recorded_ok hok
  simp only at hstep hrecord
  subst hrecord
  exact hserving.step hstep

end StartLoop

end Netpp
