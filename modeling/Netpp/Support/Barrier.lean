import Netpp.Support.ThreadPool

/-!
# Waiting for the thread pool

`Counting` and `Accounted` are kept by the steps of the callers, of the workers and
of the waiter. A task that was added is queued, in the hands of a worker or
finished; when `taskCount` is zero it can only be executed or finished, and then
its worker is counted in `m_activeThreads` until it is finished.
-/

namespace Netpp

namespace ThreadPool

variable {p p' : ThreadPool} {i : Nat} {caller : Caller} {worker : Worker}

/-! ## The counters -/

/-- The tasks that the next step of a caller counts. -/
def Caller.counting : Caller → Nat
  | .idle => 1
  | _ => 0

/-- The tasks that the next step of a worker takes off `taskCount`. -/
def Worker.discounting : Worker → Nat
  | .entered _ => 1
  | _ => 0

theorem counted_addTask (hcaller : p.callers[i]? = some caller) :
    (p.addTask i caller).counted = p.counted + caller.counting := by
  cases caller with
  | idle =>
      have hcount := Threads.countP_set_add Caller.counts hcaller (.counted p.next)
      simp only [Caller.counts, Bool.toNat_true, Bool.toNat_false] at hcount
      simp only [addTask, counted, Caller.counting]
      omega
  | counted task =>
      have hcount := Threads.countP_set_add Caller.counts hcaller (.pushed task)
      simp only [Caller.counts, Bool.toNat_true, Bool.toNat_false] at hcount
      simp only [addTask, counted, Caller.counting, List.length_append, List.length_singleton]
      omega
  | pushed task =>
      have hcount := Threads.countP_set_add Caller.counts hcaller .idle
      simp only [Caller.counts, Bool.toNat_false] at hcount
      simp only [addTask, counted, Caller.counting]
      omega

theorem Counting.addTask (h : p.Counting) (hcaller : p.callers[i]? = some caller)
    (hfits : caller = .idle → p.counted + 1 < 2 ^ 32) : (p.addTask i caller).Counting := by
  have hcounted := counted_addTask hcaller
  have hthreads : (p.addTask i caller).threads = p.threads := by cases caller <;> rfl
  have hactive : (p.addTask i caller).activeThreads = p.activeThreads := by cases caller <;> rfl
  refine ⟨?_, ?_, by rw [hactive, hthreads, h.activeThreads], by rw [hthreads]; exact h.threads_lt⟩
  · rw [hcounted]
    cases caller with
    | idle =>
        rw [Caller.counting, ofNat_succ, ← h.taskCount]
        rfl
    | counted task => exact h.taskCount
    | pushed task => exact h.taskCount
  · rw [hcounted]
    cases caller with
    | idle => exact hfits rfl
    | counted task => exact h.counted_lt
    | pushed task => exact h.counted_lt

/-- The worker that takes a task off `taskCount`. -/
theorem counted_runTask (hworker : p.threads[i]? = some worker) :
    (p.runTask i worker).counted + worker.discounting = p.counted := by
  have hcount := Threads.countP_set_add Worker.counts hworker
  cases worker with
  | idle =>
      cases hqueue : p.workQueue with
      | nil => simp [runTask, hqueue, Worker.discounting]
      | cons task workQueue =>
          have hcount := hcount (.popped task)
          simp only [Worker.counts, Bool.toNat_true, Bool.toNat_false] at hcount
          simp only [runTask, counted, hqueue, Worker.discounting, List.length_cons]
          omega
  | popped task =>
      have hcount := hcount (.entered task)
      simp only [Worker.counts, Bool.toNat_true] at hcount
      simp only [runTask, counted, Worker.discounting]
      omega
  | entered task =>
      have hcount := hcount (.running task)
      simp only [Worker.counts, Bool.toNat_true, Bool.toNat_false] at hcount
      simp only [runTask, counted, Worker.discounting]
      omega
  | running task =>
      have hcount := hcount .ran
      simp only [Worker.counts, Bool.toNat_false] at hcount
      simp only [runTask, counted, Worker.discounting]
      omega
  | ran =>
      have hcount := hcount .idle
      simp only [Worker.counts, Bool.toNat_false] at hcount
      simp only [runTask, counted, Worker.discounting]
      omega

/-- A worker in one of these phases is counted. -/
theorem countP_pos {q : Worker → Bool} (hworker : p.threads[i]? = some worker)
    (hq : q worker = true) : 0 < p.threads.countP q :=
  List.countP_pos_iff.mpr ⟨worker, List.mem_of_getElem? hworker, hq⟩

theorem Counting.runTask_taskCount (h : p.Counting) (hworker : p.threads[i]? = some worker) :
    (p.runTask i worker).taskCount = UInt32.ofNat (p.runTask i worker).counted := by
  have hcounted := counted_runTask hworker
  cases worker with
  | entered task =>
      rw [Worker.discounting] at hcounted
      rw [runTask, h.taskCount, ← hcounted, ofNat_succ_sub]
      rfl
  | idle =>
      simp only [Worker.discounting, Nat.add_zero] at hcounted
      rw [hcounted, ← h.taskCount, runTask]
      split <;> rfl
  | _ =>
      simp only [Worker.discounting, Nat.add_zero] at hcounted
      rw [hcounted, ← h.taskCount]
      rfl

theorem Counting.runTask_activeThreads (h : p.Counting) (hworker : p.threads[i]? = some worker) :
    (p.runTask i worker).activeThreads =
      UInt32.ofNat ((p.runTask i worker).threads.countP Worker.active) := by
  have hcount := Threads.countP_set_add Worker.active hworker
  cases worker with
  | idle =>
      cases hqueue : p.workQueue with
      | nil => simp only [runTask, hqueue, h.activeThreads]
      | cons task workQueue =>
          simp only [runTask, hqueue, h.activeThreads]
          rw [← Nat.add_right_cancel (hcount (.popped task))]
  | popped task =>
      have hcount := hcount (.entered task)
      simp only [Worker.active, Bool.toNat_true, Bool.toNat_false, Nat.add_zero] at hcount
      simp only [runTask]
      rw [hcount, ofNat_succ, h.activeThreads]
  | entered task =>
      simp only [runTask, h.activeThreads]
      rw [← Nat.add_right_cancel (hcount (.running task))]
  | running task =>
      simp only [runTask, h.activeThreads]
      rw [← Nat.add_right_cancel (hcount .ran)]
  | ran =>
      have hcount := hcount .idle
      simp only [Worker.active, Bool.toNat_true, Bool.toNat_false, Nat.add_zero] at hcount
      simp only [runTask]
      rw [h.activeThreads, ← hcount, ofNat_succ_sub]

theorem runTask_threads_length (p : ThreadPool) (i : Nat) (worker : Worker) :
    (p.runTask i worker).threads.length = p.threads.length := by
  cases worker with
  | idle =>
      rw [runTask]
      split
      · rfl
      · exact List.length_set
  | _ => exact List.length_set

theorem Counting.runTask (h : p.Counting) (hworker : p.threads[i]? = some worker) :
    (p.runTask i worker).Counting where
  taskCount := h.runTask_taskCount hworker
  counted_lt := by
    have hcounted := counted_runTask hworker
    have hlt := h.counted_lt
    omega
  activeThreads := h.runTask_activeThreads hworker
  threads_lt := by
    rw [runTask_threads_length]
    exact h.threads_lt

theorem Counting.waitForDone (h : p.Counting) (waiter : Waiter) :
    (p.waitForDone waiter).Counting := by
  have hother (waiter' : Waiter) : ({ p with waiter := waiter' } : ThreadPool).Counting :=
    ⟨h.taskCount, h.counted_lt, h.activeThreads, h.threads_lt⟩
  cases waiter with
  | outside => exact hother _
  | returned before => exact hother _
  | loadsTaskCount before =>
      rw [ThreadPool.waitForDone]
      split
      · exact h
      · exact hother _
  | loadsActiveThreads before =>
      rw [ThreadPool.waitForDone]
      split
      · exact hother _
      · exact hother _

/-! ## The tasks -/

/-- The task is finished, or it will be. -/
def Kept (p : ThreadPool) (task : Nat) : Prop := task ∈ p.finished ∨ p.Unfinished task

theorem Kept.addTask {task : Nat} (h : p.Kept task) (i : Nat) (caller : Caller) :
    (p.addTask i caller).Kept task := by
  cases caller with
  | counted t =>
      rcases h with hfinished | hqueued | hworker
      · exact .inl hfinished
      · exact .inr (.inl (List.mem_append_left _ hqueued))
      · exact .inr (.inr hworker)
  | _ => exact h

/-- A worker keeps the tasks of the others, and its own one until it is finished. -/
theorem Kept.runTask {task : Nat} (h : p.Kept task) (hworker : p.threads[i]? = some worker) :
    (p.runTask i worker).Kept task := by
  have hothers (next : Worker) :
      (∃ other ∈ p.threads, other.task = some task) → worker.task ≠ some task →
        ∃ other ∈ p.threads.set i next, other.task = some task := by
    rintro ⟨other, hmem, htask⟩ hne
    have hother : other ≠ worker := by
      rintro rfl
      exact hne htask
    exact ⟨other, Threads.mem_set_of_ne hworker hmem hother next, htask⟩
  have hself (next : Worker) (htask : next.task = some task) :
      ∃ other ∈ p.threads.set i next, other.task = some task :=
    ⟨next, Threads.mem_set_self hworker next, htask⟩
  rcases h with hfinished | hqueued | hheld
  · left
    cases worker with
    | idle =>
        rw [ThreadPool.runTask]
        split <;> exact hfinished
    | running t => exact List.mem_append_left _ hfinished
    | _ => exact hfinished
  · right
    cases worker with
    | idle =>
        cases hqueue : p.workQueue with
        | nil => simp [hqueue] at hqueued
        | cons t workQueue =>
            simp only [ThreadPool.runTask, hqueue]
            rw [hqueue] at hqueued
            rcases List.mem_cons.mp hqueued with rfl | hrest
            · exact .inr (hself _ rfl)
            · exact .inl hrest
    | _ => exact .inl hqueued
  · by_cases hmine : worker.task = some task
    · cases worker with
      | idle => cases hmine
      | ran => cases hmine
      | popped t => exact .inr (.inr (hself _ hmine))
      | entered t => exact .inr (.inr (hself _ hmine))
      | running t =>
          cases hmine
          exact .inl (List.mem_append_right _ (List.mem_singleton_self _))
    · right
      cases worker with
      | idle =>
          cases hqueue : p.workQueue with
          | nil =>
              simp only [ThreadPool.runTask, hqueue]
              exact .inr hheld
          | cons t workQueue =>
              simp only [ThreadPool.runTask, hqueue]
              exact .inr (hothers _ hheld hmine)
      | _ => exact .inr (hothers _ hheld hmine)

/-- What the waiter has seen stays true while tasks are added and finished. -/
theorem Seen.mono {waiter : Waiter} (h : p.Seen waiter) (hadded : p.added ⊆ p'.added)
    (hfinished : p.finished ⊆ p'.finished)
    (hrunning : ∀ task, .running task ∈ p.threads →
      task ∈ p'.finished ∨ .running task ∈ p'.threads) : p'.Seen waiter := by
  cases waiter with
  | outside => trivial
  | loadsTaskCount before => exact fun task hmem => hadded (h task hmem)
  | loadsActiveThreads before =>
      intro task hmem
      obtain ⟨htask, hdone | hrun⟩ := h task hmem
      · exact ⟨hadded htask, .inl (hfinished hdone)⟩
      · exact ⟨hadded htask, hrunning task hrun⟩
  | returned before => exact fun task hmem => hfinished (h task hmem)

theorem Accounted.addTask (h : p.Accounted) (hcaller : p.callers[i]? = some caller) :
    (p.addTask i caller).Accounted := by
  refine ⟨?_, ?_, ?_⟩
  · intro task hmem
    have hkept : p.Kept task := by
      cases caller with
      | pushed t =>
          rcases List.mem_append.mp hmem with hold | hnew
          · exact h.added task hold
          · cases List.mem_singleton.mp hnew
            exact h.pushed task (List.mem_of_getElem? hcaller)
      | _ => exact h.added task hmem
    exact hkept.addTask i caller
  · intro task hmem
    cases caller with
    | idle =>
        rcases List.mem_or_eq_of_mem_set hmem with hold | hnew
        · exact Kept.addTask (h.pushed task hold) i _
        · cases hnew
    | counted t =>
        rcases List.mem_or_eq_of_mem_set hmem with hold | hnew
        · exact Kept.addTask (h.pushed task hold) i _
        · cases hnew
          exact .inr (.inl (List.mem_append_right _ (List.mem_singleton_self _)))
    | pushed t =>
        rcases List.mem_or_eq_of_mem_set hmem with hold | hnew
        · exact Kept.addTask (h.pushed task hold) i _
        · cases hnew
  · have hwaiter : (p.addTask i caller).waiter = p.waiter := by cases caller <;> rfl
    have hthreads : (p.addTask i caller).threads = p.threads := by cases caller <;> rfl
    have hfinished : (p.addTask i caller).finished = p.finished := by cases caller <;> rfl
    have hadded : p.added ⊆ (p.addTask i caller).added := by
      cases caller with
      | pushed task => exact List.subset_append_left _ _
      | _ => exact List.Subset.refl _
    rw [hwaiter]
    refine h.seen.mono hadded ?_ ?_
    · rw [hfinished]
      exact List.Subset.refl _
    · rw [hthreads]
      exact fun task hrun => .inr hrun

/-- What a step of a worker leaves alone. -/
theorem runTask_frame (p : ThreadPool) (i : Nat) (worker : Worker) :
    (p.runTask i worker).added = p.added ∧ (p.runTask i worker).callers = p.callers ∧
      (p.runTask i worker).waiter = p.waiter := by
  cases worker with
  | idle =>
      rw [runTask]
      split <;> exact ⟨rfl, rfl, rfl⟩
  | _ => exact ⟨rfl, rfl, rfl⟩

theorem Accounted.runTask (h : p.Accounted) (hworker : p.threads[i]? = some worker) :
    (p.runTask i worker).Accounted := by
  obtain ⟨hadded, hcallers, hwaiter⟩ := runTask_frame p i worker
  refine ⟨?_, ?_, ?_⟩
  · rw [hadded]
    exact fun task hmem => Kept.runTask (h.added task hmem) hworker
  · rw [hcallers]
    exact fun task hmem => Kept.runTask (h.pushed task hmem) hworker
  · rw [hwaiter]
    refine h.seen.mono ?_ ?_ ?_
    · rw [hadded]
      exact List.Subset.refl _
    · cases worker with
      | idle =>
          rw [ThreadPool.runTask]
          split <;> exact List.Subset.refl _
      | running task => exact List.subset_append_left _ _
      | _ => exact List.Subset.refl _
    · intro task hrun
      have hothers (next : Worker) (hne : .running task ≠ worker) :
          .running task ∈ p.threads.set i next :=
        Threads.mem_set_of_ne hworker hrun hne next
      cases worker with
      | idle =>
          rw [ThreadPool.runTask]
          split
          · exact .inr hrun
          · exact .inr (hothers _ (by simp))
      | popped t => exact .inr (hothers _ (by simp))
      | entered t => exact .inr (hothers _ (by simp))
      | running t =>
          by_cases htask : task = t
          · cases htask
            exact .inl (List.mem_append_right _ (List.mem_singleton_self _))
          · exact .inr (hothers _ (by simpa using htask))
      | ran => exact .inr (hothers _ (by simp))

/-- When `taskCount` is zero, a task that is not finished is being executed. -/
theorem Kept.running {task : Nat} (h : p.Kept task) (hcounted : p.counted = 0) :
    task ∈ p.finished ∨ .running task ∈ p.threads := by
  rw [counted] at hcounted
  rcases h with hfinished | hqueued | ⟨worker, hmem, htask⟩
  · exact .inl hfinished
  · have hlength := List.length_pos_of_mem hqueued
    omega
  · have hcounts : ¬ worker.counts = true := by
      intro hcounts
      have hpos := List.countP_pos_iff.mpr ⟨worker, hmem, hcounts⟩
      omega
    cases worker with
    | idle => cases htask
    | ran => cases htask
    | popped t => exact absurd rfl hcounts
    | entered t => exact absurd rfl hcounts
    | running t =>
        cases htask
        exact .inr hmem

theorem Accounted.waitForDone (h : p.Accounted) (hcounting : p.Counting) :
    (p.waitForDone p.waiter).Accounted := by
  have hother (waiter : Waiter) (hseen : p.Seen waiter) :
      ({ p with waiter := waiter } : ThreadPool).Accounted := by
    refine ⟨h.added, h.pushed, ?_⟩
    exact hseen.mono (List.Subset.refl _) (List.Subset.refl _) fun task hrun => .inr hrun
  have hseen := h.seen
  cases hwaiter : p.waiter with
  | outside => exact hother _ fun task hmem => hmem
  | returned before => exact hother _ fun task hmem => hmem
  | loadsTaskCount before =>
      rw [hwaiter] at hseen
      rw [ThreadPool.waitForDone]
      split
      · exact h
      · rename_i hzero
        have hcounted := hcounting.taskCount_eq_zero.mp (not_not.mp hzero)
        exact hother _ fun task hmem =>
          ⟨hseen task hmem, Kept.running (h.added task (hseen task hmem)) hcounted⟩
  | loadsActiveThreads before =>
      rw [hwaiter] at hseen
      rw [ThreadPool.waitForDone]
      split
      · exact hother _ fun task hmem => (hseen task hmem).1
      · rename_i hzero
        have hactive := hcounting.activeThreads_eq_zero.mp (not_not.mp hzero)
        refine hother _ fun task hmem => ?_
        rcases (hseen task hmem).2 with hdone | hrun
        · exact hdone
        · have hpos := (List.countP_pos_iff (p := Worker.active)).mpr ⟨.running task, hrun, rfl⟩
          omega

/-! ## Every run -/

theorem invariant_step {e : Event} (h : p.Counting ∧ p.Accounted) (hfits : p.Fits e)
    (hok : p.step e = .ok p') : p'.Counting ∧ p'.Accounted := by
  obtain ⟨hcounting, haccounted⟩ := h
  cases e with
  | caller i =>
      cases hcaller : p.callers[i]? with
      | none => simp [step, hcaller] at hok
      | some caller =>
          simp only [step, hcaller] at hok
          cases hok
          refine ⟨hcounting.addTask hcaller ?_, haccounted.addTask hcaller⟩
          rintro rfl
          exact hfits hcaller
  | worker i =>
      cases hworker : p.threads[i]? with
      | none => simp [step, hworker] at hok
      | some worker =>
          simp only [step, hworker] at hok
          cases hok
          exact ⟨hcounting.runTask hworker, haccounted.runTask hworker⟩
  | waiter =>
      cases hok
      exact ⟨hcounting.waitForDone _, haccounted.waitForDone hcounting⟩

theorem init_invariant (threadNumber : UInt32) (callers : Nat) :
    (init threadNumber callers).Counting ∧ (init threadNumber callers).Accounted := by
  have hcallers : (List.replicate callers Caller.idle).countP Caller.counts = 0 := by
    simp [List.countP_replicate, Caller.counts]
  have hcounts : (List.replicate threadNumber.toNat Worker.idle).countP Worker.counts = 0 := by
    simp [List.countP_replicate, Worker.counts]
  have hactive : (List.replicate threadNumber.toNat Worker.idle).countP Worker.active = 0 := by
    simp [List.countP_replicate, Worker.active]
  have hcounted : (init threadNumber callers).counted = 0 := by
    simp only [counted, init]
    rw [hcallers, hcounts]
    rfl
  refine ⟨⟨?_, ?_, ?_, ?_⟩, ?_, ?_, trivial⟩
  · rw [hcounted]
    rfl
  · rw [hcounted]
    decide
  · simp only [init]
    rw [hactive]
    rfl
  · simp only [init, List.length_replicate]
    exact threadNumber.toNat_lt
  · intro task hmem
    cases hmem
  · intro task hmem
    have := List.eq_of_mem_replicate hmem
    cases this

theorem Counting.noUnderflow (h : p.Counting) (e : Event) : p.NoUnderflow e := by
  cases e with
  | caller i => trivial
  | waiter => trivial
  | worker i =>
      constructor
      · intro task hworker hzero
        have hcounted := h.taskCount_eq_zero.mp hzero
        have hpos := countP_pos (q := Worker.counts) hworker rfl
        rw [counted] at hcounted
        omega
      · intro hworker hzero
        have hactive := h.activeThreads_eq_zero.mp hzero
        have hpos := countP_pos (q := Worker.active) hworker rfl
        omega

/-- In every run in which `taskCount` does not get to `2 ^ 32`, the tasks added before
`waitForDone` are finished when it returns, and no counter is decremented at zero. -/
theorem barrier_of_fits (threadNumber : UInt32) (callers : Nat) (events : List Event)
    (hfits : Run.Always step Fits (init threadNumber callers) events) :
    Run.Always step (fun p e => p.NoUnderflow e ∧ Run.After step Barrier p e)
      (init threadNumber callers) events := by
  refine Run.always_of_always (J := fun p => p.Counting ∧ p.Accounted) (C := Fits) ?_ ?_
    (init_invariant threadNumber callers) hfits
  · intro p e p' hinv hfits hok
    exact invariant_step hinv hfits hok
  · intro p e hinv hfits
    refine ⟨hinv.1.noUnderflow e, fun p' hok before hwaiter => ?_⟩
    have hseen := (invariant_step hinv hfits hok).2.seen
    rw [hwaiter] at hseen
    exact hseen

/-- A task is added, executed and waited for. -/
theorem barrier_of_fits_one : Run.Always step (fun p e => p.NoUnderflow e ∧
    Run.After step Barrier p e) (init 1 1)
      [.caller 0, .caller 0, .caller 0, .waiter, .worker 0, .worker 0, .waiter, .worker 0,
        .waiter, .worker 0, .worker 0, .waiter, .waiter] :=
  barrier_of_fits 1 1
    [.caller 0, .caller 0, .caller 0, .waiter, .worker 0, .worker 0, .waiter, .worker 0,
      .waiter, .worker 0, .worker 0, .waiter, .waiter] (by decide +kernel)

/-! ## The counter wraps around -/

/-- One thread adds `n` tasks, and no worker takes one. -/
def adds (n : Nat) : List Event := (List.replicate n [.caller 0, .caller 0, .caller 0]).flatten

theorem final_adds (n : Nat) : Run.final step (init 1 1) (adds n) = .ok { init 1 1 with
    taskCount := UInt32.ofNat n
    next := n
    workQueue := List.range n
    added := List.range n } := by
  induction n with
  | zero => rfl
  | succ n ih =>
      have hadds : adds (n + 1) = adds n ++ [.caller 0, .caller 0, .caller 0] := by
        rw [adds, List.replicate_succ', List.flatten_append]
        rfl
      rw [hadds, Run.final_append_of_ok ih, ofNat_succ, List.range_succ]
      rfl

/-- When the counter has wrapped around, the waiter returns although no task has been
executed. -/
theorem returns_of_wrapped {n : Nat} (hpos : 0 < n) (hwrap : UInt32.ofNat n = 0) :
    ¬ Run.Always step (fun p e => p.NoUnderflow e ∧ Run.After step Barrier p e) (init 1 1)
      (adds n ++ [.waiter, .waiter, .waiter]) := by
  intro h
  have hfinal := final_adds n
  rw [hwrap] at hfinal
  have hend := h.of_append _ _ hfinal
  have hlast := (((hend.2 _ rfl).2 _ rfl).1.2 _ rfl) _ rfl
  exact absurd (hlast 0 (List.mem_range.mpr hpos)) List.not_mem_nil

/-- The counter wraps around at `2 ^ 32` tasks. -/
theorem barrier_wraps : ¬ Run.Always step (fun p e => p.NoUnderflow e ∧
    Run.After step Barrier p e) (init 1 1) (adds (2 ^ 32) ++ [.waiter, .waiter, .waiter]) :=
  returns_of_wrapped (Nat.two_pow_pos 32) (by decide)

end ThreadPool

end Netpp
