import Netpp.Signal.SignalWatcher

/-!
# What becomes of the signals

When `m_unHandledSignalThread` waits, its mask is the set of the watched signals: the
mutex is held between the adoption of the set and the wait, so that no change is
missed. The process then blocks exactly the watched signals, and none of the others is
pending. Over every run each signal that was sent has been merged with a pending one,
discarded, left to its default action, dropped by a handler or reported with
`onSignal`, or it is pending or in the hands of a handler.

A change of the set reaches the thread only later, and a handler asks once more
whether the signal is watched after it has read it. From a state in which the thread
waits and until the next `restore` of a signal, however, none of it is left to its
default action or dropped.
-/

namespace Netpp

namespace SignalWatcher

/-- The signals in the hands of the handlers. -/
def inHands (s : SignalWatcher) : List Nat := s.handlers.flatMap fun h => h.phase.signals

/-- How often a signal has been reported. -/
def Log.reported (log : Log) (signal : Nat) : Nat :=
  (log.told.map Signals.toLinuxSignal).count signal

/-- Every signal is accounted for. -/
def Accounted (s : SignalWatcher) (signal : Nat) : Prop :=
  s.log.raised signal = s.log.merged signal + s.log.discarded signal + s.log.defaulted signal +
    s.log.dropped signal + s.log.reported signal + s.pending signal + s.inHands.count signal

/-- The set of the watched signals is in force, and no signal is lost. -/
structure InForce (s : SignalWatcher) : Prop where
  blocks : s.thread = .waits → ∀ signal, s.blocks signal = s.watching signal
  pending : s.thread = .waits → ∀ signal, s.pending signal ≠ 0 → s.watching signal = true
  accounted : ∀ signal, s.Accounted signal

/-! ## The invariant -/

/-- The number of a signal that can be watched. -/
def Listed (signal : Nat) : Prop := ∃ x : Signals, x.toLinuxSignal = signal

structure Wellformed (s : SignalWatcher) : Prop where
  signalFd : ∀ mask, s.signalFd = some mask → mask = s.watching
  opened : s.signalFd.isSome ↔ s.thread ≠ .absent
  enabled : s.thread ≠ .absent → s.enabled = true
  watching : ∀ signal, s.watching signal = true → Listed signal
  hands : ∀ signal ∈ s.inHands, Listed signal
  waits : s.thread = .waits → s.blocked = sigmask s.watching
  pending : ∀ signal, s.pending signal ≠ 0 → s.blocks signal = true
  accounted : ∀ signal, s.Accounted signal

variable {s s' : SignalWatcher} {i : Nat} {h h' : SignalHandler} {signal other : Nat}

theorem Listed.maskable (hlisted : Listed signal) : maskable signal = true := by
  obtain ⟨x, rfl⟩ := hlisted
  simpa [SignalWatcher.maskable] using x.toLinuxSignal_ne

theorem Wellformed.inForce (hs : s.Wellformed) : s.InForce := by
  have hblocks : s.thread = .waits → ∀ signal, s.blocks signal = s.watching signal := by
    intro hwaits signal
    have henabled := hs.enabled (by simp [hwaits])
    rw [blocks, henabled, hwaits, hs.waits hwaits, sigmask]
    cases hwatching : s.watching signal with
    | false => simp
    | true => simp [(hs.watching signal hwatching).maskable]
  refine ⟨hblocks, fun hwaits signal hpending => ?_, hs.accounted⟩
  rw [← hblocks hwaits signal]
  exact hs.pending signal hpending

theorem init_wellformed : init.Wellformed := by
  refine ⟨by simp [init], by simp [init], by simp [init], by simp [init], by simp [init, inHands],
    by simp [init], by simp [init], fun signal => ?_⟩
  simp [Accounted, init, inHands, Log.reported]

/-! ## The kernel -/

theorem bump_apply (f : Nat → Nat) (signal other : Nat) :
    bump f signal other = f other + if other = signal then 1 else 0 := by
  by_cases h : other = signal
  · subst h
    simp [bump]
  · simp [bump, h]

/-- Only the pending signals and the counters differ. -/
theorem raise_frame (s : SignalWatcher) (signal : Nat) :
    (s.raise signal).enabled = s.enabled ∧ (s.raise signal).signalFd = s.signalFd ∧
      (s.raise signal).watching = s.watching ∧ (s.raise signal).thread = s.thread ∧
      (s.raise signal).blocked = s.blocked ∧ (s.raise signal).handlers = s.handlers ∧
      (s.raise signal).log.dropped = s.log.dropped ∧ (s.raise signal).log.told = s.log.told := by
  rw [raise, send]
  split
  · split <;> exact ⟨rfl, rfl, rfl, rfl, rfl, rfl, rfl, rfl⟩
  · exact ⟨rfl, rfl, rfl, rfl, rfl, rfl, rfl, rfl⟩

theorem raise_blocks (s : SignalWatcher) (signal : Nat) : (s.raise signal).blocks = s.blocks := by
  obtain ⟨henabled, -, -, hthread, hblocked, -⟩ := s.raise_frame signal
  funext other
  rw [blocks, blocks, henabled, hthread, hblocked]

/-- A signal that the process blocks is not left to its default action. -/
theorem raise_defaulted (hblocks : s.blocks other = true) :
    (s.raise signal).log.defaulted other = s.log.defaulted other := by
  rw [raise, send]
  split
  · split <;> rfl
  · rename_i hnot
    have hne : other ≠ signal := by
      rintro rfl
      exact hnot hblocks
    simp [bump_apply, hne, discard]

theorem discard_pending (hpending : (s.discard signal).pending other ≠ 0) :
    s.pending other ≠ 0 := by
  simp only [discard] at hpending
  split at hpending
  · exact absurd rfl hpending
  · exact hpending

theorem raise_pending (hpending : (s.raise signal).pending other ≠ 0) :
    s.pending other ≠ 0 ∨ other = signal ∧ s.blocks signal = true := by
  rw [raise, send] at hpending
  split at hpending
  case isTrue hblocks =>
    split at hpending
    · exact .inl (discard_pending hpending)
    · by_cases hother : other = signal
      · exact .inr ⟨hother, hblocks⟩
      · simp only [bump_apply, if_neg hother] at hpending
        exact .inl (discard_pending hpending)
  case isFalse => exact .inl (discard_pending hpending)

theorem Accounted.discard (hs : s.Accounted other) : (s.discard signal).Accounted other := by
  unfold Accounted at hs ⊢
  simp only [SignalWatcher.discard, Log.reported, inHands] at hs ⊢
  split <;> omega

theorem Accounted.send (hs : s.Accounted other) : (s.send signal).Accounted other := by
  unfold Accounted at hs ⊢
  simp only [SignalWatcher.send]
  split
  · split <;>
    · simp only [Log.reported, inHands, bump_apply] at hs ⊢
      omega
  · simp only [Log.reported, inHands, bump_apply] at hs ⊢
    omega

theorem Wellformed.raise (hs : s.Wellformed) (signal : Nat) : (s.raise signal).Wellformed := by
  obtain ⟨henabled, hfd, hwatching, hthread, hblocked, hhandlers, -⟩ := s.raise_frame signal
  refine ⟨?_, ?_, ?_, ?_, ?_, ?_, ?_, fun other => (hs.accounted other).discard.send⟩
  · rw [hfd, hwatching]
    exact hs.signalFd
  · rw [hfd, hthread]
    exact hs.opened
  · rw [hthread, henabled]
    exact hs.enabled
  · rw [hwatching]
    exact hs.watching
  · rw [inHands, hhandlers]
    exact hs.hands
  · rw [hthread, hblocked, hwatching]
    exact hs.waits
  · intro other hpending
    rw [raise_blocks]
    rcases raise_pending hpending with hpending | ⟨rfl, hblocks⟩
    · exact hs.pending other hpending
    · exact hblocks

/-- The default actions that the thread takes when it adopts its mask are counted. -/
theorem Accounted.deliver (hs : s.Accounted signal) : s.deliver.Accounted signal := by
  unfold Accounted at hs ⊢
  simp only [SignalWatcher.deliver, Log.reported, inHands] at hs ⊢
  split <;> omega

/-! ## The watcher -/

theorem Wellformed.enableWatchSignal (hs : s.Wellformed) (opened : Bool) :
    (s.enableWatchSignal opened).Wellformed := by
  rw [SignalWatcher.enableWatchSignal]
  split
  case isTrue => exact hs
  case isFalse hnot =>
    have hnone : ∀ signal, s.pending signal = 0 := by
      intro signal
      by_contra hpending
      have hblocks := hs.pending signal hpending
      simp [blocks, hnot] at hblocks
    refine ⟨?_, ?_, fun _ => rfl, by simp, hs.hands, ?_, by simp [hnone], hs.accounted⟩
    · cases opened <;> simp
    · cases opened <;> simp
    · cases opened <;> simp

theorem notify_eq_absent (thread : UnHandled) : thread.notify = .absent ↔ thread = .absent := by
  cases thread <;> simp [UnHandled.notify]

theorem notify_ne_waits (thread : UnHandled) : thread.notify ≠ .waits := by
  cases thread <;> simp [UnHandled.notify]

theorem change_blocks (s : SignalWatcher) (signal : Nat) (watched : Bool) :
    (s.change signal watched).blocks = s.blocks := by
  rw [change]
  split
  · rfl
  · funext other
    have hsame : (s.thread.notify == .absent) = (s.thread == .absent) := by
      cases s.thread <;> rfl
    simp only [blocks, hsame]

/-- The set, the mask of the descriptor and the notification change together. -/
theorem Wellformed.change (hs : s.Wellformed) {signal : Nat} (hlisted : Listed signal)
    (watched : Bool) : (s.change signal watched).Wellformed := by
  have hblocks := s.change_blocks signal watched
  rw [SignalWatcher.change] at hblocks ⊢
  split at hblocks
  · exact hs
  · rename_i mask hfd
    have hopened : s.thread ≠ .absent := hs.opened.mp (by simp [hfd])
    refine ⟨by simp, ?_, fun _ => hs.enabled hopened, ?_, hs.hands, ?_, ?_, hs.accounted⟩
    · simpa [notify_eq_absent] using hopened
    · intro other hother
      simp only [Function.update_apply] at hother
      split at hother
      · rename_i heq
        exact heq ▸ hlisted
      · exact hs.watching other hother
    · exact fun hwaits => absurd hwaits (notify_ne_waits _)
    · intro other hpending
      rw [hblocks]
      exact hs.pending other hpending

theorem Wellformed.unHandled (hs : s.Wellformed) (hok : s.unHandled s.thread = some s') :
    s'.Wellformed := by
  cases hthread : s.thread with
  | absent => simp [SignalWatcher.unHandled, hthread] at hok
  | waits => simp [SignalWatcher.unHandled, hthread] at hok
  | woken =>
      simp only [SignalWatcher.unHandled, hthread, Option.some.injEq] at hok
      subst hok
      have hne : s.thread ≠ .absent := by simp [hthread]
      refine ⟨hs.signalFd, by simpa [hthread] using hs.opened, fun _ => hs.enabled hne, hs.watching,
        hs.hands, by simp, fun signal hpending => ?_, hs.accounted⟩
      have hblocks := hs.pending signal hpending
      simpa [blocks, hthread] using hblocks
  | locks =>
      simp only [SignalWatcher.unHandled, hthread, Option.some.injEq] at hok
      subst hok
      have hne : s.thread ≠ .absent := by simp [hthread]
      refine ⟨hs.signalFd, by simpa [hthread, deliver] using hs.opened, fun _ => hs.enabled hne,
        hs.watching, hs.hands, fun _ => rfl, fun signal hpending => ?_,
        fun signal => Accounted.deliver (hs.accounted signal)⟩
      simp only [deliver] at hpending
      split at hpending
      · assumption
      · exact absurd rfl hpending

theorem Wellformed.wake (hs : s.Wellformed) (hwaits : s.thread = .waits) :
    ({ s with thread := .woken } : SignalWatcher).Wellformed := by
  have hne : s.thread ≠ .absent := by simp [hwaits]
  refine ⟨hs.signalFd, by simpa [hwaits] using hs.opened, fun _ => hs.enabled hne, hs.watching,
    hs.hands, by simp, fun signal hpending => ?_, hs.accounted⟩
  have hblocks := hs.pending signal hpending
  simpa [blocks, hwaits] using hblocks

/-! ## The handlers -/

/-- What the handlers hold, when one of them takes a step. -/
theorem count_inHands (hget : s.handlers[i]? = some h) (h' : SignalHandler) (signal : Nat) :
    h.phase.signals.count signal +
        ((s.handlers.set i h').flatMap fun h => h.phase.signals).count signal =
      h'.phase.signals.count signal + s.inHands.count signal := by
  have hperm := Threads.flatMap_set_perm (fun h => h.phase.signals) hget h'
  have hcount := hperm.count_eq signal
  rwa [List.count_append, List.count_append] at hcount

theorem mem_inHands_set (hget : s.handlers[i]? = some h)
    (hmem : signal ∈ (s.handlers.set i h').flatMap fun h => h.phase.signals) :
    signal ∈ h'.phase.signals ∨ signal ∈ s.inHands := by
  have hperm := Threads.flatMap_set_perm (fun h => h.phase.signals) hget h'
  exact List.mem_append.mp (hperm.subset (List.mem_append_right _ hmem))

/-- A step of a handler that keeps its signals. -/
theorem Wellformed.setHandler (hs : s.Wellformed) (hget : s.handlers[i]? = some h)
    (hsignals : h'.phase.signals = h.phase.signals) :
    ({ s with handlers := s.handlers.set i h' } : SignalWatcher).Wellformed := by
  refine ⟨hs.signalFd, hs.opened, hs.enabled, hs.watching, fun signal hmem => ?_, hs.waits,
    hs.pending, fun signal => ?_⟩
  · rcases mem_inHands_set hget hmem with hmem | hmem
    · rw [hsignals] at hmem
      exact hs.hands signal (List.mem_flatMap.mpr ⟨h, List.mem_of_getElem? hget, hmem⟩)
    · exact hs.hands signal hmem
  · have hcount := count_inHands hget h' signal
    have haccounted := hs.accounted signal
    rw [hsignals] at hcount
    unfold Accounted at haccounted ⊢
    simp only [inHands, Log.reported] at hcount haccounted ⊢
    omega

theorem Wellformed.stepHandler (hs : s.Wellformed) (hget : s.handlers[i]? = some h)
    {next : Option SignalHandler}
    (hsignals : ∀ h', next = some h' → h'.phase.signals = h.phase.signals)
    (hok : s.stepHandler i next = some s') : s'.Wellformed := by
  obtain ⟨h', hnext, rfl⟩ := Option.map_eq_some_iff.mp hok
  exact hs.setHandler hget (hsignals h' hnext)

theorem functor_signals (hok : functor h = some h') : h'.phase.signals = h.phase.signals := by
  rw [functor] at hok
  split at hok
  · rename_i hphase
    cases hok
    rw [hphase]
    rfl
  · rename_i hphase
    split at hok
    · cases hok
      rw [hphase]
      rfl
    · cases hok
  · cases hok

theorem endRead_signals (hok : s.endRead h = some h') : h'.phase.signals = h.phase.signals := by
  rw [endRead] at hok
  split at hok
  · rename_i signals hphase
    split at hok
    · cases hok
      rw [hphase]
      by_cases hnil : signals = []
      · subst hnil
        rfl
      · simp only [if_neg hnil]
        rfl
    · cases hok
  · cases hok

/-- What the descriptor hands out is watched. -/
theorem Wellformed.readable (hs : s.Wellformed) (hreadable : s.readable signal = true) :
    s.watching signal = true ∧ s.pending signal ≠ 0 := by
  simp only [SignalWatcher.readable, Bool.and_eq_true, decide_eq_true_eq] at hreadable
  obtain ⟨haccepts, hpending⟩ := hreadable
  cases hfd : s.signalFd with
  | none => simp [hfd] at haccepts
  | some mask =>
      rw [hfd, hs.signalFd mask hfd] at haccepts
      exact ⟨haccepts, hpending⟩

theorem Wellformed.dequeue (hs : s.Wellformed) (hget : s.handlers[i]? = some h)
    (hok : s.dequeue i h signal = some s') : s'.Wellformed := by
  rw [SignalWatcher.dequeue] at hok
  split at hok
  case h_2 => cases hok
  case h_1 signals hphase =>
    split at hok
    case isFalse => cases hok
    case isTrue hcond =>
      obtain ⟨hwatching, hpos⟩ := hs.readable hcond.2
      cases hok
      refine ⟨hs.signalFd, hs.opened, hs.enabled, hs.watching, fun other hmem => ?_, hs.waits,
        fun other hpending => ?_, fun other => ?_⟩
      · rcases mem_inHands_set hget hmem with hmem | hmem
        · rcases List.mem_append.mp hmem with hmem | hmem
          · refine hs.hands other (List.mem_flatMap.mpr ⟨h, List.mem_of_getElem? hget, ?_⟩)
            rw [hphase]
            exact hmem
          · rw [List.mem_singleton.mp hmem]
            exact hs.watching signal hwatching
        · exact hs.hands other hmem
      · apply hs.pending other
        simp only [Function.update_apply] at hpending
        split at hpending
        · rename_i heq
          exact heq ▸ hpos
        · exact hpending
      · have hcount := count_inHands hget { h with phase := .reading (signals ++ [signal]) } other
        have haccounted := hs.accounted other
        unfold Accounted at haccounted ⊢
        simp only [hphase, Phase.signals, List.count_append, List.count_singleton, inHands,
          Log.reported, Function.update_apply, beq_iff_eq] at hcount haccounted ⊢
        by_cases hother : other = signal
        · subst hother
          simp only [if_true] at hcount ⊢
          omega
        · simp only [if_neg hother, if_neg (Ne.symm hother)] at hcount ⊢
          omega

/-- A signal in the hands of a handler is reported under its own name. -/
theorem toLinuxSignal_toNetppSignal (hlisted : Listed signal) :
    (Signals.toNetppSignal signal).toLinuxSignal = signal := by
  obtain ⟨x, rfl⟩ := hlisted
  rw [Signals.toNetppSignal_toLinuxSignal]

theorem Log.reported_append (log : Log) (x : Signals) (signal : Nat) :
    Log.reported { log with told := log.told ++ [x] } signal =
      log.reported signal + if x.toLinuxSignal = signal then 1 else 0 := by
  simp only [reported, List.map_append, List.map_cons, List.map_nil, List.count_append,
    List.count_singleton, beq_iff_eq]

theorem Wellformed.handle (hs : s.Wellformed) (hget : s.handlers[i]? = some h)
    (hok : s.handle i h = some s') : s'.Wellformed := by
  rw [SignalWatcher.handle] at hok
  split at hok
  case h_1 hphase =>
    cases hok
    exact hs.setHandler hget (by rw [hphase]; rfl)
  case h_2 signal signals hphase =>
    cases hok
    have hlisted : Listed signal := by
      refine hs.hands signal (List.mem_flatMap.mpr ⟨h, List.mem_of_getElem? hget, ?_⟩)
      rw [hphase]
      exact List.mem_cons_self
    refine ⟨hs.signalFd, hs.opened, hs.enabled, hs.watching, fun other hmem => ?_, hs.waits,
      hs.pending, fun other => ?_⟩
    · rcases mem_inHands_set hget hmem with hmem | hmem
      · refine hs.hands other (List.mem_flatMap.mpr ⟨h, List.mem_of_getElem? hget, ?_⟩)
        rw [hphase]
        exact List.mem_cons_of_mem _ hmem
      · exact hs.hands other hmem
    · have hcount := count_inHands hget { h with phase := .handling signals } other
      have haccounted := hs.accounted other
      have hbefore : h.phase.signals = signal :: signals := by
        rw [hphase]
        rfl
      have hafter : (Phase.handling signals).signals = signals := rfl
      simp only [hbefore, hafter, List.count_cons, beq_iff_eq] at hcount
      unfold Accounted at haccounted ⊢
      simp only [inHands] at hcount haccounted ⊢
      by_cases hwatching : s.isWatching signal = true
      · simp only [hwatching, if_true, Log.reported_append, toLinuxSignal_toNetppSignal hlisted]
        omega
      · simp only [hwatching, if_false, Bool.false_eq_true, bump_apply]
        simp only [Log.reported] at haccounted ⊢
        by_cases hother : other = signal
        · subst hother
          simp only [if_true] at hcount ⊢
          omega
        · simp only [if_neg hother, if_neg (Ne.symm hother)] at hcount ⊢
          omega
  case h_3 => cases hok

/-- The handler before is told to stop, with what it has in its hands. -/
theorem inHands_with' (s : SignalWatcher) : s.with'.inHands = s.inHands := by
  have hlast : s.handlers = s.handlers.dropLast ++ s.handlers.getLast?.toList := by
    rcases List.eq_nil_or_concat s.handlers with hnil | ⟨front, last, hconcat⟩
    · simp [hnil]
    · simp [hconcat]
  have hmap : (s.handlers.getLast?.map fun h => { h with stopping := true }).toList.flatMap
      (fun h => h.phase.signals) = s.handlers.getLast?.toList.flatMap fun h => h.phase.signals := by
    cases s.handlers.getLast? <;> rfl
  rw [inHands, with', List.flatMap_append, List.flatMap_append, hmap, inHands]
  conv_rhs => rw [hlast, List.flatMap_append]
  exact List.append_nil _

theorem Wellformed.with' (hs : s.Wellformed) : s.with'.Wellformed := by
  refine ⟨hs.signalFd, hs.opened, hs.enabled, hs.watching, ?_, hs.waits, hs.pending,
    fun signal => ?_⟩
  · rw [inHands_with']
    exact hs.hands
  · rw [Accounted, inHands_with']
    exact hs.accounted signal

/-! ## Runs -/

theorem step_ok {e : Event} (hok : step s e = .ok s') : s.step? e = some s' := by
  rw [step] at hok
  cases hstep : s.step? e with
  | none => simp [hstep] at hok
  | some t =>
      simp only [hstep, Except.ok.injEq] at hok
      rw [hok]

/-- Step lemma: every step of the threads, of the handlers and of the kernel keeps the
invariant. -/
theorem Wellformed.step {e : Event} (hs : s.Wellformed)
    (hok : SignalWatcher.step s e = .ok s') : s'.Wellformed := by
  have hstep := step_ok hok
  cases e with
  | enableWatchSignal opened =>
      cases hstep
      exact hs.enableWatchSignal opened
  | watch signal =>
      cases hstep
      exact hs.change ⟨signal, rfl⟩ true
  | restore signal =>
      cases hstep
      exact hs.change ⟨signal, rfl⟩ false
  | unHandled => exact hs.unHandled hstep
  | wake =>
      simp only [step?] at hstep
      split at hstep
      case isTrue hwaits =>
        cases hstep
        exact hs.wake hwaits
      case isFalse => cases hstep
  | raise signal =>
      simp only [step?] at hstep
      split at hstep
      case isTrue =>
        cases hstep
        exact hs.raise signal
      case isFalse => cases hstep
  | with' =>
      cases hstep
      exact hs.with'
  | functor i =>
      obtain ⟨h, hget, hstep⟩ := Option.bind_eq_some_iff.mp hstep
      exact hs.stepHandler hget (fun _ => functor_signals) hstep
  | handleIn i =>
      obtain ⟨h, hget, hstep⟩ := Option.bind_eq_some_iff.mp hstep
      refine hs.stepHandler hget (fun h' hnext => ?_) hstep
      split at hnext
      case isTrue hidle =>
        cases hnext
        rw [hidle]
        rfl
      case isFalse => cases hnext
  | dequeue i signal =>
      obtain ⟨h, hget, hstep⟩ := Option.bind_eq_some_iff.mp hstep
      exact hs.dequeue hget hstep
  | endRead i =>
      obtain ⟨h, hget, hstep⟩ := Option.bind_eq_some_iff.mp hstep
      exact hs.stepHandler hget (fun _ => endRead_signals) hstep
  | handle i =>
      obtain ⟨h, hget, hstep⟩ := Option.bind_eq_some_iff.mp hstep
      exact hs.handle hget hstep

/-- The signal is watched, and the mask of the thread has adopted that. -/
structure Held (s : SignalWatcher) (signal : Nat) : Prop where
  wellformed : s.Wellformed
  watched : s.watching signal = true
  opened : s.thread ≠ .absent
  blocked : s.blocked signal = true

/-- Nothing is lost of the signal between the two states. -/
def Unlost (s s' : SignalWatcher) (signal : Nat) : Prop :=
  s'.log.defaulted signal = s.log.defaulted signal ∧ s'.log.dropped signal = s.log.dropped signal

theorem Held.blocks (hs : s.Held signal) : s.blocks signal = true := by
  have hmaskable := (hs.wellformed.watching signal hs.watched).maskable
  rw [SignalWatcher.blocks, hs.wellformed.enabled hs.opened, hmaskable, hs.blocked, Bool.or_true]
  rfl

theorem Held.change (hs : s.Held signal) {watched : Bool} (hlisted : Listed other)
    (hkept : watched = false → other ≠ signal) : (s.change other watched).Held signal := by
  refine ⟨hs.wellformed.change hlisted watched, ?_, ?_, ?_⟩
  all_goals rw [SignalWatcher.change]; split
  · exact hs.watched
  · by_cases hother : signal = other
    · subst hother
      cases watched with
      | true => simp
      | false => exact absurd rfl (hkept rfl)
    · simp [hother, hs.watched]
  · exact hs.opened
  · simpa [notify_eq_absent] using hs.opened
  · exact hs.blocked
  · exact hs.blocked

theorem Held.unHandled (hs : s.Held signal) (hok : s.unHandled s.thread = some s') :
    s'.Held signal ∧ Unlost s s' signal := by
  have hwellformed := hs.wellformed.unHandled hok
  have hmaskable := (hs.wellformed.watching signal hs.watched).maskable
  cases hthread : s.thread with
  | absent => exact absurd hthread hs.opened
  | waits => simp [SignalWatcher.unHandled, hthread] at hok
  | woken =>
      simp only [SignalWatcher.unHandled, hthread, Option.some.injEq] at hok
      subst hok
      exact ⟨⟨hwellformed, hs.watched, by simp, hs.blocked⟩, rfl, rfl⟩
  | locks =>
      simp only [SignalWatcher.unHandled, hthread, Option.some.injEq] at hok
      subst hok
      have hheld :
          (deliver { s with blocked := sigmask s.watching, thread := .waits }).Held signal :=
        ⟨hwellformed, hs.watched, by simp [deliver],
          by simp [deliver, sigmask, hs.watched, hmaskable]⟩
      refine ⟨hheld, ?_, rfl⟩
      have hblocks := hheld.blocks
      have hsame : (deliver { s with blocked := sigmask s.watching, thread := .waits }).blocks =
        ({ s with blocked := sigmask s.watching, thread := .waits } : SignalWatcher).blocks := rfl
      rw [hsame] at hblocks
      simp only [deliver, hblocks, if_true, Nat.add_zero]

/-- A handler that finds the signal watched reports it. -/
theorem Held.handle (hs : s.Held signal) (hok : s.handle i h = some s') : Unlost s s' signal := by
  rw [SignalWatcher.handle] at hok
  split at hok
  case h_1 =>
    cases hok
    exact ⟨rfl, rfl⟩
  case h_2 other signals hphase =>
    cases hok
    by_cases hwatching : s.isWatching other = true
    · simp only [Unlost, hwatching, if_true, and_self]
    · have hfd : s.signalFd.isSome = true := hs.wellformed.opened.mpr hs.opened
      have hne : signal ≠ other := by
        rintro rfl
        exact hwatching (by rw [isWatching, hfd, hs.watched]; rfl)
      simp only [Unlost, hwatching, if_false, Bool.false_eq_true, bump_apply, if_neg hne,
        Nat.add_zero, and_self]
  case h_3 => cases hok

theorem Held.of_frame (hs : s.Held signal) (hwellformed : s'.Wellformed)
    (hwatching : s'.watching = s.watching) (hthread : s'.thread = s.thread)
    (hblocked : s'.blocked = s.blocked) : s'.Held signal :=
  ⟨hwellformed, by rw [hwatching, hs.watched], by rw [hthread]; exact hs.opened,
    by rw [hblocked, hs.blocked]⟩

/-- A step of a handler. -/
def Event.OfHandler (e : Event) : Prop :=
  ∃ i, e = .functor i ∨ e = .handleIn i ∨ e = .endRead i ∨ e = .handle i ∨
    ∃ signal, e = .dequeue i signal

/-- What the handlers do leaves the watcher alone. -/
theorem handler_frame {e : Event} (hok : s.step? e = some s') (he : e.OfHandler) :
    s'.watching = s.watching ∧ s'.thread = s.thread ∧ s'.blocked = s.blocked ∧
      ((∀ i, e ≠ .handle i) → s'.log = s.log) := by
  have hstep : ∀ {i next}, s.stepHandler i next = some s' →
      s'.watching = s.watching ∧ s'.thread = s.thread ∧ s'.blocked = s.blocked ∧
        s'.log = s.log := by
    intro i next hok
    obtain ⟨h', -, rfl⟩ := Option.map_eq_some_iff.mp hok
    exact ⟨rfl, rfl, rfl, rfl⟩
  obtain ⟨i, rfl | rfl | rfl | rfl | ⟨signal, rfl⟩⟩ := he
  all_goals obtain ⟨h, -, hok⟩ := Option.bind_eq_some_iff.mp hok
  · obtain ⟨hwatching, hthread, hblocked, hlog⟩ := hstep hok
    exact ⟨hwatching, hthread, hblocked, fun _ => hlog⟩
  · obtain ⟨hwatching, hthread, hblocked, hlog⟩ := hstep hok
    exact ⟨hwatching, hthread, hblocked, fun _ => hlog⟩
  · obtain ⟨hwatching, hthread, hblocked, hlog⟩ := hstep hok
    exact ⟨hwatching, hthread, hblocked, fun _ => hlog⟩
  · rw [handle] at hok
    split at hok
    · cases hok
      exact ⟨rfl, rfl, rfl, fun _ => rfl⟩
    · cases hok
      exact ⟨rfl, rfl, rfl, fun hne => absurd rfl (hne i)⟩
    · cases hok
  · rw [dequeue] at hok
    split at hok
    · split at hok
      · cases hok
        exact ⟨rfl, rfl, rfl, fun _ => rfl⟩
      · cases hok
    · cases hok

/-- Step lemma: only a `restore` of the signal ends this. -/
theorem Held.step {e : Event} (hs : s.Held signal)
    (hkept : ∀ x, e = .restore x → x.toLinuxSignal ≠ signal)
    (hok : SignalWatcher.step s e = .ok s') : s'.Held signal ∧ Unlost s s' signal := by
  have hwellformed := hs.wellformed.step hok
  have hstep := step_ok hok
  have hquiet : e.OfHandler → (∀ i, e ≠ .handle i) → s'.Held signal ∧ Unlost s s' signal := by
    intro he hne
    obtain ⟨hwatching, hthread, hblocked, hlog⟩ := handler_frame hstep he
    refine ⟨hs.of_frame hwellformed hwatching hthread hblocked, ?_⟩
    rw [Unlost, hlog hne]
    exact ⟨rfl, rfl⟩
  cases e with
  | enableWatchSignal opened =>
      have henabled := hs.wellformed.enabled hs.opened
      simp only [step?, enableWatchSignal, henabled, if_true, Option.some.injEq] at hstep
      subst hstep
      exact ⟨hs, rfl, rfl⟩
  | watch x =>
      cases hstep
      refine ⟨hs.change ⟨x, rfl⟩ (by simp), ?_⟩
      rw [watch, SignalWatcher.change]
      split <;> exact ⟨rfl, rfl⟩
  | restore x =>
      cases hstep
      refine ⟨hs.change ⟨x, rfl⟩ fun _ => hkept x rfl, ?_⟩
      rw [restore, SignalWatcher.change]
      split <;> exact ⟨rfl, rfl⟩
  | unHandled => exact hs.unHandled hstep
  | wake =>
      simp only [step?] at hstep
      split at hstep
      case isTrue =>
        cases hstep
        exact ⟨⟨hwellformed, hs.watched, by simp, hs.blocked⟩, rfl, rfl⟩
      case isFalse => cases hstep
  | raise other =>
      simp only [step?] at hstep
      split at hstep
      case isTrue =>
        cases hstep
        obtain ⟨-, -, hwatching, hthread, hblocked, -, hdropped, -⟩ := s.raise_frame other
        exact ⟨hs.of_frame hwellformed hwatching hthread hblocked, raise_defaulted hs.blocks,
          by rw [hdropped]⟩
      case isFalse => cases hstep
  | with' =>
      cases hstep
      exact ⟨⟨hwellformed, hs.watched, hs.opened, hs.blocked⟩, rfl, rfl⟩
  | functor i => exact hquiet ⟨i, by simp⟩ (by simp)
  | handleIn i => exact hquiet ⟨i, by simp⟩ (by simp)
  | dequeue i other => exact hquiet ⟨i, by simp⟩ (by simp)
  | endRead i => exact hquiet ⟨i, by simp⟩ (by simp)
  | handle i =>
      obtain ⟨hwatching, hthread, hblocked, -⟩ := handler_frame hstep ⟨i, by simp⟩
      obtain ⟨h, -, hhandle⟩ := Option.bind_eq_some_iff.mp hstep
      exact ⟨hs.of_frame hwellformed hwatching hthread hblocked, hs.handle hhandle⟩

/-- In every run the process blocks exactly the watched signals whenever the thread waits, none of
the others is pending then, and every signal that was sent is accounted for. -/
theorem signals_in_force (events : List Event) :
    Run.Always step (Run.After step InForce) init events :=
  (Run.always_of_invariant (fun _ _ _ h hok => Wellformed.step h hok) init_wellformed events).mono
    fun _ _ hafter s' hok => (hafter s' hok).inForce

/-- Once the thread waits with the signal watched, and until it is restored, no instance of it is
left to its default action or dropped by a handler. -/
theorem watched_unlost (events later : List Event) (s s' : SignalWatcher) (x : Signals)
    (hfinal : Run.final step init events = .ok s) (hwaits : s.thread = .waits)
    (hwatched : s.watching x.toLinuxSignal = true) (hkept : .restore x ∉ later)
    (hlater : Run.final step s later = .ok s') : Unlost s s' x.toLinuxSignal := by
  have hs : s.Wellformed :=
    Run.final_invariant (fun _ _ _ h hok => Wellformed.step h hok) init_wellformed hfinal
  have hheld : s.Held x.toLinuxSignal := by
    refine ⟨hs, hwatched, by simp [hwaits], ?_⟩
    rw [hs.waits hwaits, sigmask, hwatched, (hs.watching _ hwatched).maskable]
    rfl
  clear hfinal hwaits hwatched hs
  induction later generalizing s with
  | nil =>
      cases hlater
      exact ⟨rfl, rfl⟩
  | cons e later ih =>
      cases hstep : step s e with
      | error err => simp [Run.final, hstep] at hlater
      | ok t =>
          rw [Run.final_cons_of_ok hstep] at hlater
          have he : ∀ y, e = .restore y → y.toLinuxSignal ≠ x.toLinuxSignal := by
            rintro y rfl heq
            rw [Signals.toLinuxSignal_injective heq] at hkept
            exact hkept List.mem_cons_self
          obtain ⟨hnext, hdefaulted, hdropped⟩ := hheld.step he hstep
          obtain ⟨hdefaulted', hdropped'⟩ :=
            ih t (fun hmem => hkept (List.mem_cons_of_mem _ hmem)) hlater hnext
          exact ⟨hdefaulted'.trans hdefaulted, hdropped'.trans hdropped⟩

/-- `SIGINT` is watched, sent, read and reported. -/
theorem watched_unlost_int : ∃ s s',
    Run.final step init [.enableWatchSignal true, .unHandled, .watch .int, .unHandled,
      .unHandled] = .ok s ∧
    Run.final step s [.raise 2, .with', .functor 0, .handleIn 0, .dequeue 0 2, .endRead 0,
      .handle 0] = .ok s' ∧
    Unlost s s' Signals.int.toLinuxSignal ∧ s'.log.told = [.int] :=
  ⟨_, _, rfl, rfl, watched_unlost [.enableWatchSignal true, .unHandled, .watch .int, .unHandled,
    .unHandled] [.raise 2, .with', .functor 0, .handleIn 0, .dequeue 0 2, .endRead 0, .handle 0]
    _ _ .int rfl rfl rfl (by simp) rfl, rfl⟩

end SignalWatcher

end Netpp
