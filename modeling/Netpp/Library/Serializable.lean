import Netpp.Library.Locking
import Netpp.Library.Simulation
import Netpp.Library.Threads

/-!
# Calls that lock their objects are serializable

As a call takes all its locks before it releases the first one, calls do not see each
other at work: `Serial` says that their results and the objects that no call is working
on are those of the calls made one after the other, in the order in which they end their
work, and that the calls of each thread keep their order. Along a run the log only grows,
so a call that has returned before another one is made comes before it.
-/

namespace Locking

namespace State

variable {κ σ ε ρ ι : Type} [DecidableEq κ] {k : κ} {code : ι → Op κ σ ε ρ}

/-- The calls of the log, made one after the other, have the results of the log and lead
to `serial`. -/
structure Serial (store : κ → σ) (s : State code) (log : List (Tagged Nat (ι × ρ)))
    (serial : κ → σ) : Prop where
  results : Run.replies (fun s c => (code c).apply s) store (log.map fun x => x.entry.1) =
    .ok (serial, log.map fun x => x.entry.2)
  objects : ∀ k, (∀ p ∈ s.threads, k ∉ p.working) → s.store k = serial k
  order : ∀ i, Tagged.part i log = Tagged.part i s.returned ++ s.threads[i]?.elim [] Phase.ended

/-- No two threads hold a lock, and a thread that works on its objects has still to do
what leads from the objects of the serial store to the result of its call. -/
structure Locked (store : κ → σ) (s : State code) (log : List (Tagged Nat (ι × ρ)))
    (serial : κ → σ) : Prop extends Serial store s log serial where
  exclusive : ∀ (i j : Nat) (p q : Phase code), s.threads[i]? = some p →
    s.threads[j]? = some q → i ≠ j → ∀ k ∈ p.held, k ∉ q.held
  running : ∀ (i : Nat) (c : ι) (rest : Prog ε (View σ (code c).locks) ρ),
    s.threads[i]? = some (.running c rest) →
      rest.run (view (code c).locks s.store) = (code c).body.run (view (code c).locks serial)

variable {store serial : κ → σ} {st st' : State code} {log : List (Tagged Nat (ι × ρ))}
variable {i j : Nat} {p p' q : Phase code} {c : ι} {r : ρ}

/-! ## One thread enters a phase -/

omit [DecidableEq κ] in
theorem enter_thread (h : st.threads[i]? = some p) (p' : Phase code) :
    (st.enter i p').threads[i]? = some p' :=
  List.getElem?_set_self (List.getElem?_eq_some_iff.mp h).1

omit [DecidableEq κ] in
theorem enter_thread_of_ne (hij : j ≠ i) (p' : Phase code) :
    (st.enter i p').threads[j]? = st.threads[j]? := List.getElem?_set_ne hij.symm

omit [DecidableEq κ] in
theorem not_working_of_enter (h : st.threads[i]? = some p) (hp : k ∉ p.working)
    (hall : ∀ q ∈ (st.enter i p').threads, k ∉ q.working) : ∀ q ∈ st.threads, k ∉ q.working := by
  intro q hq
  obtain ⟨j, hj⟩ := List.mem_iff_getElem?.mp hq
  by_cases hij : j = i
  · subst hij
    rw [h] at hj
    cases hj
    exact hp
  · exact hall q (List.mem_of_getElem? ((enter_thread_of_ne hij p').trans hj))

theorem Locked.exclusive_enter (h : Locked store st log serial) (hi : st.threads[i]? = some p)
    (hheld : ∀ k ∈ p'.held, k ∈ p.held ∨ st.Free k) (a b : Nat) (q q' : Phase code)
    (hq : (st.enter i p').threads[a]? = some q) (hq' : (st.enter i p').threads[b]? = some q')
    (hab : a ≠ b) : ∀ k ∈ q.held, k ∉ q'.held := by
  -- what the thread holds is not held by another one
  have hother : ∀ a q, st.threads[a]? = some q → a ≠ i → ∀ k ∈ p'.held, k ∉ q.held := by
    intro a q hq hai k hk
    rcases hheld k hk with hmem | hfree
    · exact h.exclusive i a p q hi hq hai.symm k hmem
    · exact hfree q (List.mem_of_getElem? hq)
  by_cases hai : a = i
  · subst hai
    rw [enter_thread hi] at hq
    cases hq
    rw [enter_thread_of_ne hab.symm] at hq'
    exact hother b q' hq' hab.symm
  · rw [enter_thread_of_ne hai] at hq
    by_cases hbi : b = i
    · subst hbi
      rw [enter_thread hi] at hq'
      cases hq'
      exact fun k hk hk' => hother a q hq hab k hk' hk
    · rw [enter_thread_of_ne hbi] at hq'
      exact h.exclusive a b q q' hq hq' hab

omit [DecidableEq κ] in
theorem order_enter (h : st.threads[i]? = some p) (p' : Phase code)
    (hended : p'.ended = p.ended) (j : Nat) :
    (st.enter i p').threads[j]?.elim [] Phase.ended = st.threads[j]?.elim [] Phase.ended := by
  by_cases hij : j = i
  · subst hij
    rw [enter_thread h, h]
    exact hended
  · rw [enter_thread_of_ne hij]

/-- A thread that neither works on its objects nor ends its work. -/
theorem Locked.enter (h : Locked store st log serial) (hi : st.threads[i]? = some p)
    (hheld : ∀ k ∈ p'.held, k ∈ p.held ∨ st.Free k) (hworking : p.working = [])
    (hended : p'.ended = p.ended)
    (hrunning : ∀ c rest, p' = .running c rest →
      rest.run (view (code c).locks st.store) = (code c).body.run (view (code c).locks serial)) :
    Locked store (st.enter i p') log serial where
  results := h.results
  objects k hk := by
    have hnot : k ∉ p.working := by
      rw [hworking]
      exact List.not_mem_nil
    exact h.objects k (not_working_of_enter hi hnot hk)
  order j := by
    rw [order_enter hi p' hended]
    exact h.order j
  exclusive := h.exclusive_enter hi hheld
  running j c rest hj := by
    by_cases hij : j = i
    · subst hij
      rw [enter_thread hi] at hj
      exact hrunning c rest (Option.some.inj hj)
    · rw [enter_thread_of_ne hij] at hj
      exact h.running j c rest hj

/-- The objects of a thread that holds their locks and does not work on them yet. -/
theorem Locked.object_of_held (h : Locked store st log serial) (hi : st.threads[i]? = some p)
    (hworking : p.working = []) (hk : k ∈ p.held) : st.store k = serial k := by
  apply h.objects
  intro q hq
  obtain ⟨j, hj⟩ := List.mem_iff_getElem?.mp hq
  by_cases hij : i = j
  · subst hij
    rw [hi] at hj
    cases hj
    rw [hworking]
    exact List.not_mem_nil
  · exact mt (fun hmem => q.working_subset hmem) (h.exclusive i j p q hi hj hij k hk)

/-! ## Steps -/

/-- One step under the locks. -/
theorem Locked.work (h : Locked store st log serial) {α : Type}
    {f : View σ (code c).locks → Except ε (_ × α)}
    {next : α → Prog ε (View σ (code c).locks) ρ} {v : View σ (code c).locks} {a : α}
    (hi : st.threads[i]? = some (.running c (.step f next)))
    (hf : f (view (code c).locks st.store) = .ok (v, a)) :
    Locked store { st.enter i (.running c (next a)) with store := overwrite st.store v }
      log serial where
  results := h.results
  objects k hk := by
    have hnot : k ∉ (code c).locks :=
      hk (.running c (next a)) (List.mem_of_getElem? (enter_thread hi _))
    refine (overwrite_of_not_mem hnot st.store v).trans ?_
    exact h.objects k (not_working_of_enter hi hnot hk)
  order j := by
    have horder := order_enter hi (.running c (next a)) rfl j
    exact (h.order j).trans (congrArg _ horder.symm)
  exclusive := h.exclusive_enter hi fun k hk => .inl hk
  running j c' rest hj := by
    by_cases hij : j = i
    · subst hij
      have hj' := (enter_thread hi (.running c (next a))).symm.trans hj
      cases hj'
      rw [view_overwrite, ← h.running j c _ hi, Prog.run_step_of_ok hf]
    · have hj' := (enter_thread_of_ne hij _).symm.trans hj
      rw [← h.running j c' rest hj']
      refine congrArg _ (view_congr fun k hk => overwrite_of_not_mem ?_ _ _)
      exact h.exclusive j i _ _ hj' hi hij k hk

/-- A call that ends its work is the last one of the serial calls. -/
theorem Locked.finish (h : Locked store st log serial)
    (hi : st.threads[i]? = some (.running c (.ret r))) :
    ∃ serial', Locked store (st.enter i (.releasing c 0 r)) (log ++ [⟨i, (c, r)⟩]) serial' := by
  have happly := Op.apply_of_ok (h.running i c _ hi).symm
  refine ⟨overwrite serial (view (code c).locks st.store), ?_, ?_, ?_⟩
  · refine ⟨?_, fun k hk => ?_, fun j => ?_⟩
    · rw [List.map_append, List.map_append, List.map_singleton, List.map_singleton,
        Run.replies_concat h.results, happly]
      rfl
    · by_cases hmem : k ∈ (code c).locks
      · rw [overwrite_of_mem hmem]
        rfl
      · rw [overwrite_of_not_mem hmem]
        exact h.objects k (not_working_of_enter hi hmem hk)
    · rw [Tagged.part_append, h.order j]
      by_cases hij : j = i
      · subst hij
        rw [enter_thread hi, hi, Tagged.part_cons_self]
        exact congrArg (· ++ _) (List.append_nil _)
      · rw [enter_thread_of_ne hij, Tagged.part_cons_of_ne (Ne.symm hij)]
        exact List.append_nil _
  · exact h.exclusive_enter hi fun k hk => .inl (List.mem_of_mem_drop hk)
  · intro j c' rest hj
    have hij : j ≠ i := by
      rintro rfl
      rw [enter_thread hi] at hj
      cases hj
    rw [enter_thread_of_ne hij] at hj
    refine (h.running j c' rest hj).trans ?_
    refine congrArg _ (view_congr fun k hk => (overwrite_of_not_mem ?_ _ _).symm)
    exact h.exclusive j i _ _ hj hi hij k hk

/-- A call that returns. -/
theorem Locked.back (h : Locked store st log serial) {released : Nat}
    (hi : st.threads[i]? = some (.releasing c released r)) :
    Locked store { st.enter i .outside with returned := st.returned ++ [⟨i, (c, r)⟩] }
      log serial where
  results := h.results
  objects k hk := h.objects k (not_working_of_enter hi List.not_mem_nil hk)
  order j := by
    change _ = Tagged.part j (st.returned ++ [⟨i, (c, r)⟩]) ++
      (st.enter i .outside).threads[j]?.elim [] Phase.ended
    rw [h.order j, Tagged.part_append]
    by_cases hij : j = i
    · subst hij
      rw [enter_thread hi, hi, Tagged.part_cons_self]
      exact (List.append_nil _).symm
    · rw [enter_thread_of_ne hij, Tagged.part_cons_of_ne (Ne.symm hij), Tagged.part_nil,
        List.append_nil]
  exclusive := h.exclusive_enter hi fun k hk => absurd hk List.not_mem_nil
  running j c' rest hj := by
    have hij : j ≠ i := by
      rintro rfl
      have hj' := (enter_thread hi .outside).symm.trans hj
      cases hj'
    exact h.running j c' rest ((enter_thread_of_ne hij _).symm.trans hj)

/-- Step lemma. -/
theorem Locked.step {e : Event ι} (h : Locked store st log serial) (hok : st.step e = .ok st') :
    ∃ serial', Locked store st' (st.record e log) serial' := by
  cases step_ok hok with
  | called hi =>
      exact ⟨serial, h.enter hi (fun k hk => absurd hk (by simp [Phase.held])) rfl rfl
        fun _ _ heq => by cases heq⟩
  | acquired hi hk hfree =>
      simp only [record, hi]
      refine ⟨serial, h.enter hi (fun k' hk' => ?_) rfl rfl fun _ _ heq => by cases heq⟩
      rw [Phase.held, List.take_add_one, hk, List.mem_append] at hk'
      rcases hk' with hmem | hmem
      · exact .inl hmem
      · rw [List.mem_singleton.mp hmem]
        exact .inr hfree
  | started hi hall =>
      simp only [record, hi]
      -- all locks are taken
      have hheld := List.take_of_length_le (List.getElem?_eq_none_iff.mp hall)
      refine ⟨serial, h.enter hi (fun k hk => .inl ?_) rfl rfl fun c rest heq => ?_⟩
      · rw [Phase.held, hheld]
        exact hk
      · cases heq
        refine congrArg _ (view_congr fun k hk => h.object_of_held hi rfl ?_)
        rw [Phase.held, hheld]
        exact hk
  | worked hi hf =>
      simp only [record, hi]
      exact ⟨serial, h.work hi hf⟩
  | ended hi =>
      simp only [record, hi]
      exact h.finish hi
  | released hi hlt =>
      simp only [record, hi]
      refine ⟨serial, h.enter hi (fun k hk => .inl ?_) rfl rfl fun _ _ heq => by cases heq⟩
      rw [Phase.held, ← List.drop_drop] at hk
      exact List.mem_of_mem_drop hk
  | returned hi hall =>
      simp only [record, hi]
      exact ⟨serial, h.back hi⟩

/-! ## Runs -/

theorem init_locked (n : Nat) (store : κ → σ) :
    Locked store (init n store : State code) [] store := by
  have houtside : ∀ (i : Nat) (p : Phase code),
      (init n store : State code).threads[i]? = some p → p = .outside := fun i p hi =>
    List.eq_of_mem_replicate (List.mem_of_getElem? hi)
  refine ⟨⟨rfl, fun _ _ => rfl, fun i => ?_⟩, fun i j p q hp hq _ k hk => ?_, fun i c rest hi => ?_⟩
  · cases hi : (init n store : State code).threads[i]? with
    | none => rfl
    | some p =>
        rw [houtside i p hi]
        rfl
  · rw [houtside i p hp] at hk
    exact absurd hk List.not_mem_nil
  · cases houtside i _ hi

theorem Locked.run {es : List (Event ι)} (h : Locked store st log serial)
    {log' : List (Tagged Nat (ι × ρ))}
    (hrun : Run.final (Run.recorded State.step record) (st, log) es = .ok (st', log')) :
    ∃ serial', Locked store st' log' serial' := by
  refine Run.final_invariant (J := fun s => ∃ serial', Locked store s.1 s.2 serial')
    (fun s e s' hs hok => ?_) ⟨serial, h⟩ hrun
  obtain ⟨hstep, hrecord⟩ := Run.recorded_ok hok
  obtain ⟨serial', hlocked⟩ := hs
  rw [hrecord]
  exact hlocked.step hstep

/-- The log only grows. -/
theorem log_grows {es : List (Event ι)} {log' : List (Tagged Nat (ι × ρ))}
    (hrun : Run.final (Run.recorded State.step record) (st, log) es = .ok (st', log')) :
    ∃ more, log' = log ++ more := by
  refine Run.final_invariant (J := fun s : State code × List _ => ∃ more, s.2 = log ++ more)
    (fun s e s' hs hok => ?_) ⟨[], (List.append_nil log).symm⟩ hrun
  obtain ⟨more, hmore⟩ := hs
  rw [(Run.recorded_ok hok).2, hmore]
  unfold record
  split
  · exact ⟨more, rfl⟩
  · split
    · exact ⟨more ++ [_], List.append_assoc ..⟩
    · exact ⟨more, rfl⟩

/-- What the threads that are outside do later comes behind all that has ended. -/
theorem Locked.realTime {es : List (Event ι)} (h : Locked store st log serial)
    {log' : List (Tagged Nat (ι × ρ))}
    (hrun : Run.final (Run.recorded State.step record) (st, log) es = .ok (st', log')) :
    ∃ more, log' = log ++ more ∧ ∀ i, st.threads[i]? = some .outside →
      Tagged.part i st.returned ++ Tagged.part i more =
        Tagged.part i st'.returned ++ st'.threads[i]?.elim [] Phase.ended := by
  obtain ⟨serial', h'⟩ := h.run hrun
  obtain ⟨more, rfl⟩ := log_grows hrun
  refine ⟨more, rfl, fun i hi => ?_⟩
  have horder := h.order i
  rw [hi] at horder
  rw [← h'.order i, Tagged.part_append, horder]
  exact congrArg (· ++ _) (List.append_nil _).symm

/-- A call that fails would fail by itself. -/
theorem Locked.fault (h : Locked store st log serial) {e : Event ι} {err : ε}
    (hfault : st.step e = .error (.fault err)) :
    ∃ i c rest, e = .step i ∧ st.threads[i]? = some (.running c rest) ∧
      (code c).apply serial = .error err := by
  cases e with
  | call i c =>
      rw [State.step] at hfault
      split at hfault
      case h_1 => cases hfault
      case h_2 => cases hfault
  | step i =>
      rw [State.step] at hfault
      split at hfault
      case h_1 =>
        split at hfault
        case h_1 =>
          split at hfault
          case isTrue => cases hfault
          case isFalse => cases hfault
        case h_2 => cases hfault
      case h_2 c α f next hi =>
        split at hfault
        case h_1 => cases hfault
        case h_2 err' hf =>
          cases hfault
          refine ⟨i, c, _, rfl, hi, ?_⟩
          rw [Op.apply, ← h.running i c _ hi, Prog.run_step_of_error hf]
          rfl
      case h_3 => cases hfault
      case h_4 =>
        split at hfault
        case isTrue => cases hfault
        case isFalse => cases hfault
      case h_5 => cases hfault

/-! ## The calls that have been made -/

/-- The call that an event makes. -/
def made : Event ι → Option ι
  | .call _ c => some c
  | .step _ => none

theorem made_step (log : List (Tagged Nat (ι × ρ))) {e : Event ι} (hok : st.step e = .ok st') :
    (((st.record e log).map fun x => x.entry.1) ++ st'.threads.flatMap Phase.unended).Perm
      ((log.map fun x => x.entry.1) ++ st.threads.flatMap Phase.unended ++ (made e).toList) := by
  -- a thread that stays in the same call, or outside
  have hsame : ∀ {i : Nat} {p : Phase code} (p' : Phase code), st.threads[i]? = some p →
      p'.unended = p.unended →
        ((st.enter i p').threads.flatMap Phase.unended).Perm
          (st.threads.flatMap Phase.unended) := by
    intro i p p' hi hunended
    have hperm := Threads.flatMap_set_perm Phase.unended hi p'
    rw [hunended] at hperm
    exact (List.perm_append_left_iff _).mp hperm
  cases step_ok hok with
  | called hi =>
      rename_i i c
      have hperm := Threads.flatMap_set_perm Phase.unended hi (.acquiring c 0)
      rw [List.append_assoc]
      exact (hperm.trans List.perm_append_comm).append_left _
  | acquired hi hk hfree =>
      simp only [record, hi, made, Option.toList_none, List.append_nil]
      exact List.Perm.append_left _ (hsame _ hi rfl)
  | started hi hall =>
      simp only [record, hi, made, Option.toList_none, List.append_nil]
      exact List.Perm.append_left _ (hsame _ hi rfl)
  | worked hi hf =>
      simp only [record, hi, made, Option.toList_none, List.append_nil]
      exact List.Perm.append_left _ (hsame _ hi rfl)
  | ended hi =>
      rename_i i c r
      simp only [record, hi, made, Option.toList_none, List.append_nil, List.map_append,
        List.append_assoc]
      exact (Threads.flatMap_set_perm Phase.unended hi (.releasing c 0 r)).append_left _
  | released hi hlt =>
      simp only [record, hi, made, Option.toList_none, List.append_nil]
      exact List.Perm.append_left _ (hsame _ hi rfl)
  | returned hi hall =>
      simp only [record, hi, made, Option.toList_none, List.append_nil]
      exact List.Perm.append_left _ (hsame _ hi rfl)

/-- The calls that have been made are in the log, or have not ended their work. -/
theorem made_run {es : List (Event ι)} {log' : List (Tagged Nat (ι × ρ))}
    (hrun : Run.final (Run.recorded State.step record) (st, log) es = .ok (st', log')) :
    ((log'.map fun x => x.entry.1) ++ st'.threads.flatMap Phase.unended).Perm
      ((log.map fun x => x.entry.1) ++ st.threads.flatMap Phase.unended ++
        es.filterMap made) := by
  induction es generalizing st log with
  | nil =>
      cases hrun
      rw [List.filterMap_nil, List.append_nil]
  | cons e es ih =>
      cases hstep : Run.recorded State.step record (st, log) e with
      | error err => simp [Run.final, hstep] at hrun
      | ok s =>
          rw [Run.final_cons_of_ok hstep] at hrun
          obtain ⟨hok, hrecord⟩ := Run.recorded_ok hstep
          have hfirst := made_step log hok
          rw [← hrecord] at hfirst
          refine (ih hrun).trans ((hfirst.append_right _).trans ?_)
          rw [List.append_assoc, List.filterMap_cons]
          cases made e with
          | none => exact List.Perm.refl _
          | some c => exact List.Perm.refl _

theorem made_of_init {n : Nat} {es : List (Event ι)}
    (hrun : Run.final (Run.recorded State.step record) (init n store, []) es = .ok (st, log)) :
    ((log.map fun x => x.entry.1) ++ st.threads.flatMap Phase.unended).Perm
      (es.filterMap made) := by
  have hnone : (init n store : State code).threads.flatMap Phase.unended = [] := by
    rw [List.flatMap_eq_nil_iff]
    intro p hp
    rw [List.eq_of_mem_replicate hp]
    rfl
  have hperm := made_run hrun
  rwa [hnone] at hperm

end State

end Locking
