import Mathlib.Data.Finset.Max
import Mathlib.Logic.Hydra
import Netpp.Library.Locking
import Netpp.Library.Threads

/-!
# Locks taken in an order

If every call takes its locks in ascending order of some rank, the threads do not
deadlock: among the locks that are waited for, the thread that holds the highest one
cannot wait itself. Without new calls the threads do not go on for ever either, whatever
the order in which they are scheduled, so the calls return unless one of them fails.
-/

namespace Locking

variable {κ σ ε ρ ι : Type} [DecidableEq κ] {k k' : κ} {code : ι → Op κ σ ε ρ}

/-- The call takes its locks in the order of the ranks. -/
def Op.Ascending (op : Op κ σ ε ρ) (rank : κ → Nat) : Prop :=
  op.locks.Pairwise fun k k' => rank k < rank k'

/-- The call that the thread is in. -/
def Phase.call : Phase code → Option ι
  | outside => none
  | acquiring c _ => some c
  | running c _ => some c
  | releasing c _ _ => some c

/-- The lock that the thread takes next. -/
def Phase.wants : Phase code → Option κ
  | acquiring c taken => (code c).locks[taken]?
  | _ => none

/-- The phases that may follow on each other within a call. -/
inductive Phase.Follows : Phase code → Phase code → Prop
  | acquired {c : ι} {taken : Nat} (hlt : taken < (code c).locks.length) :
      Follows (.acquiring c (taken + 1)) (.acquiring c taken)
  | started {c : ι} {taken : Nat} : Follows (.running c (code c).body) (.acquiring c taken)
  | worked {c : ι} {α : Type} {f : View σ (code c).locks → Except ε (_ × α)}
      {next : α → Prog ε (View σ (code c).locks) ρ} {a : α} :
      Follows (.running c (next a)) (.running c (.step f next))
  | ended {c : ι} {r : ρ} : Follows (.releasing c 0 r) (.running c (.ret r))
  | released {c : ι} {released : Nat} {r : ρ} (hlt : released < (code c).locks.length) :
      Follows (.releasing c (released + 1) r) (.releasing c released r)
  | returned {c : ι} {released : Nat} {r : ρ} : Follows .outside (.releasing c released r)

/-! ## Every call comes to an end -/

omit [DecidableEq κ] in
theorem Phase.acc_outside : Acc Phase.Follows (.outside : Phase code) :=
  ⟨_, fun _ h => by cases h⟩

omit [DecidableEq κ] in
theorem Phase.acc_releasing (c : ι) (r : ρ) (released : Nat) :
    Acc Phase.Follows (.releasing c released r : Phase code) := by
  -- the locks that are left
  induction hleft : (code c).locks.length - released generalizing released with
  | zero =>
      refine ⟨_, fun p h => ?_⟩
      cases h with
      | released hlt => omega
      | returned => exact acc_outside
  | succ n ih =>
      refine ⟨_, fun p h => ?_⟩
      cases h with
      | released hlt => exact ih (released + 1) (by omega)
      | returned => exact acc_outside

omit [DecidableEq κ] in
theorem Phase.acc_running (c : ι) (rest : Prog ε (View σ (code c).locks) ρ) :
    Acc Phase.Follows (.running c rest : Phase code) := by
  induction rest with
  | ret r =>
      refine ⟨_, fun p h => ?_⟩
      cases h with
      | ended => exact acc_releasing c r 0
  | step f next ih =>
      refine ⟨_, fun p h => ?_⟩
      cases h with
      | worked => exact ih _

omit [DecidableEq κ] in
theorem Phase.acc_acquiring (c : ι) (taken : Nat) :
    Acc Phase.Follows (.acquiring c taken : Phase code) := by
  induction hleft : (code c).locks.length - taken generalizing taken with
  | zero =>
      refine ⟨_, fun p h => ?_⟩
      cases h with
      | acquired hlt => omega
      | started => exact acc_running c _
  | succ n ih =>
      refine ⟨_, fun p h => ?_⟩
      cases h with
      | acquired hlt => exact ih (taken + 1) (by omega)
      | started => exact acc_running c _

omit [DecidableEq κ] in
theorem Phase.follows_wf : WellFounded fun p p' : Phase code => p.Follows p' := by
  refine ⟨fun p => ?_⟩
  cases p with
  | outside => exact acc_outside
  | acquiring c taken => exact acc_acquiring c taken
  | running c rest => exact acc_running c rest
  | releasing c released r => exact acc_releasing c r released

namespace State

variable {st st' : State code} {i : Nat} {p q : Phase code} {c : ι} {rank : κ → Nat}

theorem step_follows (hok : st.step (.step i) = .ok st') :
    ∃ p p', st.threads[i]? = some p ∧ st'.threads = st.threads.set i p' ∧ p'.Follows p := by
  cases step_ok hok with
  | acquired hi hk hfree => exact ⟨_, _, hi, rfl, .acquired (List.getElem?_eq_some_iff.mp hk).1⟩
  | started hi hall => exact ⟨_, _, hi, rfl, .started⟩
  | worked hi hf => exact ⟨_, _, hi, rfl, .worked⟩
  | ended hi => exact ⟨_, _, hi, rfl, .ended⟩
  | released hi hlt => exact ⟨_, _, hi, rfl, .released hlt⟩
  | returned hi hall => exact ⟨_, _, hi, rfl, .returned⟩

/-- Without new calls the threads come to rest, however they are scheduled. -/
theorem step_wf : WellFounded fun st' st : State code => ∃ i, st.step (.step i) = .ok st' := by
  refine Subrelation.wf ?_ (InvImage.wf (fun st : State code => Multiset.ofList st.threads)
    Phase.follows_wf.cutExpand)
  rintro st' st ⟨i, hok⟩
  obtain ⟨p, p', hi, hthreads, hfollows⟩ := step_follows hok
  have hperm := Threads.filterMap_set_perm some hi p'
  rw [List.filterMap_some, List.filterMap_some] at hperm
  refine ⟨{p'}, p, fun q hq => ?_, ?_⟩
  · rwa [Multiset.mem_singleton.mp hq]
  · simp only [hthreads]
    rw [add_comm, add_comm (Multiset.ofList st.threads)]
    exact Multiset.coe_eq_coe.mpr hperm

/-! ## No deadlock -/

/-- A thread that cannot make a step is not in a call, or waits for a lock. -/
theorem wants_of_disabled (hi : st.threads[i]? = some p)
    (hdisabled : st.step (.step i) = .error .disabled) (hp : p ≠ .outside) :
    ∃ k, p.wants = some k ∧ ¬st.Free k := by
  cases p with
  | outside => exact absurd rfl hp
  | acquiring c taken =>
      simp only [step, hi] at hdisabled
      split at hdisabled
      case h_1 k hk =>
        split at hdisabled
        case isTrue => cases hdisabled
        case isFalse hheld => exact ⟨k, hk, hheld⟩
      case h_2 => cases hdisabled
  | running c rest =>
      cases rest with
      | ret r =>
          simp only [step, hi] at hdisabled
          cases hdisabled
      | step f next =>
          simp only [step, hi] at hdisabled
          split at hdisabled
          case h_1 => cases hdisabled
          case h_2 => cases hdisabled
  | releasing c released r =>
      simp only [step, hi] at hdisabled
      split at hdisabled
      case isTrue => cases hdisabled
      case isFalse => cases hdisabled

omit [DecidableEq κ] in
/-- A thread that waits holds locks of lower rank only. -/
theorem rank_lt_of_wants (hascending : ∀ c, p.call = some c → (code c).Ascending rank)
    (hheld : k ∈ p.held) (hwants : p.wants = some k') : rank k < rank k' := by
  cases p with
  | acquiring c taken =>
      have hpairwise := hascending c rfl
      rw [Op.Ascending, ← List.take_append_drop taken (code c).locks,
        List.pairwise_append] at hpairwise
      refine hpairwise.2.2 k hheld k' (List.mem_of_getElem? (i := 0) ?_)
      rw [List.getElem?_drop]
      exact hwants
  | _ => cases hwants

/-- If a thread is in a call, a thread can make a step. -/
theorem progress (hascending : ∀ p ∈ st.threads, ∀ c, p.call = some c → (code c).Ascending rank)
    (hp : p ∈ st.threads) (hcall : p ≠ .outside) : ∃ i, st.step (.step i) ≠ .error .disabled := by
  by_contra hstuck
  have hwants : ∀ q ∈ st.threads, q ≠ .outside → ∃ k, q.wants = some k ∧ ¬st.Free k := by
    intro q hq hout
    obtain ⟨j, hj⟩ := List.mem_iff_getElem?.mp hq
    exact wants_of_disabled hj (not_not.mp (not_exists.mp hstuck j)) hout
  -- the lock of the highest rank that is waited for
  let waited := (st.threads.filterMap Phase.wants).toFinset
  have hwaited : ∀ q ∈ st.threads, ∀ k, q.wants = some k → k ∈ waited := fun q hq k hk =>
    List.mem_toFinset.mpr (List.mem_filterMap.mpr ⟨q, hq, hk⟩)
  obtain ⟨k₀, hk₀, -⟩ := hwants p hp hcall
  obtain ⟨k, hk, hmax⟩ := Finset.exists_max_image waited rank ⟨k₀, hwaited p hp k₀ hk₀⟩
  obtain ⟨q, hq, hqk⟩ := List.mem_filterMap.mp (List.mem_toFinset.mp hk)
  have hheld : ¬st.Free k := by
    have hout : q ≠ .outside := by
      rintro rfl
      cases hqk
    obtain ⟨k₁, hk₁, hheld⟩ := hwants q hq hout
    rw [hqk] at hk₁
    cases hk₁
    exact hheld
  -- the thread that holds it waits for one of a higher rank
  obtain ⟨t, ht, htk⟩ : ∃ t ∈ st.threads, k ∈ t.held := by
    by_contra hnone
    exact hheld fun t ht htk => hnone ⟨t, ht, htk⟩
  have hout : t ≠ .outside := by
    rintro rfl
    exact absurd htk List.not_mem_nil
  obtain ⟨k', hk', -⟩ := hwants t ht hout
  have hlt := rank_lt_of_wants (hascending t ht) htk hk'
  have hle := hmax k' (hwaited t ht k' hk')
  omega

/-- The calls that the threads are in are among those that have been made. -/
theorem calls_of_run {P : ι → Prop} {es : List (Event ι)}
    (hevents : ∀ i c, Event.call i c ∈ es → P c)
    (hcalls : ∀ p ∈ st.threads, ∀ c, p.call = some c → P c)
    (hrun : Run.final step st es = .ok st') : ∀ p ∈ st'.threads, ∀ c, p.call = some c → P c := by
  refine Run.final_invariant_of_mem
    (J := fun s : State code => ∀ p ∈ s.threads, ∀ c, p.call = some c → P c)
    (fun s e s' he hs hok => ?_) hcalls hrun
  -- the new phase of a thread is one of the same call
  have hset : ∀ (i : Nat) (p' : Phase code), (∀ c, p'.call = some c → P c) →
      ∀ p ∈ s.threads.set i p', ∀ c, p.call = some c → P c := by
    intro i p' hp' p hp
    rcases List.mem_or_eq_of_mem_set hp with hmem | rfl
    · exact hs p hmem
    · exact hp'
  have hsame : ∀ {i : Nat} {p : Phase code} (p' : Phase code), s.threads[i]? = some p →
      p'.call = p.call → ∀ q ∈ s.threads.set i p', ∀ c, q.call = some c → P c := by
    intro i p p' hi hcall
    apply hset
    rw [hcall]
    exact hs p (List.mem_of_getElem? hi)
  cases step_ok hok with
  | called hi =>
      apply hset
      intro c hc
      cases hc
      exact hevents _ _ he
  | acquired hi hk hfree => exact hsame _ hi rfl
  | started hi hall => exact hsame _ hi rfl
  | worked hi hf => exact hsame _ hi rfl
  | ended hi => exact hsame _ hi rfl
  | released hi hlt => exact hsame _ hi rfl
  | returned hi hall =>
      apply hset
      intro c hc
      cases hc

end State

end Locking
