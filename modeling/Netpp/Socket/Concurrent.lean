import Netpp.Library.LockOrder
import Netpp.Library.Serializable
import Netpp.Socket.Calls

/-!
# Byte arrays that threads share

Any number of threads call the methods of any number of byte arrays, and read from and
write to sockets with them. Each round of a loop of a method is a step, so a thread that
did not take the mutex would see half of a write. As every method takes it, the threads
see whole calls only: `calls_linearizable` says that all results are those of the functions of
the other modules, called one after the other, in an order that respects the time at
which the calls were made.

Only a sequential reader holds more than one mutex at a time. If all of them take the
arrays in the same order, the threads do not deadlock; two that take two arrays in
opposite orders may wait for each other for ever.
-/

namespace Netpp

namespace SharedArrays

open Locking (State Phase)

/-- What holds in every reachable state of the threads. The log has the calls in the
order in which they did their work, with their results. -/
structure Linearizable (store : Nat → ByteArray) (s : State code)
    (log : List (Tagged Nat (Call × Reply))) (serial : Nat → ByteArray) : Prop where
  /-- Made one after the other, the calls have these results and lead to `serial`. -/
  results : Run.replies Call.alone store (log.map fun x => x.entry.1) =
    .ok (serial, log.map fun x => x.entry.2)
  /-- An array that no thread is working on is as it is in `serial`. -/
  arrays : ∀ k, (∀ p ∈ s.threads, k ∉ p.working) → s.store k = serial k
  /-- The calls of a thread are in the log in its order: those that have returned, and
  one that is about to. -/
  order : ∀ i, Tagged.part i log = Tagged.part i s.returned ++ s.threads[i]?.elim [] Phase.ended
  /-- A call that fails would also have failed alone. -/
  faults : ∀ e err, s.step e = .error (.fault err) → ∃ i c rest, e = .step i ∧
    s.threads[i]? = some (.running c rest) ∧ c.alone serial = .error err
  /-- What a thread calls from now on comes behind all that is in the log. -/
  realTime : ∀ es s' log', Run.final (Run.recorded State.step State.record) (s, log) es =
      .ok (s', log') → ∃ more, log' = log ++ more ∧ ∀ i, s.threads[i]? = some .outside →
        Tagged.part i s.returned ++ Tagged.part i more =
          Tagged.part i s'.returned ++ s'.threads[i]?.elim [] Phase.ended

theorem Linearizable.of_locked {store serial : Nat → ByteArray} {s : State code}
    {log : List (Tagged Nat (Call × Reply))} (h : State.Locked store s log serial) :
    Linearizable store s log serial where
  results := by
    have halone : (fun s c => (code c).apply s) = Call.alone := by
      funext s c
      exact apply_eq_alone c s
    rw [← halone]
    exact h.results
  arrays := h.objects
  order := h.order
  faults e err hfault := by
    obtain ⟨i, c, rest, he, hi, happly⟩ := h.fault hfault
    exact ⟨i, c, rest, he, hi, (apply_eq_alone c serial).symm.trans happly⟩
  realTime es s' log' hrun := h.realTime hrun

/-- The methods of byte arrays are atomic for the threads that call them, and every call
that has been made is in the log, once, or has still to do its work. -/
theorem calls_linearizable {n : Nat} {store : Nat → ByteArray} {es : List (Locking.Event Call)}
    {s : State code} {log : List (Tagged Nat (Call × Reply))}
    (hrun : Run.final (Run.recorded State.step State.record) (State.init n store, []) es =
      .ok (s, log)) : ∃ serial, Linearizable store s log serial ∧
        ((log.map fun x => x.entry.1) ++ s.threads.flatMap Phase.unended).Perm
          (es.filterMap State.made) := by
  obtain ⟨serial, hlocked⟩ := (State.init_locked n store).run hrun
  exact ⟨serial, .of_locked hlocked, State.made_of_init hrun⟩

/-- One thread writes a byte while another one waits for the mutex; then the second one
retrieves the byte, and the first one asks for what is left. -/
def writeThenRetrieve : List (Locking.Event Call) :=
  [.call 0 (.writeRaw 5 [7]), .call 1 (.retrieveRaw 5 1)] ++ List.replicate 7 (.step 0) ++
    List.replicate 4 (.step 1) ++ [.step 0, .call 0 (.readableBytes 5)] ++
    List.replicate 4 (.step 1) ++ List.replicate 6 (.step 0)

theorem calls_linearizable_two : ∃ (s : State code) (log : List (Tagged Nat (Call × Reply)))
    (serial : Nat → ByteArray),
    Run.final (Run.recorded State.step State.record) (State.init 2 fun _ => ByteArray.new, [])
        writeThenRetrieve = .ok (s, log) ∧
      s.returned.map (fun x => x.entry.2) = [.done, .retrieved 1 [7], .bytes 0] ∧
      Linearizable (fun _ => ByteArray.new) s log serial ∧
        ((log.map fun x => x.entry.1) ++ s.threads.flatMap Phase.unended).Perm
          (writeThenRetrieve.filterMap State.made) := by
  obtain ⟨s, log, hrun, hreturned⟩ : ∃ (s : State code) (log : List (Tagged Nat (Call × Reply))),
      Run.final (Run.recorded State.step State.record) (State.init 2 fun _ => ByteArray.new, [])
          writeThenRetrieve = .ok (s, log) ∧
        s.returned.map (fun x => x.entry.2) = [.done, .retrieved 1 [7], .bytes 0] :=
    ⟨_, _, rfl, rfl⟩
  obtain ⟨serial, h⟩ := calls_linearizable hrun
  exact ⟨s, log, serial, hrun, hreturned, h⟩

/-! ## Deadlocks -/

/-- The arrays of a sequential reader are taken in ascending order. -/
def Call.Ascending (rank : Nat → Nat) : Call → Prop
  | sendAll ks _ _ => ks.Pairwise fun k k' => rank k < rank k'
  | _ => True

theorem Call.Ascending.code {rank : Nat → Nat} {c : Call} (h : c.Ascending rank) :
    (code c).Ascending rank := by
  cases c with
  | sendAll ks nodup answer => exact h
  | _ => exact List.pairwise_singleton _ _

/-- If the sequential readers take their arrays in a common order, then as long as a call
has not returned a thread can make a step, and without new calls the threads cannot go on
for ever. -/
theorem deadlock_free {rank : Nat → Nat} {n : Nat} {store : Nat → ByteArray}
    {es : List (Locking.Event Call)} {s : State code}
    (hascending : ∀ i c, Locking.Event.call i c ∈ es → c.Ascending rank)
    (hrun : Run.final State.step (State.init n store) es = .ok s) :
    ((∃ p ∈ s.threads, p ≠ .outside) → ∃ i, s.step (.step i) ≠ .error .disabled) ∧
      Acc (fun s' s : State code => ∃ i, s.step (.step i) = .ok s') s := by
  have hcalls := State.calls_of_run (P := fun c => (code c).Ascending rank)
    (fun i c hmem => (hascending i c hmem).code) (fun p hp c hc => ?_) hrun
  · refine ⟨?_, State.step_wf.apply s⟩
    rintro ⟨p, hp, hcall⟩
    exact State.progress hcalls hp hcall
  · rw [List.eq_of_mem_replicate hp] at hc
    cases hc

/-- Two threads send the same two arrays, in ascending order. -/
theorem deadlock_free_two : ∃ s : State code,
    Run.final State.step (State.init 2 fun _ => ByteArray.new)
        [.call 0 (.sendAll [0, 1] (by decide) (.done 1)),
          .call 1 (.sendAll [0, 1] (by decide) (.done 1)), .step 0] = .ok s ∧
      ((∃ p ∈ s.threads, p ≠ .outside) → ∃ i, s.step (.step i) ≠ .error .disabled) ∧
        Acc (fun s' s : State code => ∃ i, s.step (.step i) = .ok s') s := by
  have hascending : ∀ i c, Locking.Event.call i c ∈
      [.call 0 (.sendAll [0, 1] (by decide) (.done 1)),
        .call 1 (.sendAll [0, 1] (by decide) (.done 1)), .step 0] → Call.Ascending id c := by
    intro i c hmem
    have hc : c = .sendAll [0, 1] (by decide) (.done 1) := by
      simp only [List.mem_cons, Locking.Event.call.injEq, List.not_mem_nil, reduceCtorEq,
        or_false] at hmem
      exact hmem.elim And.right And.right
    rw [hc]
    exact List.pairwise_pair.mpr (by decide)
  obtain ⟨s, hrun⟩ : ∃ s : State code, Run.final State.step (State.init 2 fun _ => ByteArray.new)
      [.call 0 (.sendAll [0, 1] (by decide) (.done 1)),
        .call 1 (.sendAll [0, 1] (by decide) (.done 1)), .step 0] = .ok s := ⟨_, rfl⟩
  exact ⟨s, hrun, deadlock_free hascending hrun⟩

/-- Two threads send the same two arrays, in opposite orders: none can make a step. -/
theorem deadlock_opposite : ∃ s : State code,
    Run.final State.step (State.init 2 fun _ => ByteArray.new)
        [.call 0 (.sendAll [0, 1] (by decide) (.done 1)),
          .call 1 (.sendAll [1, 0] (by decide) (.done 1)), .step 0, .step 1] = .ok s ∧
      (∃ p ∈ s.threads, p ≠ .outside) ∧ ∀ i, s.step (.step i) = .error .disabled := by
  refine ⟨_, rfl, ⟨_, List.mem_cons_self .., fun h => by cases h⟩, fun i => ?_⟩
  rcases i with _ | _ | i
  · rfl
  · rfl
  · rfl

end SharedArrays

end Netpp
