import Netpp.Buffer.Fifo
import Netpp.Socket.Concurrent

/-!
# Byte arrays as queues between threads

Threads that write to byte arrays and retrieve from them use each array as a queue of
bytes. Whatever the schedule, the calls have the results that they have on queues, no call
fails, and an array that no thread is working on holds what its queue holds. So no byte is
lost, doubled or reordered, and the bytes of one write stay together.
-/

namespace Netpp

namespace SharedArrays

open Locking (State Phase Op)

/-- A call on the array with this number. -/
abbrev QueueCall := Tagged Nat (Queue.Call UInt8)

def QueueCall.toCall (x : QueueCall) : Call :=
  match x.entry with
  | .put data => .writeRaw x.tag data
  | .get length => .retrieveRaw x.tag length

def queueCode (x : QueueCall) : Op Nat ByteArray Fault Reply := code x.toCall

/-- The reply of a queue. -/
def queueReply : Queue.Call UInt8 → Nat × List UInt8 → Reply
  | .put _, _ => .done
  | .get _, r => .retrieved r.1 r.2

/-- The call on a family of queues. -/
def answer (q : Nat → List UInt8) (x : QueueCall) : (Nat → List UInt8) × Reply :=
  let r := Queue.answer (q x.tag) x.entry
  (Function.update q x.tag r.1, queueReply x.entry r.2)

def inputSize (x : QueueCall) : Nat := x.entry.input.length

/-- Threads that use the arrays as queues. -/
structure LinearQueues (s : State queueCode) (log : List (Tagged Nat (QueueCall × Reply)))
    (q : Nat → List UInt8) : Prop where
  results : Run.answers answer (fun _ => []) (log.map fun x => x.entry.1) =
    (q, log.map fun x => x.entry.2)
  arrays : ∀ k, (∀ p ∈ s.threads, k ∉ p.working) → (s.store k).Represents (q k)
  order : ∀ i, Tagged.part i log = Tagged.part i s.returned ++ s.threads[i]?.elim [] Phase.ended
  faults : ∀ e err, s.step e ≠ .error (.fault err)

/-- The arrays hold the queues, which have room for the calls to come. -/
def HoldsAll (calls : List QueueCall) (s : Nat → ByteArray) (q : Nat → List UInt8) : Prop :=
  ∀ k, ByteArray.Holds (2 ^ 62) (s k) (q k) ∧
    (q k).length + (calls.map inputSize).sum < 2 ^ 62

variable {calls : List QueueCall} {store : Nat → ByteArray} {q : Nat → List UInt8}

theorem answer_fst (q : Nat → List UInt8) (k : Nat) (c : Queue.Call UInt8) :
    (answer q ⟨k, c⟩).1 = Function.update q k (Queue.answer (q k) c).1 := rfl

/-- Step lemma: a call alone is answered as the queues answer it. -/
theorem HoldsAll.call {x : QueueCall} (h : HoldsAll (x :: calls) store q) :
    ∃ store', x.toCall.alone store = .ok (store', (answer q x).2) ∧
      HoldsAll calls store' (answer q x).1 := by
  obtain ⟨k, c⟩ := x
  obtain ⟨hholds, hroom⟩ := h k
  have hsize : inputSize ⟨k, c⟩ = c.input.length := rfl
  rw [List.map_cons, List.sum_cons, hsize] at hroom
  obtain ⟨b, hok, hholds'⟩ := hholds.call (c := c) le_rfl (by omega)
  have hlength := congrArg List.length (Queue.answer_conserves (q k) c)
  rw [List.length_append, List.length_append] at hlength
  refine ⟨Function.update store k b, ?_, fun k' => ?_⟩
  · cases c with
    | put data =>
        obtain ⟨b', hwrite, hb⟩ := Except.exists_of_map_eq_ok hok
        cases hb
        simp only [QueueCall.toCall, Call.alone, hwrite]
        rfl
    | get n =>
        have hget : (store k).retrieveRaw n = .ok (b, (Queue.answer (q k) (.get n)).2) := hok
        simp only [QueueCall.toCall, Call.alone, hget]
        rfl
  · rw [answer_fst]
    by_cases hk : k' = k
    · subst hk
      rw [Function.update_self, Function.update_self]
      exact ⟨hholds', by omega⟩
    · rw [Function.update_of_ne hk, Function.update_of_ne hk]
      obtain ⟨hother, hroom'⟩ := h k'
      rw [List.map_cons, List.sum_cons] at hroom'
      exact ⟨hother, by omega⟩

/-- Run lemma. -/
theorem replies_queue (calls : List QueueCall) (hroom : (calls.map inputSize).sum < 2 ^ 62) :
    ∃ store, Run.replies (fun s (x : QueueCall) => x.toCall.alone s) (fun _ => ByteArray.new)
        calls = .ok (store, (Run.answers answer (fun _ => []) calls).2) ∧
      HoldsAll [] store (Run.answers answer (fun _ => []) calls).1 :=
  Run.replies_simulation HoldsAll (fun _ _ _ _ h => h.call) calls fun _ =>
    ⟨ByteArray.new_holds _, by simpa using hroom⟩

/-- Under any schedule, threads that write to fresh arrays and retrieve from them use them
as queues. -/
theorem queues_linearizable {n : Nat} {es : List (Locking.Event QueueCall)}
    {s : State queueCode} {log : List (Tagged Nat (QueueCall × Reply))}
    (hrun : Run.final (Run.recorded State.step State.record)
      (State.init n fun _ => ByteArray.new, []) es = .ok (s, log))
    (hroom : ((es.filterMap State.made).map inputSize).sum < 2 ^ 62) :
    ∃ q, LinearQueues s log q := by
  obtain ⟨serial, hlocked⟩ := (State.init_locked n fun _ => ByteArray.new).run hrun
  have halone : (fun s c => (queueCode c).apply s) = fun s (x : QueueCall) => x.toCall.alone s := by
    funext s x
    exact apply_eq_alone x.toCall s
  have hresults := hlocked.results
  rw [halone] at hresults
  -- the bytes of the calls that have ended, and of those that have not
  have hsize := ((State.made_of_init hrun).map inputSize).sum_eq
  rw [List.map_append, List.sum_append] at hsize
  obtain ⟨store, hok, hholds⟩ := replies_queue (log.map fun x => x.entry.1) (by omega)
  rw [hresults] at hok
  obtain ⟨rfl, hreplies⟩ := Prod.mk.inj (Except.ok.inj hok)
  refine ⟨_, Prod.ext rfl hreplies.symm, fun k hk => ?_, hlocked.order, fun e err hfault => ?_⟩
  · rw [hlocked.objects k hk]
    exact (hholds k).1.represents le_rfl
  · obtain ⟨i, x, rest, -, hi, happly⟩ := hlocked.fault hfault
    -- the call that fails is one of those that have not ended
    have hmem : x ∈ s.threads.flatMap Phase.unended :=
      List.mem_flatMap.mpr ⟨_, List.mem_of_getElem? hi, List.mem_singleton_self x⟩
    have hle := List.le_sum_of_mem (List.mem_map_of_mem (f := inputSize) hmem)
    have hmore : (((log.map fun x => x.entry.1) ++ [x]).map inputSize).sum < 2 ^ 62 := by
      rw [List.map_append, List.sum_append, List.map_singleton, List.sum_singleton]
      omega
    obtain ⟨store', hok', -⟩ := replies_queue _ hmore
    have hconcat := Run.replies_concat hresults x
    have hfails : x.toCall.alone serial = .error err :=
      (apply_eq_alone x.toCall serial).symm.trans happly
    rw [hok', hfails] at hconcat
    cases hconcat

/-- Two threads write to an array, one after the other, and a third one, which has called before
the second write, retrieves a byte of each. -/
def twoWriters : List (Locking.Event QueueCall) :=
  [.call 1 ⟨5, .put [9]⟩, .call 2 ⟨5, .get 2⟩] ++ List.replicate 8 (.step 1) ++
    [.call 0 ⟨5, .put [7, 8]⟩] ++ List.replicate 8 (.step 0) ++ List.replicate 8 (.step 2)

theorem queues_linearizable_three : ∃ (s : State queueCode)
    (log : List (Tagged Nat (QueueCall × Reply))) (q : Nat → List UInt8),
    Run.final (Run.recorded State.step State.record)
        (State.init 3 fun _ => ByteArray.new, []) twoWriters = .ok (s, log) ∧
      s.returned.map (fun x => x.entry.2) = [.done, .done, .retrieved 2 [9, 7]] ∧
        LinearQueues s log q := by
  obtain ⟨s, log, hrun, hreturned⟩ : ∃ (s : State queueCode)
      (log : List (Tagged Nat (QueueCall × Reply))),
      Run.final (Run.recorded State.step State.record)
          (State.init 3 fun _ => ByteArray.new, []) twoWriters = .ok (s, log) ∧
        s.returned.map (fun x => x.entry.2) = [.done, .done, .retrieved 2 [9, 7]] :=
    ⟨_, _, rfl, rfl⟩
  obtain ⟨q, h⟩ := queues_linearizable hrun (by decide)
  exact ⟨s, log, q, hrun, hreturned, h⟩

end SharedArrays

end Netpp
