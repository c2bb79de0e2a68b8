import Netpp.Buffer.RetrieveRaw
import Netpp.Library.Queue
import Netpp.Library.Run

/-!
# A byte array is a queue

The abstract model of a byte array is a first-in first-out queue of bytes.
`Holds b q` is the relation of the simulation: the array `b` is well formed and
its unread bytes are `q`. `Represents b q` is what a caller sees of this
relation: the counts, the invariant of the nodes and the next retrieval.
-/

namespace Netpp

namespace ByteArray

/-- `writeRaw` and `retrieveRaw` as the calls of a queue. -/
def call (b : ByteArray) : Queue.Call UInt8 → Except Fault (ByteArray × Nat × List UInt8)
  | .put data => (b.writeRaw data).map fun b' => (b', 0, [])
  | .get length => b.retrieveRaw length

/-- The byte array is well formed, its unread bytes are `q`, and its nodes take
no more memory than an array needs that never holds `limit` bytes. -/
def Holds (limit : Nat) (b : ByteArray) (q : List UInt8) : Prop :=
  b.unread = q ∧ 1024 * b.nodes.length ≤ 2 * (limit + 1024) ∧ ∃ R W, b.Layout R W

/-- What can be observed of an array that holds `q`. -/
structure Represents (b : ByteArray) (q : List UInt8) : Prop where
  unread : b.unread = q
  nodeInvariant : b.NodeInvariant
  readableBytes : b.readableBytes = q.length
  writeableBytes : b.writeableBytes = b.freeSpace
  /-- Retrieving no more than there is gives the first bytes. -/
  retrieve : ∀ n, n ≤ q.length → ∃ b', b.retrieveRaw n = .ok (b', n, q.take n) ∧
    b'.unread = q.drop n
  /-- Retrieving more changes nothing. -/
  refuse : ∀ n, q.length < n → b.retrieveRaw n = .ok (b, 0, [])

variable {limit : Nat} {b : ByteArray} {q : List UInt8}

theorem new_holds (limit : Nat) : Holds limit new [] := by
  refine ⟨rfl, ?_, 0, 0, new_layout⟩
  change 1024 * 1 ≤ _
  omega

theorem Holds.readableBytes (h : Holds limit b q) : b.readableBytes = q.length := by
  obtain ⟨rfl, -, R, W, hlayout⟩ := h
  exact hlayout.readableBytes_eq

theorem Holds.nodes_lt (h : Holds limit b q) (hlimit : limit ≤ 2 ^ 62) :
    1024 * b.nodes.length < 2 ^ 64 := by
  have hnodes := h.2.1
  omega

/-- A write appends, as long as the bytes in the array stay below the limit. -/
theorem Holds.writeRaw (h : Holds limit b q) (data : List UInt8) (hlimit : limit ≤ 2 ^ 62)
    (hsize : q.length + data.length < limit) :
    ∃ b', b.writeRaw data = .ok b' ∧ Holds limit b' (q ++ data) := by
  have hreadable := h.readableBytes
  obtain ⟨rfl, hnodes, R, W, hlayout⟩ := h
  obtain ⟨b', R', hok, hlayout', hunread, hlength⟩ :=
    hlayout.writeRaw data (by omega) (by omega)
  exact ⟨b', hok, hunread, by omega, R', _, hlayout'⟩

/-- Several writes append one after the other. -/
theorem Holds.writeRaw_all (h : Holds limit b q) {more : List (List UInt8)}
    (hlimit : limit ≤ 2 ^ 62) (hsize : q.length + more.flatten.length < limit) :
    ∃ b', Run.final ByteArray.writeRaw b more = .ok b' ∧ Holds limit b' (q ++ more.flatten) := by
  induction more generalizing b q with
  | nil => exact ⟨b, rfl, by simpa using h⟩
  | cons data more ih =>
      rw [List.flatten_cons, List.length_append] at hsize
      obtain ⟨b₁, hok, hholds⟩ := h.writeRaw data hlimit (by omega)
      obtain ⟨b', hfinal, hholds'⟩ := ih hholds (by rw [List.length_append]; omega)
      refine ⟨b', by rw [Run.final_cons_of_ok hok, hfinal], ?_⟩
      rwa [List.flatten_cons, ← List.append_assoc]

/-- A retrieval of no more bytes than there are takes the first ones. -/
theorem Holds.retrieveRaw (h : Holds limit b q) {n : Nat} (hlimit : limit ≤ 2 ^ 62)
    (hn : n ≤ q.length) :
    ∃ b', b.retrieveRaw n = .ok (b', n, q.take n) ∧ Holds limit b' (q.drop n) := by
  have hreadable := h.readableBytes
  obtain ⟨rfl, hnodes, R, W, hlayout⟩ := h
  obtain ⟨b', hok, hlayout', hunread, hlength⟩ :=
    hlayout.retrieveRaw n (by omega) (by omega)
  exact ⟨b', hok, hunread, by omega, _, _, hlayout'⟩

theorem Holds.retrieveRaw_of_lt (h : Holds limit b q) {n : Nat} (hn : q.length < n) :
    b.retrieveRaw n = .ok (b, 0, []) :=
  ByteArray.retrieveRaw_of_lt (by rwa [h.readableBytes])

theorem Holds.represents (h : Holds limit b q) (hlimit : limit ≤ 2 ^ 62) : b.Represents q where
  unread := h.1
  nodeInvariant := by
    obtain ⟨-, -, R, W, hlayout⟩ := h
    exact hlayout.nodeInvariant
  readableBytes := h.readableBytes
  writeableBytes := by
    obtain ⟨-, -, R, W, hlayout⟩ := h
    exact hlayout.writeableBytes_eq
  retrieve n hn := by
    obtain ⟨b', hok, hholds⟩ := h.retrieveRaw hlimit hn
    exact ⟨b', hok, hholds.1⟩
  refuse n hn := h.retrieveRaw_of_lt hn

/-- Step lemma: a call is answered as the queue answers it. -/
theorem Holds.call (h : Holds limit b q) {c : Queue.Call UInt8} (hlimit : limit ≤ 2 ^ 62)
    (hsize : q.length + c.input.length < limit) :
    ∃ b', b.call c = .ok (b', (Queue.answer q c).2) ∧
      Holds limit b' (Queue.answer q c).1 := by
  cases c with
  | put data =>
      obtain ⟨b', hok, hholds⟩ := h.writeRaw data hlimit hsize
      refine ⟨b', ?_, hholds⟩
      rw [ByteArray.call, hok]
      rfl
  | get n =>
      rcases Nat.lt_or_ge q.length n with hn | hn
      · rw [Queue.answer_get_of_lt hn]
        exact ⟨b, h.retrieveRaw_of_lt hn, h⟩
      · rw [Queue.answer_get_of_le hn]
        exact h.retrieveRaw hlimit hn

/-- Run lemma: a fresh array answers a sequence of calls as an empty queue does
and ends up holding what the queue holds. -/
theorem replies_holds (calls : List (Queue.Call UInt8))
    (hsize : (calls.flatMap Queue.Call.input).length < 2 ^ 62) :
    ∃ b, Run.replies call new calls = .ok (b, (Run.answers Queue.answer [] calls).2) ∧
      Holds (2 ^ 62) b (Run.answers Queue.answer [] calls).1 := by
  have hstep : ∀ (c : Queue.Call UInt8) (cs : List (Queue.Call UInt8)) (b : ByteArray)
      (q : List UInt8),
      Holds (2 ^ 62) b q ∧ q.length + ((c :: cs).flatMap Queue.Call.input).length < 2 ^ 62 →
      ∃ b', b.call c = .ok (b', (Queue.answer q c).2) ∧
        Holds (2 ^ 62) b' (Queue.answer q c).1 ∧
        (Queue.answer q c).1.length + (cs.flatMap Queue.Call.input).length < 2 ^ 62 := by
    rintro c cs b q ⟨hholds, hbound⟩
    rw [List.flatMap_cons, List.length_append] at hbound
    obtain ⟨b', hok, hholds'⟩ := hholds.call (c := c) le_rfl (by omega)
    have hlength := congrArg List.length (Queue.answer_conserves q c)
    rw [List.length_append, List.length_append] at hlength
    exact ⟨b', hok, hholds', by omega⟩
  obtain ⟨b, hrun, hholds, -⟩ := Run.replies_simulation
    (fun cs b q => Holds (2 ^ 62) b q ∧ q.length + (cs.flatMap Queue.Call.input).length < 2 ^ 62)
    hstep calls (s := new) (t := []) ⟨new_holds _, by simpa using hsize⟩
  exact ⟨b, hrun, hholds⟩

/-- Every sequence of writes and retrievals on a fresh byte array is answered as
a queue answers it, and leaves an array that represents the queue. -/
theorem calls_refine_queue (calls : List (Queue.Call UInt8))
    (hsize : (calls.flatMap Queue.Call.input).length < 2 ^ 62) :
    ∃ b, Run.replies call new calls = .ok (b, (Run.answers Queue.answer [] calls).2) ∧
      b.Represents (Run.answers Queue.answer [] calls).1 := by
  obtain ⟨b, hrun, hholds⟩ := replies_holds calls hsize
  exact ⟨b, hrun, hholds.represents le_rfl⟩

/-- Two writes and two retrievals, of which the second asks for too much. -/
theorem calls_refine_queue_four :
    ∃ b, Run.replies call new [.put [1, 2], .put [3], .get 2, .get 2] =
        .ok (b, [(0, []), (0, []), (2, [1, 2]), (0, [])]) ∧ b.Represents [3] :=
  calls_refine_queue [.put [1, 2], .put [3], .get 2, .get 2] (by decide)

/-- The bytes retrieved so far and the unread ones are the bytes written. -/
theorem calls_conserve (calls : List (Queue.Call UInt8))
    (hsize : (calls.flatMap Queue.Call.input).length < 2 ^ 62) :
    ∃ b replies, Run.replies call new calls = .ok (b, replies) ∧
      replies.flatMap Prod.snd ++ b.unread = calls.flatMap Queue.Call.input := by
  obtain ⟨b, hrun, hunread, -⟩ := replies_holds calls hsize
  exact ⟨b, _, hrun, by rw [hunread, Queue.answers_conserve, List.nil_append]⟩

/-! ## Runs with one more operation -/

/-- No machine has this much memory: a write that needs it fails. -/
def memoryLimit : Nat := 2 ^ 60

/-- A call of the queue, or an operation `adjust` with its argument. -/
inductive Op (κ : Type) where
  | call (c : Queue.Call UInt8)
  | adjust (arg : κ)

def step {κ : Type} (adjust : ByteArray → κ → Except Fault ByteArray) (b : ByteArray) :
    Op κ → Except Fault ByteArray
  | .call c =>
      if memoryLimit ≤ b.readableBytes + c.input.length then .error .badAlloc
      else (b.call c).map Prod.fst
  | .adjust arg => adjust b arg

/-- A call on a machine with `limit` bytes of memory, where a write that needs as much
fails. -/
def callWithin (limit : Nat) (b : ByteArray) (c : Queue.Call UInt8) : Except Fault ByteArray :=
  if limit ≤ b.readableBytes + c.input.length then .error .badAlloc
  else (b.call c).map Prod.fst

/-- The arrays that writes and retrievals lead to on such a machine. -/
def ReachableWithin (limit : Nat) (b : ByteArray) : Prop :=
  ∃ calls : List (Queue.Call UInt8), Run.final (callWithin limit) new calls = .ok b

/-- The arrays that writes and retrievals lead to. -/
def Reachable (b : ByteArray) : Prop :=
  ∃ calls : List (Queue.Call UInt8),
    Run.final (step fun b (_ : Unit) => .ok b) new (calls.map .call) = .ok b

/-- The array that these calls make. -/
def made (calls : List (Queue.Call UInt8)) : Except Fault ByteArray :=
  Run.final (step fun b (_ : Unit) => .ok b) new (calls.map .call)

/-- What is observed of an array that is made is observed of a reachable array. -/
theorem exists_made {α : Type} (calls : List (Queue.Call UInt8)) (f : ByteArray → α) (a : α)
    (h : (made calls).map f = .ok a) : ∃ b, b.Reachable ∧ f b = a := by
  obtain ⟨b, hb, hobserved⟩ := Except.exists_of_map_eq_ok h
  exact ⟨b, ⟨calls, hb⟩, hobserved⟩

theorem memoryLimit_le : memoryLimit ≤ 2 ^ 62 := by decide

theorem Holds.callWithin (h : Holds limit b q) (hlimit : limit ≤ 2 ^ 62) {c : Queue.Call UInt8}
    {b' : ByteArray} (hok : callWithin limit b c = .ok b') :
    Holds limit b' (Queue.answer q c).1 := by
  have hreadable := h.readableBytes
  rw [ByteArray.callWithin] at hok
  by_cases hmemory : limit ≤ b.readableBytes + c.input.length
  · rw [if_pos hmemory] at hok
    cases hok
  · rw [if_neg hmemory] at hok
    obtain ⟨b'', hcall, hholds⟩ := h.call (c := c) hlimit (by omega)
    rw [hcall] at hok
    cases hok
    exact hholds

theorem Holds.step_call {κ : Type} {adjust : ByteArray → κ → Except Fault ByteArray}
    (h : Holds memoryLimit b q) {c : Queue.Call UInt8} {b' : ByteArray}
    (hok : step adjust b (.call c) = .ok b') :
    Holds memoryLimit b' (Queue.answer q c).1 :=
  h.callWithin memoryLimit_le hok

/-- Run lemma: a reachable array is well formed. -/
theorem ReachableWithin.holds (h : b.ReachableWithin limit) (hlimit : limit ≤ 2 ^ 62) :
    Holds limit b b.unread := by
  obtain ⟨calls, hfinal⟩ := h
  have hstep : ∀ (b : ByteArray) (c : Queue.Call UInt8) (b' : ByteArray),
      (∃ q, Holds limit b q) → ByteArray.callWithin limit b c = .ok b' →
        ∃ q, Holds limit b' q := by
    rintro b c b' ⟨q, hholds⟩ hok
    exact ⟨_, hholds.callWithin hlimit hok⟩
  obtain ⟨q, hholds⟩ := Run.final_invariant hstep ⟨[], new_holds limit⟩ hfinal
  rwa [hholds.1]

theorem reachable_iff_within : b.Reachable ↔ b.ReachableWithin memoryLimit := by
  refine exists_congr fun calls => ?_
  rw [Run.final_map]
  exact Iff.rfl

theorem Reachable.holds (h : b.Reachable) : Holds memoryLimit b b.unread :=
  (reachable_iff_within.mp h).holds memoryLimit_le

/-- One write into a fresh array. -/
theorem new_put {data : List UInt8} (hdata : data.length < limit)
    (hok : new.writeRaw data = .ok b) :
    Run.final (ByteArray.callWithin limit) new [.put data] = .ok b := by
  have hmemory : ¬ limit ≤ new.readableBytes + data.length :=
    Nat.not_le.mpr (lt_of_eq_of_lt (Nat.zero_add _) hdata)
  have hcall : ByteArray.callWithin limit new (.put data) = .ok b := by
    rw [ByteArray.callWithin, Queue.Call.input, if_neg hmemory, ByteArray.call, hok]
    rfl
  exact Run.final_cons_of_ok hcall []

end ByteArray

end Netpp
