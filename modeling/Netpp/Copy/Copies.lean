import Netpp.Copy.Operations
import Netpp.Library.Run

/-!
# Copies of a byte array

A byte array and its copies, in the order they were made: their nodes are shared, and
an operation on one of them takes place on its link, with the pointers of the others
as `others`. The abstract model is one queue for each array; copying an array copies
its queue.

The copy is as good as a deep one as long as no operation copies or resets a shared
node whose offsets are not zero. `Sound` is the invariant: no array has a node twice,
and every array holds what its queue holds.
-/

namespace Netpp

namespace CowArray

/-- The operations on one array. -/
inductive Op where
  | call (c : Queue.Call UInt8)
  | consume (size : Nat)
  | receive (data : List UInt8)

/-- There is memory for what is written. -/
def Op.HasMemory (q : List UInt8) : Op → Prop
  | .call (.put data) => q.length + data.length < ByteArray.memoryLimit
  | _ => True

/-- The reply of a queue, and what is left in it. -/
def Op.answer (q : List UInt8) : Op → List UInt8 × Nat × List UInt8
  | .call c => Queue.answer q c
  | .consume size => (q.drop size, 0, [])
  | .receive data => (q ++ data, 0, [])

def perform (a : CowArray) : Op → Except Fault (CowArray × Nat × List UInt8)
  | .call (.put data) =>
      if ByteArray.memoryLimit ≤ a.availableSizeToRead + data.length then .error .badAlloc
      else (a.writeRaw data).map fun a' => (a', 0, [])
  | .call (.get length) => a.retrieveRaw length
  | .consume size => (a.consume size).map fun a' => (a', 0, [])
  | .receive data => (a.receive data).map fun a' => (a', 0, [])

/-- The nodes that are copied or reset are spared, and an adjustment is one that an
array with nodes of its own gets right. -/
def Spares (a : CowArray) : Op → Prop
  | .call (.put data) => a.WriteSpared data.length
  | .call (.get length) => a.RetrievalSpared length
  | .consume size => a.ConsumptionSpared ∧
      (size ≤ a.availableSizeToRead → a.value.ConsumesExactly size)
  | .receive data => a.link.Spared a.writeNode ∧ a.value.FitsLastNode data

instance (a : CowArray) : ∀ o, Decidable (a.Spares o)
  | .call (.put data) => inferInstanceAs (Decidable (a.WriteSpared data.length))
  | .call (.get length) => inferInstanceAs (Decidable (a.RetrievalSpared length))
  | .consume _ => inferInstanceAs (Decidable (_ ∧ (_ → _)))
  | .receive _ => inferInstanceAs (Decidable (_ ∧ _))

/-- Step lemma: an operation that spares is answered as the queue answers it. -/
theorem perform_becomes {a : CowArray} {q : List UInt8} (h : a.link.Proper)
    (hholds : ByteArray.Holds ByteArray.memoryLimit a.value q) {o : Op} (hspares : a.Spares o)
    (hmemory : o.HasMemory q) :
    ∃ b a', a.perform o = .ok (a', (o.answer q).2) ∧ Becomes a b a' ∧
      ByteArray.Holds ByteArray.memoryLimit b (o.answer q).1 := by
  have hreadable : a.availableSizeToRead = q.length := hholds.readableBytes
  have hlimit := ByteArray.memoryLimit_le
  have hnodes := hholds.nodes_lt hlimit
  rw [value_nodes_length] at hnodes
  obtain ⟨R, W, hlayout⟩ := hholds.2.2
  cases o with
  | call c =>
      cases c with
      | put data =>
          change q.length + data.length < _ at hmemory
          obtain ⟨b, hok, hb⟩ := hholds.writeRaw data hlimit hmemory
          obtain ⟨a', hok', hbecomes⟩ :=
            writeRaw_becomes h hlayout hnodes (by omega) hspares hok
          refine ⟨b, a', ?_, hbecomes, hb⟩
          rw [perform, if_neg (by omega), hok']
          rfl
      | get length =>
          rcases Nat.lt_or_ge q.length length with hlength | hlength
          · obtain ⟨a', hok', hbecomes⟩ :=
              retrieveRaw_becomes h hlayout hspares (hholds.retrieveRaw_of_lt hlength)
            refine ⟨a.value, a', ?_, hbecomes, ?_⟩
            · rw [Op.answer, Queue.answer_get_of_lt hlength]
              exact hok'
            · rw [Op.answer, Queue.answer_get_of_lt hlength]
              exact hholds
          · obtain ⟨b, hok, hb⟩ := hholds.retrieveRaw hlimit hlength
            obtain ⟨a', hok', hbecomes⟩ := retrieveRaw_becomes h hlayout hspares hok
            refine ⟨b, a', ?_, hbecomes, ?_⟩
            · rw [Op.answer, Queue.answer_get_of_le hlength]
              exact hok'
            · rw [Op.answer, Queue.answer_get_of_le hlength]
              exact hb
  | consume size =>
      obtain ⟨b, hok, hb⟩ := hholds.adjustByteArray hspares.2
      obtain ⟨a', hok', hbecomes⟩ := consume_becomes h hlayout hspares.1 hok
      refine ⟨b, a', ?_, hbecomes, hb⟩
      rw [perform, hok']
      rfl
  | receive data =>
      obtain ⟨b, hok, -, hb⟩ := hholds.receive hspares.2
      obtain ⟨a', hok', hbecomes⟩ := receive_becomes h hlayout hspares.1 hspares.2.2 hok
      refine ⟨b, a', ?_, hbecomes, hb⟩
      rw [perform, hok']
      rfl

end CowArray

/-- The fields of one array; its nodes are pointers. -/
structure Fields where
  availableSizeToRead : Nat
  availableSizeToWrite : Nat
  readNode : Nat
  writeNode : Nat
  nodes : List Nat

structure Copies where
  heap : Nat → BufferNode
  next : Nat
  arrays : List Fields

/-- An operation on the array with an index, or a copy of this array. -/
inductive CopyEvent where
  | op (i : Nat) (o : CowArray.Op)
  | copy (i : Nat)

namespace Fields

def value (f : Fields) (heap : Nat → BufferNode) : ByteArray :=
  ⟨f.availableSizeToRead, f.availableSizeToWrite, f.readNode, f.writeNode, f.nodes.map heap⟩

def ofArray (a : CowArray) : Fields :=
  ⟨a.availableSizeToRead, a.availableSizeToWrite, a.readNode, a.writeNode, a.link.nodes⟩

end Fields

namespace Copies

/-- One array, made by the default constructor. -/
def new : Copies := ⟨fun _ => BufferNode.new, 1, [⟨0, bufferNodeSize, 0, 0, [0]⟩]⟩

/-- The nodes of the other arrays. -/
def others (w : Copies) (i : Nat) : List Nat := (w.arrays.eraseIdx i).flatMap Fields.nodes

def array (w : Copies) (i : Nat) : Option CowArray :=
  w.arrays[i]?.map fun f =>
    ⟨f.availableSizeToRead, f.availableSizeToWrite, f.readNode, f.writeNode,
      ⟨w.heap, w.next, w.others i, f.nodes⟩⟩

def update (w : Copies) (i : Nat) (a : CowArray) : Copies :=
  ⟨a.link.heap, a.link.next, w.arrays.set i (.ofArray a)⟩

/-- The unread bytes of each array. -/
def contents (w : Copies) : List (List UInt8) := w.arrays.map fun f => (f.value w.heap).unread

def perform (w : Copies) (i : Nat) (o : CowArray.Op) :
    Except Fault (Copies × Nat × List UInt8) :=
  match w.array i with
  | none => .error .outOfRange
  | some a => (a.perform o).map fun r => (w.update i r.1, r.2)

/-- The copy constructor: the fields are copied, and with them the pointers. -/
def copy (w : Copies) (i : Nat) : Except Fault Copies :=
  match w.arrays[i]? with
  | none => .error .outOfRange
  | some f => .ok { w with arrays := w.arrays ++ [f] }

def step (w : Copies) : CopyEvent → Except Fault Copies
  | .op i o => (w.perform i o).map Prod.fst
  | .copy i => w.copy i

/-- The queues of the arrays after an event. -/
def record (_ : Copies) : CopyEvent → List (List UInt8) → List (List UInt8)
  | .op i o, qs => qs.modify i fun q => (o.answer q).1
  | .copy i, qs => qs ++ qs[i]?.toList

/-- An array replies as its queue does, and then all arrays hold what their queues hold,
as long as there is memory; a copy holds what the array holds. -/
def Independent (s : Copies × List (List UInt8)) : CopyEvent → Prop
  | .op i o => ∀ q, s.2[i]? = some q → o.HasMemory q →
      ∃ w, s.1.perform i o = .ok (w, (o.answer q).2) ∧
        w.contents = s.2.modify i fun q => (o.answer q).1
  | .copy i => ∀ q, s.2[i]? = some q → ∃ w, s.1.copy i = .ok w ∧ w.contents = s.2 ++ [q]

/-- Every operation spares. -/
def Spares (s : Copies × List (List UInt8)) : CopyEvent → Prop
  | .op i o => ∀ a, s.1.array i = some a → a.Spares o
  | .copy _ => True

instance (s : Copies × List (List UInt8)) : ∀ e, Decidable (Spares s e)
  | .op i o =>
      match h : s.1.array i with
      | none => isTrue fun a ha => by simp [h] at ha
      | some a => decidable_of_iff (a.Spares o) (by simp [Spares, h])
  | .copy _ => isTrue trivial

/-! ## The invariant -/

/-- The array `f` is well formed and holds `q`. -/
structure Holds (w : Copies) (f : Fields) (q : List UInt8) : Prop where
  nodup : f.nodes.Nodup
  bound : ∀ ptr ∈ f.nodes, ptr < w.next
  holds : ByteArray.Holds ByteArray.memoryLimit (f.value w.heap) q

/-- Every array is well formed and holds its queue. -/
structure Sound (w : Copies) (qs : List (List UInt8)) : Prop where
  length : w.arrays.length = qs.length
  holds : ∀ (i : Nat) f q, w.arrays[i]? = some f → qs[i]? = some q → w.Holds f q

variable {w : Copies} {qs : List (List UInt8)}

theorem new_sound : new.Sound [[]] := by
  constructor
  · rfl
  · intro i f q hf hq
    cases i with
    | zero =>
        cases hf
        cases hq
        exact ⟨List.nodup_singleton 0, fun ptr hptr => by
          rw [List.mem_singleton.mp hptr]
          exact Nat.zero_lt_one, ByteArray.new_holds _⟩
    | succ i => cases hf

theorem Sound.exists_queue (h : w.Sound qs) {i : Nat} {f : Fields} (hf : w.arrays[i]? = some f) :
    ∃ q, qs[i]? = some q ∧ w.Holds f q := by
  have hlt : i < qs.length := by
    rw [← h.length]
    exact (List.getElem?_eq_some_iff.mp hf).1
  exact ⟨qs[i], List.getElem?_eq_getElem hlt, h.holds i f _ hf (List.getElem?_eq_getElem hlt)⟩

theorem Sound.exists_array (h : w.Sound qs) {i : Nat} {q : List UInt8} (hq : qs[i]? = some q) :
    ∃ f a, w.arrays[i]? = some f ∧ w.array i = some a := by
  have hlt : i < w.arrays.length := by
    rw [h.length]
    exact (List.getElem?_eq_some_iff.mp hq).1
  have hf := List.getElem?_eq_getElem hlt
  exact ⟨w.arrays[i], _, hf, congrArg (Option.map _) hf⟩

theorem Sound.contents (h : w.Sound qs) : w.contents = qs := by
  apply List.ext_getElem?
  intro i
  rw [Copies.contents, List.getElem?_map]
  cases hf : w.arrays[i]? with
  | none =>
      have hle := List.getElem?_eq_none_iff.mp hf
      rw [h.length] at hle
      rw [List.getElem?_eq_none hle]
      rfl
  | some f =>
      obtain ⟨q, hq, hholds⟩ := h.exists_queue hf
      rw [hq]
      exact congrArg some hholds.holds.1

/-- The nodes of the other arrays. -/
theorem mem_others {i j : Nat} {f : Fields} (hf : w.arrays[j]? = some f) (hne : j ≠ i) {ptr : Nat}
    (hptr : ptr ∈ f.nodes) : ptr ∈ w.others i :=
  List.mem_flatMap.mpr ⟨f, List.mem_eraseIdx_iff_getElem?.mpr ⟨j, hne, hf⟩, hptr⟩

theorem Sound.bound (h : w.Sound qs) {i ptr : Nat} (hptr : ptr ∈ w.others i) : ptr < w.next := by
  obtain ⟨f, hf, hptr⟩ := List.mem_flatMap.mp hptr
  obtain ⟨j, -, hj⟩ := List.mem_eraseIdx_iff_getElem?.mp hf
  obtain ⟨q, -, hholds⟩ := h.exists_queue hj
  exact hholds.bound ptr hptr

/-- An array as a link of its own. -/
theorem Sound.array (h : w.Sound qs) {i : Nat} {a : CowArray} (ha : w.array i = some a) :
    ∃ q, qs[i]? = some q ∧ a.link.Proper ∧ a.link.others = w.others i ∧ a.link.heap = w.heap ∧
      ByteArray.Holds ByteArray.memoryLimit a.value q := by
  obtain ⟨f, hf, rfl⟩ := Option.map_eq_some_iff.mp ha
  obtain ⟨q, hq, hholds⟩ := h.exists_queue hf
  refine ⟨q, hq, ⟨hholds.nodup, ?_⟩, rfl, rfl, hholds.holds⟩
  intro ptr hptr
  rcases List.mem_append.mp hptr with hmem | hmem
  · exact hholds.bound ptr hmem
  · exact h.bound hmem

/-- A change of one array, unseen by the others. -/
theorem Sound.update (h : w.Sound qs) {i : Nat} {a a' : CowArray} {b : ByteArray}
    {q : List UInt8} (ha : w.array i = some a) (hbecomes : a.Becomes b a')
    (hb : ByteArray.Holds ByteArray.memoryLimit b q) : (w.update i a').Sound (qs.set i q) := by
  obtain ⟨-, -, -, hothers, hheap, -⟩ := h.array ha
  have hothers' : a'.link.others = w.others i := by rw [hbecomes.frame.others, hothers]
  constructor
  · rw [Copies.update, List.length_set, List.length_set, h.length]
  · intro j f r hf hr
    change (w.arrays.set i (.ofArray a'))[j]? = some f at hf
    by_cases hj : j = i
    · have hlt : i < qs.length := by
        rw [hj] at hr
        have hlt := (List.getElem?_eq_some_iff.mp hr).1
        rwa [List.length_set] at hlt
      rw [hj, List.getElem?_set_self (by rwa [h.length])] at hf
      rw [hj, List.getElem?_set_self hlt] at hr
      cases hf
      cases hr
      refine ⟨hbecomes.proper.nodup, fun ptr hptr => ?_, ?_⟩
      · exact hbecomes.proper.bound ptr (List.mem_append_left _ hptr)
      · have hvalue : (Fields.ofArray a').value a'.link.heap = b := hbecomes.value
        change ByteArray.Holds _ ((Fields.ofArray a').value a'.link.heap) _
        rwa [hvalue]
    · rw [List.getElem?_set_ne (Ne.symm hj)] at hf hr
      have hholds := h.holds j f r hf hr
      have hsame : ∀ ptr ∈ f.nodes, a'.link.heap ptr = w.heap ptr := by
        intro ptr hptr
        have hmem := mem_others hf hj hptr
        rw [← hothers] at hmem
        rw [hbecomes.frame.heap ptr hmem, hheap]
      refine ⟨hholds.nodup, fun ptr hptr => ?_, ?_⟩
      · apply hbecomes.proper.bound ptr
        rw [hothers']
        exact List.mem_append_right _ (mem_others hf hj hptr)
      · have hvalue : f.value a'.link.heap = f.value w.heap := by
          rw [Fields.value, Fields.value, List.map_congr_left hsame]
        change ByteArray.Holds _ (f.value a'.link.heap) _
        rw [hvalue]
        exact hholds.holds

theorem Sound.copy (h : w.Sound qs) {i : Nat} {f : Fields} {q : List UInt8}
    (hf : w.arrays[i]? = some f) (hq : qs[i]? = some q) :
    Sound { w with arrays := w.arrays ++ [f] } (qs ++ [q]) := by
  constructor
  · rw [List.length_append, List.length_append, h.length]
    rfl
  · intro j g r hg hr
    change (w.arrays ++ [f])[j]? = some g at hg
    rcases Nat.lt_or_ge j w.arrays.length with hj | hj
    · rw [List.getElem?_append_left hj] at hg
      rw [List.getElem?_append_left (by rwa [← h.length])] at hr
      have hholds := h.holds j g r hg hr
      exact ⟨hholds.nodup, hholds.bound, hholds.holds⟩
    · rw [List.getElem?_append_right hj] at hg
      rw [List.getElem?_append_right (by rwa [← h.length]), ← h.length] at hr
      have hholds := h.holds i f q hf hq
      rw [List.mem_singleton.mp (List.mem_of_getElem? hg),
        List.mem_singleton.mp (List.mem_of_getElem? hr)]
      exact ⟨hholds.nodup, hholds.bound, hholds.holds⟩

/-! ## Every run -/

/-- Step lemma: where the operations spare, arrays are independent. -/
theorem Sound.perform (h : w.Sound qs) {i : Nat} {a : CowArray} {q : List UInt8}
    {o : CowArray.Op} (ha : w.array i = some a) (hq : qs[i]? = some q) (hspares : a.Spares o)
    (hmemory : o.HasMemory q) :
    ∃ w', w.perform i o = .ok (w', (o.answer q).2) ∧
      w'.Sound (qs.modify i fun q => (o.answer q).1) := by
  obtain ⟨q', hq', hproper, -, -, hholds⟩ := h.array ha
  obtain rfl : q = q' := by
    rw [hq] at hq'
    injection hq'
  obtain ⟨b, a', hok, hbecomes, hb⟩ := CowArray.perform_becomes hproper hholds hspares hmemory
  refine ⟨w.update i a', ?_, ?_⟩
  · rw [Copies.perform, ha]
    simp only [hok]
    rfl
  · rw [List.modify_eq_set, hq]
    exact h.update ha hbecomes hb

/-- An operation that is performed has had the memory it needs. -/
theorem hasMemory_of_perform {a : CowArray} {q : List UInt8} {o : CowArray.Op}
    (hreadable : a.availableSizeToRead = q.length) {r : CowArray × Nat × List UInt8}
    (hok : a.perform o = .ok r) : o.HasMemory q := by
  cases o with
  | call c =>
      cases c with
      | put data =>
          by_cases hmemory : ByteArray.memoryLimit ≤ a.availableSizeToRead + data.length
          · rw [CowArray.perform, if_pos hmemory] at hok
            cases hok
          · change q.length + data.length < _
            omega
      | get length => trivial
  | consume size => trivial
  | receive data => trivial

/-- A step that spares keeps the invariant. -/
theorem Sound.step {s s' : Copies × List (List UInt8)} {e : CopyEvent} (h : s.1.Sound s.2)
    (hspares : Spares s e) (hok : Run.recorded Copies.step record s e = .ok s') :
    s'.1.Sound s'.2 := by
  obtain ⟨hstep, hrecord⟩ := Run.recorded_ok hok
  rw [hrecord]
  cases e with
  | op i o =>
      obtain ⟨⟨w', reply⟩, hperform, rfl⟩ := Except.exists_of_map_eq_ok hstep
      cases ha : s.1.array i with
      | none =>
          rw [Copies.perform, ha] at hperform
          cases hperform
      | some a =>
          obtain ⟨q, hq, -, -, -, hholds⟩ := h.array ha
          have hmemory : o.HasMemory q := by
            rw [Copies.perform, ha] at hperform
            obtain ⟨r, hr, -⟩ := Except.exists_of_map_eq_ok hperform
            exact hasMemory_of_perform hholds.readableBytes hr
          obtain ⟨w'', hok', hsound⟩ := h.perform ha hq (hspares a ha) hmemory
          rw [hok'] at hperform
          cases hperform
          exact hsound
  | copy i =>
      change s.1.copy i = _ at hstep
      unfold Copies.copy at hstep
      cases hf : s.1.arrays[i]? with
      | none =>
          rw [hf] at hstep
          cases hstep
      | some f =>
          obtain ⟨q, hq, -⟩ := h.exists_queue hf
          rw [hf] at hstep
          injection hstep with hstep
          rw [← hstep, record, hq]
          exact h.copy hf hq

theorem Sound.independent {s : Copies × List (List UInt8)} {e : CopyEvent} (h : s.1.Sound s.2)
    (hspares : Spares s e) : Independent s e := by
  cases e with
  | op i o =>
      intro q hq hmemory
      obtain ⟨-, a, -, ha⟩ := h.exists_array hq
      obtain ⟨w, hok, hsound⟩ := h.perform ha hq (hspares a ha) hmemory
      exact ⟨w, hok, hsound.contents⟩
  | copy i =>
      intro q hq
      obtain ⟨f, -, hf, -⟩ := h.exists_array hq
      refine ⟨{ s.1 with arrays := s.1.arrays ++ [f] }, ?_, (h.copy hf hq).contents⟩
      rw [Copies.copy, hf]

/-- Along every run in which no operation copies or resets a shared node whose offsets
are not zero, an array and its copies are independent queues. -/
theorem independent_of_spares (es : List CopyEvent)
    (h : Run.Always (Run.recorded step record) Spares (new, [[]]) es) :
    Run.Always (Run.recorded step record) Independent (new, [[]]) es := by
  apply Run.always_of_always (J := fun s => s.1.Sound s.2) _ _ new_sound h
  · exact fun s e s' hsound hspares hok => hsound.step hspares hok
  · exact fun s e hsound hspares => hsound.independent hspares

/-- A fresh array is copied, and both are written to; then the copy is read. -/
theorem independent_of_spares_fresh :
    Run.Always (Run.recorded step record) Independent (new, [[]])
      [.copy 0, .op 1 (.call (.put [7])), .op 0 (.call (.put [8])), .op 1 (.call (.get 1))] :=
  independent_of_spares _ (by decide +kernel)

/-- A byte is written to an array, the array is copied, and the copy does not give the
byte. -/
theorem independent_fails :
    ¬Run.Always (Run.recorded step record) Independent (new, [[]])
      [.op 0 (.call (.put [7])), .copy 0, .op 1 (.call (.get 1))] := by
  intro h
  have hrun : (Run.final (Run.recorded step record) (new, [[]])
      [.op 0 (.call (.put [7])), .copy 0]).map (fun s =>
        (s.2, (s.1.perform 1 (.call (.get 1))).map Prod.snd)) = .ok ([[7], [7]], .ok (0, [])) := by
    decide +kernel
  obtain ⟨s, hs, hobserved⟩ := Except.exists_of_map_eq_ok hrun
  obtain ⟨hqueues, hreply⟩ := Prod.mk.inj hobserved
  have hlast : Independent s (.op 1 (.call (.get 1))) :=
    (Run.Always.of_append [_, _] [.op 1 (.call (.get 1))] h hs).1
  obtain ⟨w, hok, -⟩ := hlast [7] (by rw [hqueues]; rfl) trivial
  rw [hok] at hreply
  injection hreply with hreply
  have hlength : 1 = 0 := congrArg Prod.fst hreply
  exact absurd hlength (by decide)

end Copies

end Netpp
