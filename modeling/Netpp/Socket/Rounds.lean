import Netpp.Library.Locking
import Netpp.Socket.IOVec

/-!
# The rounds of `writeRaw` and `retrieveRaw`

Both methods lock the mutex of the array and then work through its nodes one after the
other. `writeRawSteps` and `retrieveRawSteps` are their bodies with each round of the loop
as a step of its own, on the nodes of the array; without any other thread they do what
`writeRaw` and `retrieveRaw` do.
-/

namespace Netpp

namespace ByteArray

open Locking (Prog)

/-! ## Writing -/

/-- One round of the loop of `writeRaw`, at the node with index `i`; the result is the data
that is left. -/
def writeRound (i : Nat) (data : List UInt8) (b : ByteArray) :
    Except Fault (ByteArray × List UInt8) := do
  let node ← nodeAt b.nodes i
  let room := Word64.sub bufferNodeSize node.stop
  let bytesToWrite := if room < data.length then room else data.length
  let stored ← node.store node.stop (data.take bytesToWrite)
  let node' := { stored with stop := Word64.add node.stop bytesToWrite }
  .ok ({ b with
    nodes := b.nodes.set i node'
    writeNode :=
      if b.writeNode + 1 < b.nodes.length ∧ node'.stop = bufferNodeSize then b.writeNode + 1
      else b.writeNode }, data.drop bytesToWrite)

/-- The counts after the loop. -/
def countWritten (written : Nat) (b : ByteArray) : ByteArray :=
  { b with
    availableSizeToRead := Word64.add b.availableSizeToRead written
    availableSizeToWrite := Word64.sub b.availableSizeToWrite written }

/-- The loop over so many nodes from the one with index `i` on. -/
def writeRounds (expectWrite : Nat) : Nat → Nat → List UInt8 → Prog Fault ByteArray Unit
  | 0, _, data => .step (fun b => .ok (countWritten (Word64.sub expectWrite data.length) b, ()))
      fun _ => .ret ()
  | n + 1, i, data =>
      if data.length = 0 then
        .step (fun b => .ok (countWritten (Word64.sub expectWrite data.length) b, ()))
          fun _ => .ret ()
      else .step (writeRound i data) fun data => writeRounds expectWrite n (i + 1) data

def writeRawSteps (data : List UInt8) : Prog Fault ByteArray Unit :=
  .step (fun b =>
    (if b.availableSizeToWrite ≤ data.length then b.unlockedAllocIfNotEnough data.length
      else .ok b).map fun b => (b, b.writeNode, b.nodes.length - b.writeNode))
    fun r => writeRounds data.length r.2 r.1 data

/-! ## Reading -/

/-- One round of the loop of `retrieveRaw`, at the node with index `i`; the result is the
number of bytes that are left and the bytes copied. -/
def retrieveRound (i length : Nat) (b : ByteArray) :
    Except Fault (ByteArray × Nat × List UInt8) := do
  let node ← nodeAt b.nodes i
  let filled := Word64.sub node.stop node.start
  let bytesToCopy := if filled < length then filled else length
  let copied ← node.load node.start bytesToCopy
  let node' := { node with start := Word64.add node.start bytesToCopy }
  let exhausted := node'.start = bufferNodeSize ∧ b.readNode + 1 < b.nodes.length
  .ok ({ b with
    nodes := b.nodes.set i node'
    writeNode := if exhausted ∧ b.readNode = b.writeNode then b.writeNode + 1 else b.writeNode
    readNode := if exhausted then b.readNode + 1 else b.readNode }, length - bytesToCopy, copied)

/-- The count after the loop. -/
def countRetrieved (copied : Nat) (b : ByteArray) : ByteArray :=
  { b with availableSizeToRead := Word64.sub b.availableSizeToRead copied }

/-- The loop over so many nodes from the one with index `i` on. -/
def retrieveRounds (expectToRead : Nat) :
    Nat → Nat → Nat → List UInt8 → Prog Fault ByteArray (Nat × List UInt8)
  | 0, _, length, buffer => .step (fun b => .ok (countRetrieved (expectToRead - length) b, ()))
      fun _ => .ret (expectToRead - length, buffer)
  | n + 1, i, length, buffer =>
      if length = 0 then
        .step (fun b => .ok (countRetrieved (expectToRead - length) b, ()))
          fun _ => .ret (expectToRead - length, buffer)
      else .step (retrieveRound i length) fun r =>
        retrieveRounds expectToRead n (i + 1) r.1 (buffer ++ r.2)

def retrieveRawSteps (length : Nat) : Prog Fault ByteArray (Nat × List UInt8) :=
  .step (fun b =>
    if length ≤ b.availableSizeToRead then
      b.endOfReadNode.map fun endOfRead =>
        (b, some (b.readNode, ((b.nodes.take endOfRead).drop b.readNode).length))
    else .ok (b, none))
    fun r =>
      match r with
      | some (readNode, n) => retrieveRounds length n readNode length []
      | none => .ret (0, [])

/-! ## Without other threads -/

theorem nodeAt_append (pre : List BufferNode) (node : BufferNode) (rest : List BufferNode) :
    nodeAt (pre ++ node :: rest) pre.length = .ok node := by
  rw [nodeAt, List.getElem?_append_right le_rfl, Nat.sub_self]
  rfl

theorem set_append (pre : List BufferNode) (node node' : BufferNode) (rest : List BufferNode) :
    (pre ++ node :: rest).set pre.length node' = pre ++ [node'] ++ rest := by
  rw [List.set_append_right _ _ le_rfl, Nat.sub_self, List.set_cons_zero, List.append_assoc]
  rfl

/-- The list before the next node. -/
theorem index_append {pre rest : List BufferNode} {node : BufferNode} {i : Nat}
    (hi : node :: rest ≠ [] → i = pre.length) (node' : BufferNode) :
    rest ≠ [] → i + 1 = (pre ++ [node']).length := by
  intro _
  rw [hi (List.cons_ne_nil node rest), List.length_append, List.length_singleton]

theorem length_append_cons (pre : List BufferNode) (node node' : BufferNode)
    (rest : List BufferNode) : (pre ++ node :: rest).length = (pre ++ [node'] ++ rest).length := by
  simp

/-- The rounds are those of `writeLoop`. -/
theorem writeRounds_run (expectWrite : Nat) (pre rest : List BufferNode) (b : ByteArray)
    (hnodes : b.nodes = pre ++ rest) {i : Nat} (hi : rest ≠ [] → i = pre.length)
    (data : List UInt8) : (writeRounds expectWrite rest.length i data).run b =
      (writeLoop b.nodes.length rest b.writeNode data).map fun r =>
        (countWritten (Word64.sub expectWrite r.2.2.length)
          { b with nodes := pre ++ r.1, writeNode := r.2.1 }, ()) := by
  induction rest generalizing b pre i data with
  | nil =>
      simp only [List.length_nil, writeRounds, writeLoop, Prog.run, Except.map]
      rw [← hnodes]
  | cons node rest ih =>
      rw [List.length_cons, writeRounds, writeLoop]
      by_cases hdata : data.length = 0
      · rw [if_pos hdata, if_pos hdata]
        simp only [Prog.run, Except.map]
        rw [← hnodes]
      · have hindex := hi (List.cons_ne_nil node rest)
        rw [if_neg hdata, if_neg hdata, Prog.run, writeRound, hnodes, hindex, nodeAt_append]
        simp only [bind, Except.bind]
        generalize (if Word64.sub bufferNodeSize node.stop < data.length then
          Word64.sub bufferNodeSize node.stop else data.length) = bytesToWrite
        cases node.store node.stop (data.take bytesToWrite) with
        | error err => rfl
        | ok stored =>
            let node' := { stored with stop := Word64.add node.stop bytesToWrite }
            dsimp only
            rw [set_append, ← hindex, ih _ _ rfl (index_append hi node'),
              length_append_cons pre node node' rest]
            cases writeLoop _ rest _ (data.drop bytesToWrite) with
            | error err => rfl
            | ok r => simp only [Except.map, List.append_assoc, List.singleton_append, node']

theorem writeRawSteps_run (data : List UInt8) (b : ByteArray) :
    (writeRawSteps data).run b = (b.writeRaw data).map fun b => (b, ()) := by
  -- the loop and the counts, after the allocation
  have hloop (b : ByteArray) :
      (writeRounds data.length (b.nodes.length - b.writeNode) b.writeNode data).run b =
        (writeLoop b.nodes.length (b.nodes.drop b.writeNode) b.writeNode data).map fun r =>
          (countWritten (Word64.sub data.length r.2.2.length)
            { b with nodes := b.nodes.take b.writeNode ++ r.1, writeNode := r.2.1 }, ()) := by
    rw [← List.length_drop]
    refine writeRounds_run data.length _ _ b (List.take_append_drop ..).symm (fun hrest => ?_) data
    have hlt := Nat.not_le.mp (mt List.drop_eq_nil_iff.mpr hrest)
    rw [List.length_take_of_le (Nat.le_of_lt hlt)]
  rw [writeRawSteps, Prog.run, writeRaw]
  by_cases hroom : b.availableSizeToWrite ≤ data.length
  · rw [if_pos hroom, if_pos hroom]
    cases b.unlockedAllocIfNotEnough data.length with
    | error err => rfl
    | ok b =>
        simp only [Except.map, bind, Except.bind]
        rw [hloop]
        cases writeLoop b.nodes.length (b.nodes.drop b.writeNode) b.writeNode data with
        | error err => rfl
        | ok r => rfl
  · rw [if_neg hroom, if_neg hroom]
    simp only [Except.map, bind, Except.bind]
    rw [hloop]
    cases writeLoop b.nodes.length (b.nodes.drop b.writeNode) b.writeNode data with
    | error err => rfl
    | ok r => rfl

/-- The rounds are those of `retrieveLoop`. -/
theorem retrieveRounds_run (expectToRead : Nat) (pre rest post : List BufferNode) (b : ByteArray)
    (hnodes : b.nodes = pre ++ rest ++ post) {i : Nat} (hi : rest ≠ [] → i = pre.length)
    (length : Nat) (buffer : List UInt8) :
    (retrieveRounds expectToRead rest.length i length buffer).run b =
      (retrieveLoop b.nodes.length rest b.readNode b.writeNode length).map fun r =>
        (countRetrieved (expectToRead - r.left)
          { b with
            nodes := pre ++ r.nodes ++ post
            readNode := r.readNode
            writeNode := r.writeNode }, expectToRead - r.left, buffer ++ r.copied) := by
  induction rest generalizing b pre i length buffer with
  | nil =>
      simp only [List.length_nil, retrieveRounds, retrieveLoop, Prog.run, Except.map]
      rw [← hnodes, List.append_nil]
  | cons node rest ih =>
      rw [List.length_cons, retrieveRounds, retrieveLoop]
      by_cases hlength : length = 0
      · rw [if_pos hlength, if_pos hlength]
        simp only [Prog.run, Except.map]
        rw [← hnodes, List.append_nil]
      · have hindex := hi (List.cons_ne_nil node rest)
        rw [if_neg hlength, if_neg hlength, Prog.run, retrieveRound, hnodes, hindex,
          List.append_assoc, List.cons_append, nodeAt_append]
        simp only [bind, Except.bind]
        generalize (if Word64.sub node.stop node.start < length then
          Word64.sub node.stop node.start else length) = bytesToCopy
        cases node.load node.start bytesToCopy with
        | error err => rfl
        | ok copied =>
            let node' := { node with start := Word64.add node.start bytesToCopy }
            dsimp only
            rw [set_append, ← hindex, ← List.append_assoc,
              ih (pre ++ [node']) _ rfl (index_append hi node'),
              length_append_cons pre node node' (rest ++ post), ← List.append_assoc]
            cases retrieveLoop _ rest _ _ (length - bytesToCopy) with
            | error err => rfl
            | ok r => simp only [Except.map, List.append_assoc, List.nil_append,
                List.cons_append, node']

/-- The nodes before, among and after those that are visited. -/
theorem visited_split (nodes : List BufferNode) (start stop : Nat) :
    nodes = nodes.take start ++ (nodes.take stop).drop start ++
      nodes.drop (start + ((nodes.take stop).drop start).length) := by
  have hprefix : (nodes.take stop).drop start <+: nodes.drop start := by
    rw [List.drop_take]
    exact List.take_prefix ..
  rw [List.append_assoc, ← List.drop_drop, List.prefix_iff_eq_append.mp hprefix,
    List.take_append_drop]

theorem retrieveRawSteps_run (length : Nat) (b : ByteArray) :
    (retrieveRawSteps length).run b = b.retrieveRaw length := by
  rw [retrieveRawSteps, Prog.run, retrieveRaw]
  by_cases hlength : length ≤ b.availableSizeToRead
  · rw [if_pos hlength, if_pos hlength]
    cases b.endOfReadNode with
    | error err => rfl
    | ok endOfRead =>
        simp only [Except.map, bind, Except.bind]
        have hindex : (b.nodes.take endOfRead).drop b.readNode ≠ [] →
            b.readNode = (b.nodes.take b.readNode).length := by
          intro hvisited
          have hlt := Nat.not_le.mp (mt List.drop_eq_nil_iff.mpr hvisited)
          have hle := List.length_take_le' endOfRead b.nodes
          rw [List.length_take_of_le (by omega)]
        rw [retrieveRounds_run length _ _ _ b (visited_split b.nodes b.readNode endOfRead) hindex]
        cases retrieveLoop b.nodes.length _ b.readNode b.writeNode length with
        | error err => rfl
        | ok r => rfl
  · rw [if_neg hlength, if_neg hlength]
    rfl

end ByteArray

end Netpp
