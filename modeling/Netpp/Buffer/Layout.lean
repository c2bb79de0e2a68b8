import Mathlib.Tactic.Linarith
import Netpp.Buffer.ByteArray

/-!
# The layout of a byte array

Numbering the bytes of all nodes through, node after node, a well-formed byte
array is described by two positions: the read position `R`, where the unread
bytes begin, and the write position `W`, where they end. `Marks R W nodes` says
that the offsets of every node are these positions cut to the node: a node
before `R` is exhausted, a node between them is full, a node after `W` is empty.
`Layout b R W` adds that the cursors and the cached counts belong to the same
positions.

`NodeInvariant` states the same for each node by its index, as the documentation
of `ByteArray` describes it; `Layout.nodeInvariant` derives it.
-/

namespace Netpp

/-- The unread bytes of all nodes. -/
def content (nodes : List BufferNode) : List UInt8 := nodes.flatMap BufferNode.unread

@[simp] theorem content_nil : content [] = [] := rfl

@[simp] theorem content_cons (n : BufferNode) (nodes : List BufferNode) :
    content (n :: nodes) = n.unread ++ content nodes := rfl

@[simp] theorem content_append (xs ys : List BufferNode) :
    content (xs ++ ys) = content xs ++ content ys := by
  simp [content]

theorem content_eq_nil {nodes : List BufferNode} (h : ∀ n ∈ nodes, n.unread = []) :
    content nodes = [] := by
  simpa [content] using h

/-- The offsets of the nodes are the positions `R` and `W`, counted from the
first node and cut to each node. -/
def Marks : Nat → Nat → List BufferNode → Prop
  | _, _, [] => True
  | R, W, n :: rest => n.start = min R 1024 ∧ n.stop = min W 1024 ∧ Marks (R - 1024) (W - 1024) rest

@[simp] theorem marks_nil (R W : Nat) : Marks R W [] := trivial

theorem marks_cons (R W : Nat) (n : BufferNode) (rest : List BufferNode) :
    Marks R W (n :: rest) ↔
      n.start = min R 1024 ∧ n.stop = min W 1024 ∧ Marks (R - 1024) (W - 1024) rest :=
  Iff.rfl

/-- Skipping one node and then `k` nodes skips `k + 1` nodes. -/
theorem sub_next_node (p k : Nat) : p - 1024 - 1024 * k = p - 1024 * (k + 1) := by
  omega

theorem marks_append (R W : Nat) (xs ys : List BufferNode) :
    Marks R W (xs ++ ys) ↔
      Marks R W xs ∧ Marks (R - 1024 * xs.length) (W - 1024 * xs.length) ys := by
  induction xs generalizing R W with
  | nil => simp
  | cons n xs ih =>
      rw [List.cons_append, marks_cons, marks_cons, ih, sub_next_node, sub_next_node,
        List.length_cons, and_assoc, and_assoc]

theorem Marks.drop {R W : Nat} {nodes : List BufferNode} (h : Marks R W nodes) {k : Nat}
    (hk : k ≤ nodes.length) : Marks (R - 1024 * k) (W - 1024 * k) (nodes.drop k) := by
  have hsplit := (marks_append R W (nodes.take k) (nodes.drop k)).mp
    (by rwa [List.take_append_drop])
  rw [List.length_take, Nat.min_eq_left hk] at hsplit
  exact hsplit.2

theorem Marks.take {R W : Nat} {nodes : List BufferNode} (h : Marks R W nodes) (k : Nat) :
    Marks R W (nodes.take k) :=
  ((marks_append R W (nodes.take k) (nodes.drop k)).mp (by rwa [List.take_append_drop])).1

theorem Marks.getElem {R W : Nat} {nodes : List BufferNode} (h : Marks R W nodes) {i : Nat}
    (hi : i < nodes.length) :
    nodes[i].start = min (R - 1024 * i) 1024 ∧ nodes[i].stop = min (W - 1024 * i) 1024 := by
  have hdrop := h.drop hi.le
  rw [List.drop_eq_getElem_cons hi] at hdrop
  exact ⟨hdrop.1, hdrop.2.1⟩

theorem Marks.offsets_le {R W : Nat} {nodes : List BufferNode} (h : Marks R W nodes)
    (hRW : R ≤ W) {n : BufferNode} (hn : n ∈ nodes) : n.start ≤ n.stop ∧ n.stop ≤ 1024 := by
  obtain ⟨i, hi, rfl⟩ := List.mem_iff_getElem.mp hn
  have := h.getElem hi
  omega

/-- Nodes whose offsets coincide hold nothing. -/
theorem Marks.content_eq_nil {R W : Nat} {nodes : List BufferNode} (h : Marks R W nodes)
    (hempty : W ≤ R ∨ 1024 * nodes.length ≤ R) : content nodes = [] := by
  apply Netpp.content_eq_nil
  intro n hn
  obtain ⟨i, hi, rfl⟩ := List.mem_iff_getElem.mp hn
  have := h.getElem hi
  exact BufferNode.unread_of_le (by omega)

theorem Marks.content_length {R W : Nat} {nodes : List BufferNode} (h : Marks R W nodes) :
    (content nodes).length = min W (1024 * nodes.length) - min R (1024 * nodes.length) := by
  induction nodes generalizing R W with
  | nil => simp
  | cons n rest ih =>
      obtain ⟨hstart, hstop, hrest⟩ := h
      rw [content_cons, List.length_append, ih hrest, BufferNode.unread_length (by omega),
        List.length_cons, hstart, hstop]
      rcases Nat.le_total W 1024 with hW | hW
      · omega
      · rcases Nat.le_total R 1024 with hR | hR
        · omega
        · omega

/-- Nodes that lie wholly before the write position stay as they are when it
moves on. -/
theorem Marks.write_of_le {R W W' : Nat} {nodes : List BufferNode} (h : Marks R W nodes)
    (hW : 1024 * nodes.length ≤ W) (hle : W ≤ W') : Marks R W' nodes := by
  induction nodes generalizing R W W' with
  | nil => trivial
  | cons n rest ih =>
      obtain ⟨hstart, hstop, hrest⟩ := h
      rw [List.length_cons] at hW
      exact ⟨hstart, by omega, ih hrest (by omega) (by omega)⟩

/-- Nodes that lie wholly before the read position stay as they are when it
moves on. -/
theorem Marks.read_of_le {R R' W : Nat} {nodes : List BufferNode} (h : Marks R W nodes)
    (hR : 1024 * nodes.length ≤ R) (hle : R ≤ R') : Marks R' W nodes := by
  induction nodes generalizing R R' W with
  | nil => trivial
  | cons n rest ih =>
      obtain ⟨hstart, hstop, hrest⟩ := h
      rw [List.length_cons] at hR
      exact ⟨by omega, hstop, ih hrest (by omega) (by omega)⟩

/-- The marks depend on the offsets of the nodes only. -/
theorem Marks.congr {R W : Nat} {nodes nodes' : List BufferNode} (h : Marks R W nodes)
    (hoffsets : nodes'.map BufferNode.offsets = nodes.map BufferNode.offsets) :
    Marks R W nodes' := by
  induction nodes generalizing R W nodes' with
  | nil =>
      rw [List.map_nil, List.map_eq_nil_iff] at hoffsets
      rw [hoffsets]
      trivial
  | cons n rest ih =>
      obtain ⟨hstart, hstop, hrest⟩ := h
      obtain ⟨m, rest', rfl, hm, hrest'⟩ := List.map_eq_cons_iff.mp hoffsets
      obtain ⟨hmstart, hmstop⟩ := Prod.ext_iff.mp hm
      exact ⟨hmstart.trans hstart, hmstop.trans hstop, ih hrest hrest'⟩

theorem marks_empty {nodes : List BufferNode} (h : ∀ n ∈ nodes, n.start = 0 ∧ n.stop = 0) :
    Marks 0 0 nodes := by
  induction nodes with
  | nil => trivial
  | cons n rest ih =>
      exact ⟨(h n (by simp)).1, (h n (by simp)).2, ih fun m hm => h m (by simp [hm])⟩

theorem marks_replicate_new (k : Nat) : Marks 0 0 (List.replicate k BufferNode.new) :=
  marks_empty fun n hn => by
    rw [List.eq_of_mem_replicate hn]
    exact ⟨rfl, rfl⟩

theorem marks_map_reset (nodes : List BufferNode) : Marks 0 0 (nodes.map BufferNode.reset) :=
  marks_empty fun n hn => by
    obtain ⟨m, -, rfl⟩ := List.mem_map.mp hn
    exact ⟨rfl, rfl⟩

/-- The free bytes of the nodes, counted node by node. -/
theorem Marks.free_sum {R W : Nat} {nodes : List BufferNode} (h : Marks R W nodes) :
    (nodes.map fun n => bufferNodeSize - n.stop).sum =
      1024 * nodes.length - min W (1024 * nodes.length) := by
  induction nodes generalizing R W with
  | nil => simp
  | cons n rest ih =>
      obtain ⟨-, hstop, hrest⟩ := h
      rw [List.map_cons, List.sum_cons, ih hrest, hstop, List.length_cons, bufferNodeSize_eq]
      omega

namespace ByteArray

/-- The byte array has read position `R` and write position `W`. The write
position is before the end of the last node, so there is always a free byte; the
read node may be exhausted, when `R` is where it ends. -/
structure Layout (b : ByteArray) (R W : Nat) : Prop where
  marks : Marks R W b.nodes
  read_le_write : R ≤ W
  write_lt : W < 1024 * b.nodes.length
  readNode_le : 1024 * b.readNode ≤ R
  le_readNode : R ≤ 1024 * (b.readNode + 1)
  writeNode_le : 1024 * b.writeNode ≤ W
  lt_writeNode : W < 1024 * (b.writeNode + 1)
  toRead : b.availableSizeToRead = W - R
  toWrite : b.availableSizeToWrite = 1024 * b.nodes.length - W

/-- The invariant of the nodes in the words of the documentation: the cursors
are in order and inside the list, the offsets are in order and inside the node,
the nodes before the read node are exhausted, those strictly between the cursors
are full and those after the write node are empty. -/
structure NodeInvariant (b : ByteArray) : Prop where
  readNode_le_writeNode : b.readNode ≤ b.writeNode
  writeNode_lt : b.writeNode < b.nodes.length
  offsets : ∀ n ∈ b.nodes, n.start ≤ n.stop ∧ n.stop ≤ bufferNodeSize
  exhausted : ∀ i, (h : i < b.nodes.length) → i < b.readNode →
    b.nodes[i].start = b.nodes[i].stop
  full : ∀ i, (h : i < b.nodes.length) → b.readNode < i → i < b.writeNode →
    b.nodes[i].start = 0 ∧ b.nodes[i].stop = bufferNodeSize
  empty : ∀ i, (h : i < b.nodes.length) → b.writeNode < i →
    b.nodes[i].start = 0 ∧ b.nodes[i].stop = 0

variable {b : ByteArray} {R W : Nat}

theorem new_layout : new.Layout 0 0 where
  marks := ⟨rfl, rfl, trivial⟩
  read_le_write := by decide
  write_lt := by decide
  readNode_le := by decide
  le_readNode := by decide
  writeNode_le := by decide
  lt_writeNode := by decide
  toRead := rfl
  toWrite := rfl

theorem Layout.readNode_le_writeNode (h : b.Layout R W) : b.readNode ≤ b.writeNode := by
  have := h.readNode_le
  have := h.read_le_write
  have := h.lt_writeNode
  omega

theorem Layout.writeNode_lt (h : b.Layout R W) : b.writeNode < b.nodes.length := by
  have := h.writeNode_le
  have := h.write_lt
  omega

theorem Layout.nodeInvariant (h : b.Layout R W) : b.NodeInvariant where
  readNode_le_writeNode := h.readNode_le_writeNode
  writeNode_lt := h.writeNode_lt
  offsets _ hn := h.marks.offsets_le h.read_le_write hn
  exhausted i hi hread := by
    have := h.marks.getElem hi
    have := h.readNode_le
    have := h.read_le_write
    omega
  full i hi hread hwrite := by
    have := h.marks.getElem hi
    have := h.le_readNode
    have := h.writeNode_le
    rw [bufferNodeSize_eq]
    omega
  empty i hi hwrite := by
    have := h.marks.getElem hi
    have := h.lt_writeNode
    have := h.read_le_write
    omega

theorem Layout.congr (h : b.Layout R W) {nodes : List BufferNode}
    (hoffsets : nodes.map BufferNode.offsets = b.nodes.map BufferNode.offsets) :
    Layout { b with nodes := nodes } R W := by
  have hlength : nodes.length = b.nodes.length := by
    simpa using congrArg List.length hoffsets
  exact { h with
    marks := h.marks.congr hoffsets
    write_lt := hlength ▸ h.write_lt
    toWrite := hlength ▸ h.toWrite }

/-- The nodes outside the cursors hold nothing, so the unread bytes are those of
all nodes. -/
theorem Layout.unread_eq_content (h : b.Layout R W) : b.unread = content b.nodes := by
  have hread := h.readNode_le_writeNode
  have hwrite := h.writeNode_lt
  have hhead : content ((b.nodes.take (b.writeNode + 1)).take b.readNode) = [] := by
    refine Marks.content_eq_nil ((h.marks.take _).take _) (.inr ?_)
    have := h.readNode_le
    rw [List.length_take, List.length_take]
    omega
  have htail : content (b.nodes.drop (b.writeNode + 1)) = [] := by
    refine Marks.content_eq_nil (h.marks.drop hwrite) (.inl ?_)
    have := h.lt_writeNode
    omega
  calc b.unread
      = content ((b.nodes.take (b.writeNode + 1)).take b.readNode) ++
          content ((b.nodes.take (b.writeNode + 1)).drop b.readNode) := by
        rw [hhead, List.nil_append]
        rfl
    _ = content (b.nodes.take (b.writeNode + 1)) ++ content (b.nodes.drop (b.writeNode + 1)) := by
        rw [← content_append, List.take_append_drop, htail, List.append_nil]
    _ = content b.nodes := by rw [← content_append, List.take_append_drop]

theorem Layout.unread_length (h : b.Layout R W) : b.unread.length = W - R := by
  have := h.read_le_write
  have := h.write_lt
  rw [h.unread_eq_content, h.marks.content_length]
  omega

/-- `readableBytes` counts the unread bytes. -/
theorem Layout.readableBytes_eq (h : b.Layout R W) : b.readableBytes = b.unread.length := by
  rw [h.unread_length]
  exact h.toRead

/-- `writeableBytes` counts the free bytes. -/
theorem Layout.writeableBytes_eq (h : b.Layout R W) : b.writeableBytes = b.freeSpace := by
  have := h.writeNode_lt
  have := h.writeNode_le
  have := h.write_lt
  have hfree := (h.marks.drop h.writeNode_lt.le).free_sum
  rw [freeSpace, hfree, List.length_drop, writeableBytes, h.toWrite]
  omega

end ByteArray

end Netpp
