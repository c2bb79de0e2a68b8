import Netpp.Buffer.WriteRaw

/-!
# Reading from a byte array

`retrieveLoop` copies bytes out of the nodes from the read node on. As for
writing, its specification is stated on these nodes alone: the read position of
the nodes moves by the number of bytes wanted, which are the first ones of their
content. `Layout.retrieveRaw` is the specification of `retrieveRaw`.
-/

namespace Netpp

namespace ByteArray

@[simp] theorem retrieveLoop_zero (size readNode writeNode : Nat) (nodes : List BufferNode) :
    retrieveLoop size nodes readNode writeNode 0 = .ok ⟨nodes, readNode, writeNode, 0, []⟩ := by
  cases nodes <;> rfl

/-- One round of the loop, at a node that gives `n` of the bytes wanted; the
write node is never the node that is exhausted. -/
theorem retrieveLoop_cons (size readNode writeNode : Nat) (rest : List BufferNode)
    {length n : Nat} {node : BufferNode} (hlength : length ≠ 0) (hstart : node.start ≤ node.stop)
    (hstop : node.stop ≤ 1024) (hn : n = min (node.stop - node.start) length)
    (hwrite : node.start + n = 1024 → readNode ≠ writeNode) :
    retrieveLoop size (node :: rest) readNode writeNode length =
      (retrieveLoop size rest
        (if node.start + n = 1024 ∧ readNode + 1 < size then readNode + 1 else readNode)
        writeNode (length - n)).map fun r =>
          { r with
            nodes := { node with start := node.start + n } :: r.nodes
            copied := node.unread.take n ++ r.copied } := by
  have hfilled : Word64.sub node.stop node.start = node.stop - node.start :=
    Word64.sub_of_le hstart (by omega)
  have hbytes :
      (if node.stop - node.start < length then node.stop - node.start else length) = n := by
    split <;> omega
  have hload : node.load node.start n = .ok (node.unread.take n) := by
    rw [BufferNode.load_of_le (by omega), BufferNode.unread, Segment.slice_take _ (by omega)]
  have hadd : Word64.add node.start n = node.start + n := Word64.add_of_lt (by omega)
  have hkeep : (if (node.start + n = 1024 ∧ readNode + 1 < size) ∧ readNode = writeNode
      then writeNode + 1 else writeNode) = writeNode :=
    if_neg fun h => hwrite h.1.1 h.2
  rw [retrieveLoop, if_neg hlength]
  simp only [hfilled, hbytes, hload, hadd, bufferNodeSize_eq, hkeep, bind, Except.bind]
  cases retrieveLoop size rest
    (if node.start + n = 1024 ∧ readNode + 1 < size then readNode + 1 else readNode)
    writeNode (length - n) <;> rfl

/-- The loop on the nodes from the read node on, whose read position `R` lies in
the first of them and whose write position `W` is not after the write node. -/
theorem retrieveLoop_spec (size : Nat) {nodes : List BufferNode}
    (readNode writeNode length : Nat) {R W : Nat} (hmarks : Marks R W nodes) (hRW : R ≤ W)
    (hR : R ≤ 1024) (hW : W ≤ 1024 * nodes.length)
    (hsize : 1024 * readNode + W < 1024 * size)
    (hwrite : 1024 * readNode + W < 1024 * (writeNode + 1)) (hlength : length ≤ W - R) :
    ∃ nodes' k, retrieveLoop size nodes readNode writeNode length =
        .ok ⟨nodes', readNode + k, writeNode, 0, (content nodes).take length⟩ ∧
      Marks (R + length) W nodes' ∧ nodes'.length = nodes.length ∧
      content nodes' = (content nodes).drop length ∧
      1024 * k ≤ R + length ∧ R + length ≤ 1024 * (k + 1) := by
  induction nodes generalizing readNode length R W with
  | nil =>
      rw [List.length_nil] at hW
      obtain rfl : length = 0 := by omega
      exact ⟨[], 0, rfl, trivial, rfl, rfl, by omega, by omega⟩
  | cons node rest ih =>
      obtain ⟨hstart, hstop, hrest⟩ := hmarks
      rw [List.length_cons] at hW
      by_cases hzero : length = 0
      · subst hzero
        exact ⟨node :: rest, 0, retrieveLoop_zero .., ⟨hstart, hstop, hrest⟩, rfl, rfl,
          by omega, by omega⟩
      obtain ⟨n, hn⟩ : ∃ n, n = min (node.stop - node.start) length := ⟨_, rfl⟩
      have hloop := retrieveLoop_cons size readNode writeNode rest hzero (by omega) (by omega) hn
        (by omega)
      have hunread : BufferNode.unread { node with start := node.start + n } =
          node.unread.drop n := by
        rw [BufferNode.unread, BufferNode.unread, Segment.slice_drop]
      have hunreadLength : node.unread.length = node.stop - node.start :=
        BufferNode.unread_length (by omega)
      by_cases hall : length ≤ node.stop - node.start
      · -- this node has all the bytes that are still wanted
        have hnlength : n = length := by omega
        rw [hnlength, Nat.sub_self, retrieveLoop_zero] at hloop
        refine ⟨{ node with start := node.start + n } :: rest,
          if node.start + n = 1024 ∧ readNode + 1 < size then 1 else 0, ?_, ?_, rfl, ?_, ?_, ?_⟩
        · rw [hloop, ← hnlength]
          simp only [Except.map, List.append_nil, content_cons]
          rw [List.take_append_of_le_length (by omega)]
          split <;> rfl
        · refine ⟨?_, hstop, ?_⟩
          · change node.start + n = _
            omega
          · have hpos : R - 1024 = R + length - 1024 := by omega
            rwa [hpos] at hrest
        · rw [content_cons, content_cons, hunread, hnlength,
            List.drop_append_of_le_length (by omega)]
        · split <;> omega
        · split <;> omega
      · -- the node is exhausted and the loop goes on with the next one
        have hnall : n = node.unread.length := by omega
        have hend : node.start + n = 1024 := by omega
        have hnext : readNode + 1 < size := by omega
        have htake : (content (node :: rest)).take length =
            node.unread ++ (content rest).take (length - n) := by
          rw [content_cons, List.take_append, ← hnall, List.take_of_length_le (by omega)]
        have hdrop : (content (node :: rest)).drop length = (content rest).drop (length - n) := by
          rw [content_cons, List.drop_append, ← hnall,
            List.drop_of_length_le (l := node.unread) (by omega), List.nil_append]
        rw [if_pos ⟨hend, hnext⟩] at hloop
        obtain ⟨nodes', k, hrec, hmarks', hlength', hcontent, hle, hlt⟩ :=
          ih (readNode + 1) (length - n) hrest (by omega) (by omega)
            (by omega) (by omega) (by omega) (by omega)
        refine ⟨{ node with start := node.start + n } :: nodes', k + 1, ?_, ?_, ?_, ?_, ?_, ?_⟩
        · rw [hloop, hrec]
          simp only [Except.map, htake]
          rw [List.take_of_length_le (l := node.unread) (by omega), Nat.add_assoc,
            Nat.add_comm 1 k]
        · refine ⟨?_, hstop, ?_⟩
          · change node.start + n = _
            omega
          · have hpos : R - 1024 + (length - n) = R + length - 1024 := by omega
            rwa [hpos] at hmarks'
        · rw [List.length_cons, List.length_cons, hlength']
        · rw [hdrop, content_cons, hunread, hcontent,
            List.drop_of_length_le (l := node.unread) (by omega), List.nil_append]
        · omega
        · omega

variable {b : ByteArray} {R W : Nat}

/-- The nodes up to `endOfReadNode` reach the write position. -/
theorem Layout.endOfReadNode (h : b.Layout R W) :
    ∃ stop, b.endOfReadNode = .ok stop ∧ b.readNode < stop ∧ stop ≤ b.writeNode + 1 ∧
      W ≤ 1024 * stop := by
  have hr := h.readNode_le_writeNode
  have hw := h.writeNode_lt
  have hwriteLe := h.writeNode_le
  have hwriteLt := h.lt_writeNode
  unfold ByteArray.endOfReadNode
  by_cases heq : b.writeNode = b.readNode
  · rw [if_pos heq]
    exact ⟨_, rfl, by omega, by omega, by omega⟩
  · rw [if_neg heq, List.getElem?_eq_getElem hw]
    have hstop := (h.marks.getElem hw).2
    by_cases hzero : b.nodes[b.writeNode].stop = 0
    · exact ⟨b.writeNode, by simp [hzero], by omega, by omega, by omega⟩
    · exact ⟨b.writeNode + 1, by simp [hzero], by omega, by omega, by omega⟩

/-- The nodes before `stop` are those before the read node and those visited. -/
theorem take_append_visited {r stop : Nat} (h : r ≤ stop) (nodes : List BufferNode) :
    nodes.take r ++ (nodes.take stop).drop r = nodes.take stop := by
  have htake : (nodes.take stop).take r = nodes.take r := by
    rw [List.take_take, Nat.min_eq_left h]
  rw [← htake, List.take_append_drop]

/-- The unread bytes lie in the nodes from the read node up to the write position. -/
theorem Layout.unread_eq_visited (h : b.Layout R W) {stop : Nat} (hread : b.readNode ≤ stop)
    (hstop : stop ≤ b.nodes.length) (hreach : W ≤ 1024 * stop) :
    b.unread = content ((b.nodes.take stop).drop b.readNode) := by
  have hhead : content (b.nodes.take b.readNode) = [] := by
    refine (h.marks.take _).content_eq_nil (.inr ?_)
    have := h.readNode_le
    rw [List.length_take]
    omega
  have hrest : content (b.nodes.drop stop) = [] :=
    (h.marks.drop hstop).content_eq_nil (.inl (by omega))
  rw [h.unread_eq_content, ← List.take_append_drop stop b.nodes, content_append, hrest,
    List.append_nil, ← take_append_visited hread b.nodes, content_append, hhead, List.nil_append,
    take_append_visited hread b.nodes, List.take_append_drop]

/-- Retrieving more bytes than there are does nothing. -/
theorem retrieveRaw_of_lt {length : Nat} (h : b.readableBytes < length) :
    b.retrieveRaw length = .ok (b, 0, []) :=
  if_neg (Nat.not_le.mpr h)

/-- `retrieveRaw` takes the first unread bytes. -/
theorem Layout.retrieveRaw (h : b.Layout R W) (length : Nat)
    (hnodes : 1024 * b.nodes.length < 2 ^ 64) (hlength : length ≤ b.readableBytes) :
    ∃ b', b.retrieveRaw length = .ok (b', length, b.unread.take length) ∧
      b'.Layout (R + length) W ∧ b'.unread = b.unread.drop length ∧
      b'.nodes.length = b.nodes.length := by
  have hr := h.readNode_le_writeNode
  have hw := h.writeNode_lt
  have hread := h.readNode_le
  have hreadLe := h.le_readNode
  have hRW := h.read_le_write
  have hlt := h.write_lt
  have hwriteLt := h.lt_writeNode
  have htoRead : b.availableSizeToRead = W - R := h.toRead
  have hreadable : length ≤ b.availableSizeToRead := hlength
  obtain ⟨stop, hend, hstopLt, hstopLe, hreach⟩ := h.endOfReadNode
  obtain ⟨visited, hvisited⟩ : ∃ visited, visited = (b.nodes.take stop).drop b.readNode := ⟨_, rfl⟩
  have hvisitedLength : visited.length = stop - b.readNode := by
    rw [hvisited, List.length_drop, List.length_take]
    omega
  have hheadLength : (b.nodes.take b.readNode).length = b.readNode := by
    rw [List.length_take]
    omega
  have htail : b.readNode + visited.length = stop := by omega
  have hsplit : b.nodes.take b.readNode ++ visited ++ b.nodes.drop stop = b.nodes := by
    rw [hvisited, take_append_visited hstopLt.le, List.take_append_drop]
  have hmarksVisited : Marks (R - 1024 * b.readNode) (W - 1024 * b.readNode) visited := by
    rw [hvisited]
    exact (h.marks.take stop).drop (by rw [List.length_take]; omega)
  obtain ⟨nodes', k, hloop, hmarks, hlength', hcontent, hle, hge⟩ :=
    retrieveLoop_spec b.nodes.length b.readNode b.writeNode length hmarksVisited (by omega)
      (by omega) (by omega) (by omega) (by omega) (by omega)
  have hhead : content (b.nodes.take b.readNode) = [] :=
    (h.marks.take _).content_eq_nil (.inr (by omega))
  have hrest : content (b.nodes.drop stop) = [] :=
    (h.marks.drop (k := stop) (by omega)).content_eq_nil (.inl (by omega))
  have hunread : b.unread = content visited := by
    rw [hvisited]
    exact h.unread_eq_visited hstopLt.le (by omega) hreach
  obtain ⟨b', hb'⟩ : ∃ b' : ByteArray, b' = { b with
      nodes := b.nodes.take b.readNode ++ nodes' ++ b.nodes.drop stop
      readNode := b.readNode + k
      availableSizeToRead := b.availableSizeToRead - length } := ⟨_, rfl⟩
  have hnewLength : b'.nodes.length = b.nodes.length := by
    rw [hb', ← congrArg List.length hsplit, List.length_append, List.length_append,
      List.length_append, List.length_append, hlength']
  have hnewMarks : Marks (R + length) W b'.nodes := by
    have hmarksSplit := h.marks
    rw [← hsplit, marks_append, marks_append, List.length_append, hheadLength, htail]
      at hmarksSplit
    rw [hb', marks_append, marks_append, List.length_append, hheadLength, hlength', htail]
    refine ⟨⟨hmarksSplit.1.1.read_of_le (by omega) (by omega), ?_⟩, ?_⟩
    · have hpos : R - 1024 * b.readNode + length = R + length - 1024 * b.readNode := by omega
      rwa [hpos] at hmarks
    · have hpos : R + length - 1024 * stop = R - 1024 * stop := by omega
      rw [hpos]
      exact hmarksSplit.2
  have hlayout : b'.Layout (R + length) W := by
    constructor
    · exact hnewMarks
    · omega
    · omega
    · rw [hb']
      change 1024 * (b.readNode + k) ≤ _
      omega
    · rw [hb']
      change _ ≤ 1024 * (b.readNode + k + 1)
      omega
    · rw [hb']
      exact h.writeNode_le
    · rw [hb']
      exact hwriteLt
    · rw [hb']
      change b.availableSizeToRead - length = _
      omega
    · rw [hnewLength, hb']
      exact h.toWrite
  refine ⟨b', ?_, hlayout, ?_, hnewLength⟩
  · rw [ByteArray.retrieveRaw, if_pos hreadable, hend]
    simp only [bind, Except.bind, ← hvisited, hloop, Nat.sub_zero, htail]
    rw [Word64.sub_of_le (by omega) (by omega), hunread, hb']
  · rw [hlayout.unread_eq_content, hb', content_append, content_append, hhead, hrest, hcontent,
      hunread, List.nil_append, List.append_nil]

end ByteArray

end Netpp
