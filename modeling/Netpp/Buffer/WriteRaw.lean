import Netpp.Buffer.Alloc

/-!
# Writing to a byte array

`writeLoop` fills the nodes from the write node on. Its specification is stated
on these nodes alone, by induction along them: the write position of the nodes
moves by the length of the data, the data is appended to their content, and the
write node ends at the node of the new write position. `Layout.writeRaw` is the
specification of `writeRaw` on the whole array.
-/

namespace Netpp

/-- A store at the end of a node's unread bytes appends to them. -/
theorem BufferNode.store_stop {n : BufferNode} (data : List UInt8) (hstart : n.start ≤ n.stop)
    (hfit : n.stop + data.length ≤ 1024) :
    ∃ m, n.store n.stop data = .ok m ∧ m.start = n.start ∧
      BufferNode.unread { m with stop := n.stop + data.length } = n.unread ++ data := by
  obtain ⟨m, hstore, hmstart, -, hbuffer⟩ := BufferNode.store_of_le hfit
  refine ⟨m, hstore, hmstart, ?_⟩
  change Segment.slice m.buffer m.start (n.stop + data.length) = _
  rw [hmstart, hbuffer]
  exact Segment.slice_overwrite_append hstart (by rw [n.buffer_length, bufferNodeSize_eq]; omega)

namespace ByteArray

@[simp] theorem writeLoop_nil (size writeNode : Nat) (nodes : List BufferNode) :
    writeLoop size nodes writeNode [] = .ok (nodes, writeNode, []) := by
  cases nodes <;> rfl

/-- One round of the loop, at a node that has room for `n` of the bytes. -/
theorem writeLoop_cons (size writeNode : Nat) (rest : List BufferNode) {n : Nat}
    {node m : BufferNode} {data : List UInt8} (hdata : data.length ≠ 0) (hstop : node.stop ≤ 1024)
    (hn : n = min (1024 - node.stop) data.length)
    (hstore : node.store node.stop (data.take n) = .ok m) :
    writeLoop size (node :: rest) writeNode data =
      (writeLoop size rest
        (if writeNode + 1 < size ∧ node.stop + n = 1024 then writeNode + 1 else writeNode)
        (data.drop n)).map fun r =>
          ({ m with stop := node.stop + n } :: r.1, r.2.1, r.2.2) := by
  have hroom : Word64.sub 1024 node.stop = 1024 - node.stop :=
    Word64.sub_of_le hstop (by decide)
  have hbytes : (if 1024 - node.stop < data.length then 1024 - node.stop else data.length) = n := by
    split <;> omega
  have hadd : Word64.add node.stop n = node.stop + n := Word64.add_of_lt (by omega)
  rw [writeLoop, if_neg hdata]
  simp only [hroom, hbytes, hstore, hadd, bufferNodeSize_eq, bind, Except.bind]
  cases writeLoop size rest
    (if writeNode + 1 < size ∧ node.stop + n = 1024 then writeNode + 1 else writeNode)
    (data.drop n) <;> rfl

/-- The loop on the nodes from the write node on, whose write position `W` lies
in the first of them. -/
theorem writeLoop_spec (size : Nat) {nodes : List BufferNode} (writeNode : Nat) {R W : Nat}
    (data : List UInt8) (hsize : writeNode + nodes.length = size) (hmarks : Marks R W nodes)
    (hRW : R ≤ W) (hW : W ≤ 1024) (hfit : W + data.length ≤ 1024 * nodes.length) :
    ∃ nodes' k, writeLoop size nodes writeNode data = .ok (nodes', writeNode + k, []) ∧
      Marks R (W + data.length) nodes' ∧ nodes'.length = nodes.length ∧
      content nodes' = content nodes ++ data ∧ 1024 * k ≤ W + data.length ∧
      k < max nodes.length 1 ∧
      (W < 1024 ∨ data ≠ [] → W + data.length < 1024 * nodes.length →
        W + data.length < 1024 * (k + 1)) := by
  induction nodes generalizing writeNode R W data with
  | nil =>
      rw [List.length_nil] at hfit
      obtain rfl : data = [] := List.length_eq_zero_iff.mp (by omega)
      exact ⟨[], 0, rfl, trivial, rfl, rfl, by omega, by simp, fun _ h => by simp at h⟩
  | cons node rest ih =>
      obtain ⟨hstart, hstop, hrest⟩ := hmarks
      rw [List.length_cons] at hsize hfit
      by_cases hdata : data = []
      · subst hdata
        refine ⟨node :: rest, 0, writeLoop_nil .., ⟨hstart, hstop, hrest⟩, rfl, by simp,
          by omega, by simp, ?_⟩
        rintro (h | h)
        · intro _
          simpa using h
        · exact absurd rfl h
      have hlen : data.length ≠ 0 := fun h => hdata (List.length_eq_zero_iff.mp h)
      obtain ⟨n, hn⟩ : ∃ n, n = min (1024 - node.stop) data.length := ⟨_, rfl⟩
      have htake : (data.take n).length = n := by
        rw [List.length_take]
        omega
      obtain ⟨m, hstore, hmstart, hunread⟩ := BufferNode.store_stop (n := node)
        (data.take n) (by omega) (by omega)
      rw [htake] at hunread
      have hloop := writeLoop_cons size writeNode rest hlen (by omega) hn hstore
      by_cases hall : W + data.length ≤ 1024
      · -- the rest of the data fits into this node
        have hndata : n = data.length := by omega
        have hdrop : data.drop n = [] := List.drop_eq_nil_iff.mpr (by omega)
        rw [hdrop, writeLoop_nil] at hloop
        have hmarks' : Marks (R - 1024) (W + data.length - 1024) rest := by
          rwa [Nat.sub_eq_zero_of_le hall, ← Nat.sub_eq_zero_of_le hW]
        have hcontent : content rest = [] := hmarks'.content_eq_nil (.inl (by omega))
        refine ⟨{ m with stop := node.stop + n } :: rest,
          if writeNode + 1 < size ∧ node.stop + n = 1024 then 1 else 0, ?_, ?_, ?_, ?_, ?_⟩
        · rw [hloop]
          simp only [Except.map]
          split <;> rfl
        · refine ⟨by rw [← hstart]; exact hmstart, ?_, hmarks'⟩
          change node.stop + n = _
          omega
        · rfl
        · rw [content_cons, content_cons, hunread, hcontent, hndata, List.take_length]
          simp
        · refine ⟨?_, ?_, ?_⟩
          · split <;> omega
          · rw [List.length_cons]
            split <;> omega
          · intro _ hlt
            rw [List.length_cons] at hlt
            split <;> omega
      · -- the node is filled up and the loop goes on with the next one
        have hfull : node.stop + n = 1024 := by omega
        have hnext : writeNode + 1 < size := by omega
        have hdrop : (data.drop n).length = data.length - n := List.length_drop
        have hcontent : content rest = [] := hrest.content_eq_nil (.inl (by omega))
        rw [if_pos ⟨hnext, hfull⟩] at hloop
        obtain ⟨rest', k, hrec, hmarks', hlength, hcontent', hle, hk, hlt⟩ :=
          ih (writeNode + 1) (data.drop n) (by omega) hrest
            (by omega) (by omega) (by omega)
        refine ⟨{ m with stop := node.stop + n } :: rest', k + 1, ?_, ?_, ?_, ?_, ?_, ?_, ?_⟩
        · rw [hloop, hrec, Nat.add_assoc, Nat.add_comm 1 k]
          rfl
        · refine ⟨by rw [← hstart]; exact hmstart, ?_, ?_⟩
          · change node.stop + n = _
            omega
          · have hpos : W - 1024 + (data.drop n).length = W + data.length - 1024 := by omega
            rwa [hpos] at hmarks'
        · rw [List.length_cons, List.length_cons, hlength]
        · rw [content_cons, content_cons, hunread, hcontent', hcontent]
          simp
        · omega
        · rw [List.length_cons]
          omega
        · intro _ hW'
          rw [List.length_cons] at hW'
          have hne : data.drop n ≠ [] := by
            intro h
            rw [h] at hdrop
            simp at hdrop
            omega
          have := hlt (.inr hne) (by omega)
          omega

variable {b : ByteArray} {R W : Nat}

/-- Writing where there is already room for the data. -/
theorem Layout.writeRaw_of_lt (h : b.Layout R W) (data : List UInt8)
    (hnodes : 1024 * b.nodes.length < 2 ^ 64)
    (hroom : data.length < b.availableSizeToWrite) :
    ∃ b', b.writeRaw data = .ok b' ∧ b'.Layout R (W + data.length) ∧
      b'.unread = b.unread ++ data ∧ b'.nodes.length = b.nodes.length := by
  have hr := h.readNode_le_writeNode
  have hw := h.writeNode_lt
  have hwriteLe := h.writeNode_le
  have hwriteLt := h.lt_writeNode
  have htoWrite := h.toWrite
  have htoRead := h.toRead
  have hread := h.readNode_le
  have hRW := h.read_le_write
  have hlt := h.write_lt
  have hlength : (b.nodes.drop b.writeNode).length = b.nodes.length - b.writeNode :=
    List.length_drop
  have htakeLength : (b.nodes.take b.writeNode).length = b.writeNode := by
    rw [List.length_take]
    omega
  obtain ⟨nodes', k, hloop, hmarks, hlength', hcontent, hle, -, hnext⟩ :=
    writeLoop_spec b.nodes.length b.writeNode data (by omega) (h.marks.drop hw.le) (by omega)
      (by omega) (by omega)
  have hwritten : Word64.sub data.length ([] : List UInt8).length = data.length :=
    Word64.sub_zero_of_lt (by omega)
  refine ⟨{ b with
    nodes := b.nodes.take b.writeNode ++ nodes'
    writeNode := b.writeNode + k
    availableSizeToRead := b.availableSizeToRead + data.length
    availableSizeToWrite := b.availableSizeToWrite - data.length }, ?_, ?_⟩
  · rw [writeRaw, if_neg (by omega)]
    simp only [bind, Except.bind, hloop, hwritten]
    rw [Word64.add_of_lt (by omega), Word64.sub_of_le (by omega) (by omega)]
  have hlayout : Layout { b with
      nodes := b.nodes.take b.writeNode ++ nodes'
      writeNode := b.writeNode + k
      availableSizeToRead := b.availableSizeToRead + data.length
      availableSizeToWrite := b.availableSizeToWrite - data.length } R (W + data.length) := by
    have hnewLength : (b.nodes.take b.writeNode ++ nodes').length = b.nodes.length := by
      rw [List.length_append, hlength', htakeLength, hlength]
      omega
    constructor
    · rw [marks_append, htakeLength]
      refine ⟨?_, ?_⟩
      · -- the nodes before the write node are full, wherever the write position is
        have hmarksTake := h.marks.take b.writeNode
        exact hmarksTake.write_of_le (by rw [htakeLength]; exact hwriteLe) (by omega)
      · have hpos : W - 1024 * b.writeNode + data.length =
            W + data.length - 1024 * b.writeNode := by
          omega
        rwa [hpos] at hmarks
    · omega
    · rw [hnewLength]
      omega
    · exact hread
    · exact h.le_readNode
    · change 1024 * (b.writeNode + k) ≤ _
      omega
    · change _ < 1024 * (b.writeNode + k + 1)
      have := hnext (.inl (by omega)) (by omega)
      omega
    · change b.availableSizeToRead + data.length = _
      omega
    · rw [hnewLength]
      change b.availableSizeToWrite - data.length = _
      omega
  refine ⟨hlayout, ?_, ?_⟩
  · rw [hlayout.unread_eq_content, h.unread_eq_content, content_append, hcontent,
      ← List.append_assoc, ← content_append, List.take_append_drop]
  · rw [List.length_append, hlength', htakeLength, hlength]
    omega

/-- After an allocation that gives enough room, `writeRaw` goes on as if there always
had been enough. -/
theorem writeRaw_of_alloc {b c : ByteArray} {data : List UInt8}
    (hneed : b.availableSizeToWrite ≤ data.length)
    (halloc : b.unlockedAllocIfNotEnough data.length = .ok c)
    (hroom : data.length < c.availableSizeToWrite) : b.writeRaw data = c.writeRaw data := by
  have hfits : ¬c.availableSizeToWrite ≤ data.length := Nat.not_le.mpr hroom
  rw [writeRaw, writeRaw, if_pos hneed, if_neg hfits, halloc]

/-- `writeRaw` appends the data to the unread bytes. The node count stays below
`bound` when the unread bytes and the data do. -/
theorem Layout.writeRaw (h : b.Layout R W) (data : List UInt8)
    (hnodes : 1024 * b.nodes.length < 2 ^ 64)
    (hsize : b.readableBytes + data.length < 2 ^ 62) :
    ∃ b' R', b.writeRaw data = .ok b' ∧ b'.Layout R' (R' + (W - R) + data.length) ∧
      b'.unread = b.unread ++ data ∧
      (b'.nodes.length = b.nodes.length ∨
        1024 * b'.nodes.length ≤ 2 * (b.readableBytes + data.length + 1024)) := by
  have hRW := h.read_le_write
  by_cases hroom : data.length < b.availableSizeToWrite
  · obtain ⟨b', hok, hlayout, hunread, hlength⟩ := h.writeRaw_of_lt data hnodes hroom
    have hpos : R + (W - R) = W := by omega
    exact ⟨b', R, hok, by rwa [hpos], hunread, .inl hlength⟩
  · -- after the allocation there is room
    obtain ⟨k, halloc, hgrown, hbound⟩ := h.alloc data.length hnodes hsize (by omega)
    have hlayout := h.grown k
    have hgrownLength : (b.grown k).nodes.length = b.nodes.length + k :=
      b.grown_length (by have := h.readNode_le_writeNode; have := h.writeNode_lt; omega)
    have hread : b.readableBytes = W - R := h.toRead
    have hpos := h.readNode_le
    have hgrownNodes : 1024 * (b.grown k).nodes.length < 2 ^ 64 := by
      rw [hgrownLength]
      by_cases hk : k = 0
      · omega
      · have := hbound hk
        omega
    obtain ⟨b', hok, hlayout', hunread, hlength⟩ :=
      hlayout.writeRaw_of_lt data hgrownNodes hgrown
    refine ⟨b', R - 1024 * b.readNode, ?_, ?_, ?_, ?_⟩
    · rw [writeRaw_of_alloc (by omega) halloc hgrown, hok]
    · have hposition : R - 1024 * b.readNode + (W - R) = W - 1024 * b.readNode := by omega
      rwa [hposition]
    · rw [hunread, h.grown_unread]
    · rw [hlength, hgrownLength]
      by_cases hk : k = 0
      · exact .inl (by omega)
      · exact .inr (hbound hk).2

/-- Writing no bytes to an array without unread bytes leaves none. -/
theorem writeRaw_nil_readableBytes {b b' : ByteArray} (h : b.writeRaw [] = .ok b')
    (hempty : b.readableBytes = 0) : b'.readableBytes = 0 := by
  unfold writeRaw at h
  dsimp only at h
  split at h
  · obtain ⟨b₁, halloc, h⟩ := Except.exists_of_bind_eq_ok h
    simp only [writeLoop_nil, bind, Except.bind] at h
    cases h
    change Word64.add b₁.readableBytes 0 = 0
    rw [unlockedAllocIfNotEnough_readableBytes halloc, hempty]
    rfl
  · simp only [writeLoop_nil, bind, Except.bind] at h
    cases h
    change Word64.add b.readableBytes 0 = 0
    rw [hempty]
    rfl

end ByteArray

end Netpp
