import Netpp.Buffer.Layout
import Netpp.Library.Except

/-!
# Growing a byte array

`unlockedAllocIfNotEnough` first moves the exhausted head nodes to the tail and,
if this does not give enough room, appends new nodes. Both together yield
`grown b k`, the array with its head moved and `k` new nodes, with exact counts.
The positions of a layout move down with the head and the unread bytes stay. The
arithmetic does not overflow while the bytes in use and the size asked for are
below `2 ^ 63`, and then the loop over the node count ends.
-/

namespace Netpp

namespace ByteArray

/-- The array with its head moved to the tail and `k` new nodes appended. -/
def grown (b : ByteArray) (k : Nat) : ByteArray :=
  { b with
    nodes := moveToTail b.nodes b.readNode BufferNode.reset ++ List.replicate k BufferNode.new
    availableSizeToWrite := b.availableSizeToWrite + 1024 * b.readNode + 1024 * k
    writeNode := b.writeNode - b.readNode
    readNode := 0 }

theorem moveToTail_length {nodes : List BufferNode} {stop : Nat} (h : stop ≤ nodes.length)
    (f : BufferNode → BufferNode) : (moveToTail nodes stop f).length = nodes.length := by
  simp only [moveToTail, List.length_append, List.length_drop, List.length_map, List.length_take]
  omega

theorem grown_length (b : ByteArray) {k : Nat} (h : b.readNode ≤ b.nodes.length) :
    (b.grown k).nodes.length = b.nodes.length + k := by
  rw [grown, List.length_append, moveToTail_length h, List.length_replicate]

theorem unlockedMoveBufferHead_readableBytes (b : ByteArray) :
    b.unlockedMoveBufferHead.readableBytes = b.readableBytes := by
  unfold unlockedMoveBufferHead
  split <;> rfl

theorem unlockedMoveBufferHead_nodes (b : ByteArray) :
    b.unlockedMoveBufferHead.nodes = (b.grown 0).nodes := by
  rw [grown, List.replicate_zero, List.append_nil]
  unfold unlockedMoveBufferHead
  split
  case isTrue hzero => simp [moveToTail, hzero]
  case isFalse => rfl

theorem unlockedAllocIfNotEnough_readableBytes {b b' : ByteArray} {size : Nat}
    (h : b.unlockedAllocIfNotEnough size = .ok b') : b'.readableBytes = b.readableBytes := by
  unfold unlockedAllocIfNotEnough at h
  split at h
  · dsimp only at h
    split at h
    · obtain ⟨idleNodeCount, -, h⟩ := Except.exists_of_bind_eq_ok h
      cases h
      exact b.unlockedMoveBufferHead_readableBytes
    · cases h
      exact b.unlockedMoveBufferHead_readableBytes
  · cases h
    rfl

/-- Moving the head is growing by no node. -/
theorem unlockedMoveBufferHead_eq {b : ByteArray} (hr : b.readNode ≤ b.writeNode)
    (hw : b.writeNode < 2 ^ 64)
    (hfit : b.availableSizeToWrite + 1024 * b.readNode < 2 ^ 64) :
    b.unlockedMoveBufferHead = b.grown 0 := by
  unfold unlockedMoveBufferHead
  split
  · rename_i hzero
    simp [grown, moveToTail, hzero]
    rw [← hzero]
  · have hmul : Word64.mul b.readNode bufferNodeSize = b.readNode * 1024 :=
      Word64.mul_of_lt (by rw [bufferNodeSize_eq]; omega)
    rw [hmul, Word64.add_of_lt (by omega), Word64.sub_of_le hr hw]
    simp [grown, Nat.mul_comm]

theorem newWriteable_eq {b : ByteArray} {count : Nat} (hcount : b.nodes.length ≤ count)
    (hfit : 1024 * count < 2 ^ 64)
    (havail : b.availableSizeToWrite ≤ 1024 * b.nodes.length + 1) :
    newWriteable b count = 1024 * (count - b.nodes.length) + b.availableSizeToWrite := by
  have hsub : Word64.sub count b.nodes.length = count - b.nodes.length :=
    Word64.sub_of_le hcount (by omega)
  rw [newWriteable, hsub, bufferNodeSize_eq, Word64.mul_of_lt (by omega),
    Word64.add_of_lt (by omega), Nat.mul_comm]

/-- The loop over the node count ends with a count that is large enough, and no
larger than twice what is needed. -/
theorem growLoop_spec {b : ByteArray} (size : Nat)
    (havail : b.availableSizeToWrite ≤ 1024 * b.nodes.length + 1)
    (hused : 1024 * b.nodes.length - b.availableSizeToWrite + size < 2 ^ 63)
    (fuel count : Nat) (hcount : b.nodes.length ≤ count) (hfit : 1024 * count < 2 ^ 64)
    (hfuel : 2 ^ 64 ≤ count * 2 ^ fuel) :
    ∃ k, growLoop b size fuel count = .ok (b.nodes.length + k) ∧
      newWriteable b (b.nodes.length + k) = b.availableSizeToWrite + 1024 * k ∧
      size < b.availableSizeToWrite + 1024 * k ∧
      (1024 * (b.nodes.length + k) ≤ 1024 * count ∨
        1024 * (b.nodes.length + k) ≤
          2 * (1024 * b.nodes.length - b.availableSizeToWrite + size)) := by
  induction fuel generalizing count with
  | zero => omega
  | succ fuel ih =>
      have hnew := newWriteable_eq hcount hfit havail
      by_cases hle : newWriteable b count ≤ size
      · have hdouble : Word64.mul count 2 = count * 2 := Word64.mul_of_lt (by omega)
        have hnext : 2 ^ 64 ≤ count * 2 * 2 ^ fuel := by
          rwa [Nat.mul_assoc, ← Nat.pow_succ']
        obtain ⟨k, hloop, hwriteable, hsize, hbound⟩ :=
          ih (count * 2) (by omega) (by omega) hnext
        refine ⟨k, ?_, hwriteable, hsize, by omega⟩
        rw [growLoop, if_pos hle, hdouble, hloop]
      · have hback : b.nodes.length + (count - b.nodes.length) = count := by omega
        refine ⟨count - b.nodes.length, ?_, ?_, ?_, ?_⟩
        · rw [growLoop, if_neg hle, hback]
        · rw [hback, hnew, Nat.add_comm]
        · omega
        · omega

/-- What an allocation that is needed does: the head is moved, and nodes are
added only if the room this gives is not enough. -/
theorem unlockedAllocIfNotEnough_spec {b : ByteArray} {size : Nat}
    (hr : b.readNode ≤ b.writeNode) (hw : b.writeNode < b.nodes.length)
    (hnodes : 1024 * b.nodes.length < 2 ^ 64)
    (havail : b.availableSizeToWrite + 1024 * b.readNode ≤ 1024 * b.nodes.length + 1)
    (hused : 1024 * b.nodes.length - (b.availableSizeToWrite + 1024 * b.readNode) + size < 2 ^ 63)
    (hneed : b.availableSizeToWrite ≤ size) :
    ∃ k, b.unlockedAllocIfNotEnough size = .ok (b.grown k) ∧
      size < b.availableSizeToWrite + 1024 * b.readNode + 1024 * k ∧
      (k ≠ 0 → b.availableSizeToWrite + 1024 * b.readNode ≤ size ∧
        1024 * (b.nodes.length + k) ≤
          2 * (1024 * b.nodes.length - (b.availableSizeToWrite + 1024 * b.readNode) + size)) := by
  have hmove : b.unlockedMoveBufferHead = b.grown 0 :=
    unlockedMoveBufferHead_eq hr (by omega) (by omega)
  have hlength : (b.grown 0).nodes.length = b.nodes.length := b.grown_length (by omega)
  have hwriteable : (b.grown 0).availableSizeToWrite =
      b.availableSizeToWrite + 1024 * b.readNode := rfl
  by_cases hmoved : b.availableSizeToWrite + 1024 * b.readNode ≤ size
  · have hdouble : Word64.mul (b.grown 0).nodes.length 2 = b.nodes.length * 2 := by
      rw [hlength]
      exact Word64.mul_of_lt (by omega)
    obtain ⟨k, hloop, hnew, hsize, hbound⟩ := growLoop_spec (b := b.grown 0) size
      (by rw [hwriteable, hlength]; exact havail) (by rw [hwriteable, hlength]; exact hused)
      64 (b.nodes.length * 2) (by omega) (by omega) (by omega)
    rw [hwriteable, hlength] at hnew hbound
    rw [hwriteable] at hsize
    rw [hlength] at hloop
    refine ⟨k, ?_, hsize, fun _ => ⟨hmoved, ?_⟩⟩
    · rw [unlockedAllocIfNotEnough, if_pos hneed, hmove]
      simp only [hwriteable, if_pos hmoved, hdouble, hloop]
      simp only [bind, Except.bind, hnew]
      rw [allocMore, if_neg (by rw [hlength]; omega), hlength, Nat.add_sub_cancel_left]
      simp [grown]
    · omega
  · refine ⟨0, ?_, by omega, fun h => absurd rfl h⟩
    rw [unlockedAllocIfNotEnough, if_pos hneed, hmove]
    simp only [hwriteable, if_neg hmoved]

variable {b : ByteArray} {R W : Nat}

/-- The positions move down with the head. -/
theorem Layout.grown (h : b.Layout R W) (k : Nat) :
    (b.grown k).Layout (R - 1024 * b.readNode) (W - 1024 * b.readNode) := by
  have hread := h.readNode_le
  have hreadLe := h.le_readNode
  have hwriteLe := h.writeNode_le
  have hwriteLt := h.lt_writeNode
  have hRW := h.read_le_write
  have hlt := h.write_lt
  have hr := h.readNode_le_writeNode
  have hw := h.writeNode_lt
  have hlength : (b.grown k).nodes.length = b.nodes.length + k := b.grown_length (by omega)
  have hmarks : Marks (R - 1024 * b.readNode) (W - 1024 * b.readNode) (b.grown k).nodes := by
    have hdrop := h.marks.drop (k := b.readNode) (by omega)
    have hdropLength : (b.nodes.drop b.readNode).length = b.nodes.length - b.readNode :=
      List.length_drop
    rw [ByteArray.grown, moveToTail, marks_append, marks_append]
    refine ⟨⟨hdrop, ?_⟩, ?_⟩
    · rw [hdropLength, Nat.sub_eq_zero_of_le (by omega), Nat.sub_eq_zero_of_le (by omega)]
      exact marks_map_reset _
    · rw [List.length_append, hdropLength, Nat.sub_eq_zero_of_le (by omega),
        Nat.sub_eq_zero_of_le (by omega)]
      exact marks_replicate_new k
  constructor
  · exact hmarks
  · omega
  · rw [hlength]
    omega
  · exact Nat.zero_le _
  · change R - 1024 * b.readNode ≤ 1024 * (0 + 1)
    omega
  · change 1024 * (b.writeNode - b.readNode) ≤ W - 1024 * b.readNode
    omega
  · change W - 1024 * b.readNode < 1024 * (b.writeNode - b.readNode + 1)
    omega
  · change b.availableSizeToRead = _
    rw [h.toRead]
    omega
  · change b.availableSizeToWrite + 1024 * b.readNode + 1024 * k = _
    rw [hlength, h.toWrite]
    omega

theorem Layout.grown_unread (h : b.Layout R W) (k : Nat) : (b.grown k).unread = b.unread := by
  have hr := h.readNode_le_writeNode
  have hw := h.writeNode_lt
  have hhead : content (b.nodes.take b.readNode) = [] := by
    refine (h.marks.take _).content_eq_nil (.inr ?_)
    have := h.readNode_le
    rw [List.length_take]
    omega
  have hreset : content ((b.nodes.take b.readNode).map BufferNode.reset) = [] :=
    (marks_map_reset _).content_eq_nil (.inl le_rfl)
  have hnew : content (List.replicate k BufferNode.new) = [] :=
    (marks_replicate_new k).content_eq_nil (.inl le_rfl)
  calc (b.grown k).unread
      = content (b.grown k).nodes := (h.grown k).unread_eq_content
    _ = content (b.nodes.drop b.readNode) := by
        rw [ByteArray.grown, moveToTail, content_append, content_append, hreset, hnew,
          List.append_nil, List.append_nil]
    _ = content b.nodes := by
        rw [← List.nil_append (content (b.nodes.drop b.readNode)), ← hhead, ← content_append,
          List.take_append_drop]
    _ = b.unread := h.unread_eq_content.symm

/-- An allocation from a layout: enough room, the same unread bytes, and a node
count bounded by the bytes in use and the size asked for. -/
theorem Layout.alloc (h : b.Layout R W) (size : Nat) (hnodes : 1024 * b.nodes.length < 2 ^ 64)
    (hsize : b.readableBytes + size < 2 ^ 62) (hneed : b.availableSizeToWrite ≤ size) :
    ∃ k, b.unlockedAllocIfNotEnough size = .ok (b.grown k) ∧
      size < b.availableSizeToWrite + 1024 * b.readNode + 1024 * k ∧
      (k ≠ 0 → b.availableSizeToWrite + 1024 * b.readNode ≤ size ∧
        1024 * (b.nodes.length + k) ≤ 2 * (b.readableBytes + size + 1024)) := by
  have hread := h.readNode_le
  have hreadLe := h.le_readNode
  have hRW := h.read_le_write
  have hlt := h.write_lt
  have htoWrite := h.toWrite
  have htoRead : b.readableBytes = W - R := h.toRead
  obtain ⟨k, hok, hroom, hgrow⟩ := unlockedAllocIfNotEnough_spec h.readNode_le_writeNode
    h.writeNode_lt hnodes (by omega) (by omega) hneed
  refine ⟨k, hok, hroom, fun hk => ?_⟩
  have := hgrow hk
  omega

end ByteArray

end Netpp
