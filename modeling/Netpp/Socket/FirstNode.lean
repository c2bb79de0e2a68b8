import Netpp.Socket.GatherView

/-!
# The first node of the unread bytes

Some callers look at the first stretch of a reader only. It is what the first node with
unread bytes holds. Consuming less than this node holds drops a prefix, unless the read
node comes before it: then the read node, which is exhausted, is moved on past its end,
and no byte is dropped.
-/

namespace Netpp

/-- The unread bytes of the first node that has any. -/
def firstUnread : List BufferNode → List UInt8
  | [] => []
  | n :: rest => if n.unread = [] then firstUnread rest else n.unread

theorem firstUnread_prefix (nodes : List BufferNode) : firstUnread nodes <+: content nodes := by
  induction nodes with
  | nil => exact List.nil_prefix
  | cons n rest ih =>
      rw [firstUnread, content_cons]
      split
      · rename_i hempty
        rw [hempty]
        exact ih
      · exact List.prefix_append _ _

theorem firstUnread_append {xs : List BufferNode} (ys : List BufferNode)
    (h : firstUnread xs ≠ []) : firstUnread (xs ++ ys) = firstUnread xs := by
  induction xs with
  | nil => exact absurd rfl h
  | cons n rest ih =>
      rw [firstUnread] at h
      rw [List.cons_append, firstUnread, firstUnread]
      split
      · rename_i hempty
        rw [if_pos hempty] at h
        exact ih h
      · rfl

theorem firstUnread_length {nodes : List BufferNode} (h : ∀ n ∈ nodes, n.stop ≤ 1024) :
    (firstUnread nodes).length ≤ 1024 := by
  induction nodes with
  | nil => exact Nat.zero_le _
  | cons n rest ih =>
      rw [firstUnread]
      split
      · exact ih fun m hm => h m (List.mem_cons_of_mem _ hm)
      · have hn := h n (List.mem_cons_self ..)
        rw [BufferNode.unread_length hn]
        omega

/-- The first stretch of some nodes of a list, of which the first has index `i`. -/
theorem gather_first {nodes : List BufferNode} {i : Nat} {segment : List BufferNode}
    (hsegment : segment <+: nodes.drop i)
    (h : ∀ n ∈ segment, n.start ≤ n.stop ∧ n.stop ≤ 1024) :
    ByteArrayReaderWithLock.iovecLoop i segment = [] ∧ content segment = [] ∨
      ∃ v vs, ByteArrayReaderWithLock.iovecLoop i segment = v :: vs ∧
        gather nodes [v] = .ok (firstUnread segment) ∧ firstUnread segment ≠ [] := by
  induction segment generalizing i with
  | nil => exact .inl ⟨rfl, rfl⟩
  | cons node rest ih =>
      obtain ⟨hstart, hstop⟩ := h node (List.mem_cons_self ..)
      obtain ⟨tail, htail⟩ := hsegment
      have hi : i < nodes.length := by
        have hlength := congrArg List.length htail
        rw [List.length_append, List.length_cons, List.length_drop] at hlength
        omega
      rw [List.drop_eq_getElem_cons hi, List.cons_append] at htail
      injection htail with hnode hrest
      have hfilled : Word64.sub node.stop node.start = node.stop - node.start :=
        Word64.sub_of_le hstart (by omega)
      have hlength : node.unread.length = node.stop - node.start := BufferNode.unread_length hstop
      rw [ByteArrayReaderWithLock.iovecLoop, hfilled, firstUnread, content_cons]
      by_cases hempty : node.stop - node.start = 0
      · have hunread : node.unread = [] := List.length_eq_zero_iff.mp (by omega)
        rw [if_neg (not_not.mpr hempty), if_pos hunread, hunread, List.nil_append]
        exact ih ⟨tail, hrest⟩ fun n hn => h n (List.mem_cons_of_mem _ hn)
      · have hunread : node.unread ≠ [] := by
          intro hnil
          rw [hnil, List.length_nil] at hlength
          omega
        have hload : nodes[i].load node.start (node.stop - node.start) = .ok node.unread := by
          rw [← hnode, BufferNode.load_of_le (by omega), BufferNode.unread,
            Nat.add_sub_cancel' hstart]
        refine .inr ⟨_, _, by rw [if_pos hempty], ?_, ?_⟩
        · rw [if_neg hunread]
          simp only [gather, nodeAt_of_lt hi, hload, bind, Except.bind, List.append_nil]
        · rwa [if_neg hunread]

namespace ByteArray

open ByteArrayReaderWithLock

variable {limit : Nat} {b : ByteArray} {R W n : Nat} {q : List UInt8}

/-- The unread bytes of the first node from the read node on that has any. -/
def firstNode (b : ByteArray) : List UInt8 := firstUnread (b.nodes.drop b.readNode)

theorem Layout.content_eq_nil_of_exhausted (h : b.Layout R W) :
    content (b.nodes.take b.readNode) = [] := by
  have hread := h.readNode_le
  refine (h.marks.take _).content_eq_nil (.inr ?_)
  rw [List.length_take]
  omega

theorem Layout.firstNode_prefix (h : b.Layout R W) : b.firstNode <+: b.unread := by
  have hsplit : content b.nodes = content (b.nodes.drop b.readNode) := by
    rw [← List.take_append_drop b.readNode b.nodes, content_append, h.content_eq_nil_of_exhausted,
      List.nil_append, List.take_append_drop]
  rw [h.unread_eq_content, hsplit]
  exact firstUnread_prefix _

theorem Layout.reader_first (h : b.Layout R W) :
    iovec b = .ok [] ∧ b.unread = [] ∨
      ∃ v vs, iovec b = .ok (v :: vs) ∧ gather b.nodes [v] = .ok b.firstNode ∧
        b.firstNode ≠ [] := by
  have hw := h.writeNode_lt
  obtain ⟨stop, hend, hread, hstop, hreach⟩ := h.endOfReadNode
  have hvisited := h.unread_eq_visited hread.le (by omega) hreach
  have hsplit : b.nodes.drop b.readNode = (b.nodes.take stop).drop b.readNode ++
      (b.nodes.drop b.readNode).drop (stop - b.readNode) := by
    rw [List.drop_take, List.take_append_drop]
  rw [iovec_of_endOfReadNode hend (by omega), hvisited]
  rcases gather_first (b.visited_prefix stop) fun _ => h.visited_offsets with
    ⟨hnone, hcontent⟩ | ⟨v, vs, hsome, hgather, hne⟩
  · rw [hnone]
    exact .inl ⟨rfl, hcontent⟩
  · have hfirst : b.firstNode = firstUnread ((b.nodes.take stop).drop b.readNode) := by
      rw [firstNode, hsplit, firstUnread_append _ hne]
    rw [hsome, hfirst]
    exact .inr ⟨v, vs, rfl, hgather, hne⟩

theorem Holds.reader_first (h : Holds limit b q) :
    iovec b = .ok [] ∧ q = [] ∨
      ∃ v vs, iovec b = .ok (v :: vs) ∧ gather b.nodes [v] = .ok b.firstNode ∧
        b.firstNode ≠ [] := by
  obtain ⟨rfl, -, R, W, hlayout⟩ := h
  exact hlayout.reader_first

theorem Holds.firstNode_prefix (h : Holds limit b q) : b.firstNode <+: q := by
  obtain ⟨rfl, -, R, W, hlayout⟩ := h
  exact hlayout.firstNode_prefix

theorem Holds.lt_readableBytes (h : Holds limit b q) (hn : n < b.firstNode.length) :
    n < b.readableBytes := by
  rw [h.readableBytes]
  exact lt_of_lt_of_le hn h.firstNode_prefix.length_le

theorem Holds.firstNode_length (h : Holds limit b q) : b.firstNode.length ≤ 1024 := by
  obtain ⟨-, -, R, W, hlayout⟩ := h
  exact firstUnread_length fun n hn =>
    (hlayout.marks.offsets_le hlayout.read_le_write (List.mem_of_mem_drop hn)).2

/-- A read node that is not exhausted is the first node, if there are unread bytes. -/
theorem Layout.firstNode_length (h : b.Layout R W) (hstart : b.readStart < 1024)
    (hunread : b.unread ≠ []) : b.readStart + b.firstNode.length ≤ 1024 := by
  have hr : b.readNode < b.nodes.length :=
    Nat.lt_of_le_of_lt h.readNode_le_writeNode h.writeNode_lt
  have hpos := List.length_pos_iff.mpr hunread
  have hlength := h.unread_length
  have hmark := h.marks.getElem hr
  have hread := h.readNode_le
  rw [h.readStart_eq] at hstart ⊢
  have hnode : b.nodes[b.readNode].unread.length =
      b.nodes[b.readNode].stop - b.nodes[b.readNode].start :=
    BufferNode.unread_length (by omega)
  have hne : b.nodes[b.readNode].unread ≠ [] := by
    intro hnil
    rw [hnil, List.length_nil] at hnode
    omega
  rw [firstNode, List.drop_eq_getElem_cons hr, firstUnread, if_neg hne, hnode]
  omega

/-- Less than the first node holds is consumed exactly if it is the read node. -/
theorem Holds.consumesExactly_iff (h : Holds limit b q) (hpos : 0 < n)
    (hn : n < b.firstNode.length) : b.ConsumesExactly n ↔ b.readStart < 1024 := by
  have hfirst := h.firstNode_length
  have hreadable := h.lt_readableBytes hn
  obtain ⟨rfl, -, R, W, hlayout⟩ := h
  have hne : b.unread ≠ [] := by
    intro hnil
    rw [hlayout.readableBytes_eq, hnil] at hreadable
    exact Nat.not_lt_zero _ hreadable
  rw [ConsumesExactly, bufferNodeSize_eq]
  constructor
  · intro hexact
    omega
  · intro hstart
    have hroom := hlayout.firstNode_length hstart hne
    omega

/-- Consuming moves an exhausted read node on and drops nothing. -/
theorem Layout.adjustByteArray_of_exhausted (h : b.Layout R W)
    (hnodes : 1024 * b.nodes.length < 2 ^ 64) (hstart : ¬b.readStart < 1024) (hn : n < 1024)
    (hreadable : n < b.readableBytes) :
    ∃ b', adjustByteArray b n = .ok b' ∧ b'.unread = b.unread := by
  have hw := h.writeNode_lt
  have hread := h.readNode_le_writeNode
  have hr : b.readNode < b.nodes.length := Nat.lt_of_le_of_lt hread hw
  obtain ⟨hzero, hleft⟩ := moveForward_of_lt hn
  have hadjust := (h.adjustByteArray_of_lt (r := b.readNode) hnodes hreadable
    (by rw [hzero, Nat.add_zero])).2 hr
  have hmark := h.marks.getElem hr
  have htoWrite := h.toWrite
  have hreadLe := h.readNode_le
  have hRW := h.read_le_write
  have hlt := h.write_lt
  rw [h.readStart_eq] at hstart
  have hempty : b.nodes[b.readNode].unread = [] := BufferNode.unread_of_le (by omega)
  have hstop : b.nodes[b.readNode].stop ≤ 1024 := by omega
  have hmoved (p : Nat) (hp : 1024 ≤ p) :
      BufferNode.unread { b.nodes[b.readNode] with start := p } = [] :=
    Segment.slice_of_le _ (hstop.trans hp)
  refine ⟨_, hadjust, ?_⟩
  rw [unlockedMoveBufferHead_eq]
  · have hunread : b.unread =
        content ((b.nodes.drop (b.readNode + 1)).take (b.writeNode - b.readNode)) := by
      rw [ByteArray.unread, List.drop_take, List.drop_eq_getElem_cons hr,
        show b.writeNode + 1 - b.readNode = b.writeNode - b.readNode + 1 by omega,
        List.take_succ_cons]
      change content (_ :: _) = _
      rw [content_cons, hempty, List.nil_append]
    have hroom : b.writeNode - b.readNode ≤ (b.nodes.drop (b.readNode + 1)).length := by
      rw [List.length_drop]
      omega
    rw [hunread, ByteArray.unread]
    change content ((((b.aim _ _ _ _).grown 0).nodes.take
      (b.writeNode - b.readNode + 1)).drop 0) = _
    rw [List.drop_zero, aim_nodes hr, List.cons_append, List.take_succ_cons, content_cons,
      hmoved _ (by omega), List.nil_append, List.take_append_of_le_length hroom]
  · exact hread
  · change b.writeNode < _
    omega
  · change b.availableSizeToWrite + 1024 * b.readNode < _
    omega

theorem Holds.adjustByteArray_of_exhausted (h : Holds memoryLimit b q)
    (hstart : ¬b.readStart < 1024) (hn : n < b.firstNode.length) :
    ∃ b', ByteArrayReaderWithLock.adjustByteArray b n = .ok b' ∧ b'.unread = q := by
  have hfit := h.nodes_lt memoryLimit_le
  have hsmall := lt_of_lt_of_le hn h.firstNode_length
  have hreadable := h.lt_readableBytes hn
  obtain ⟨rfl, -, R, W, hlayout⟩ := h
  exact hlayout.adjustByteArray_of_exhausted hfit hstart hsmall hreadable

end ByteArray

end Netpp
