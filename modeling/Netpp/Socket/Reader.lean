import Netpp.Buffer.Fifo
import Netpp.Library.Run
import Netpp.Socket.SocketIO

/-!
# Consuming through the reader

`ByteArrayReaderWithLock::adjustByteArray` moves the read node by whole nodes
and then the `start` of the node it has reached. It counts the size from the
beginning of the read node, not from its `start`, so it drops the right bytes
only if the two agree. `ConsumesExactly` is the condition for this and
`Layout.consumesPrefix_iff` the proof that it is exact; the run theorem follows
by the rule `Run.always_iff_always`.
-/

namespace Netpp

namespace ByteArray

/-- The `start` of the read node. -/
def readStart (b : ByteArray) : Nat :=
  match b.nodes[b.readNode]? with
  | none => 0
  | some node => node.start

/-- The array with its read cursor at offset `p` of node `r`, before its head is
moved. -/
def aim (b : ByteArray) (r p : Nat) (node : BufferNode) (toRead : Nat) : ByteArray :=
  { b with
    readNode := r
    availableSizeToRead := toRead
    nodes := b.nodes.set r { node with start := p } }

variable {b : ByteArray} {R W : Nat}

theorem Layout.readStart_eq (h : b.Layout R W) : b.readStart = R - 1024 * b.readNode := by
  have hr : b.readNode < b.nodes.length :=
    Nat.lt_of_le_of_lt h.readNode_le_writeNode h.writeNode_lt
  have hstart := (h.marks.getElem hr).1
  have hle := h.le_readNode
  rw [readStart, List.getElem?_eq_getElem hr]
  change b.nodes[b.readNode].start = _
  omega

theorem aim_drop {r p toRead : Nat} (hr : r < b.nodes.length) :
    (b.aim r p b.nodes[r] toRead).nodes.drop r =
      { b.nodes[r] with start := p } :: b.nodes.drop (r + 1) := by
  rw [aim, List.drop_set, if_neg (lt_irrefl r), Nat.sub_self, List.drop_eq_getElem_cons hr,
    List.set_cons_zero]

/-- The nodes of the array when its head has been moved. -/
theorem aim_nodes {r p toRead : Nat} (hr : r < b.nodes.length) :
    ((b.aim r p b.nodes[r] toRead).grown 0).nodes =
      { b.nodes[r] with start := p } :: b.nodes.drop (r + 1) ++
        (b.nodes.take r).map BufferNode.reset := by
  have htake : (b.aim r p b.nodes[r] toRead).nodes.take r = b.nodes.take r := by
    rw [aim, List.take_set_of_le (le_refl r)]
  rw [grown, moveToTail, List.replicate_zero, List.append_nil]
  change (b.aim r p b.nodes[r] toRead).nodes.drop r ++
    ((b.aim r p b.nodes[r] toRead).nodes.take r).map BufferNode.reset = _
  rw [aim_drop hr, htake]

theorem aim_length {r p toRead : Nat} (hr : r < b.nodes.length) :
    ((b.aim r p b.nodes[r] toRead).grown 0).nodes.length = b.nodes.length := by
  rw [aim_nodes hr, List.length_append, List.length_cons, List.length_drop, List.length_map,
    List.length_take]
  omega

/-- Wherever the cursor is aimed at behind the read node, the nodes are marked
by the new offset. -/
theorem Layout.aim_marks (h : b.Layout R W) (toRead : Nat) {r p : Nat} (hread : b.readNode ≤ r)
    (hr : r < b.nodes.length) (hp : p ≤ 1024) :
    Marks p (W - 1024 * r) ((b.aim r p b.nodes[r] toRead).grown 0).nodes := by
  have hle := h.le_readNode
  have hlt := h.write_lt
  have hdrop := h.marks.drop hr.le
  rw [List.drop_eq_getElem_cons hr] at hdrop
  obtain ⟨hstart, hstop, hrest⟩ := hdrop
  have hlength : ({ b.nodes[r] with start := p } :: b.nodes.drop (r + 1)).length =
      b.nodes.length - r := by
    rw [List.length_cons, List.length_drop]
    omega
  rw [aim_nodes hr, marks_append, hlength]
  constructor
  · refine ⟨(Nat.min_eq_left hp).symm, hstop, ?_⟩
    rw [Nat.sub_eq_zero_of_le hp]
    rwa [show R - 1024 * r - 1024 = 0 by omega] at hrest
  · rw [Nat.sub_eq_zero_of_le (by omega), Nat.sub_eq_zero_of_le (by omega)]
    exact marks_map_reset _

/-- Aiming at a position between the read and the write position drops the bytes
before it. -/
theorem Layout.aim (h : b.Layout R W) {r p : Nat} (hread : b.readNode ≤ r)
    (hr : r < b.nodes.length) (hp : p ≤ 1024) (hR : R ≤ 1024 * r + p) (hW : 1024 * r + p ≤ W) :
    ((b.aim r p b.nodes[r] (W - (1024 * r + p))).grown 0).Layout p (W - 1024 * r) ∧
      ((b.aim r p b.nodes[r] (W - (1024 * r + p))).grown 0).unread =
        b.unread.drop (1024 * r + p - R) := by
  have hlt := h.write_lt
  have hwrite := h.writeNode_le
  have hwriteLt := h.lt_writeNode
  have hmarks := h.aim_marks (W - (1024 * r + p)) hread hr hp
  have hlength : ((b.aim r p b.nodes[r] (W - (1024 * r + p))).grown 0).nodes.length =
      b.nodes.length := aim_length hr
  have hlayout :
      ((b.aim r p b.nodes[r] (W - (1024 * r + p))).grown 0).Layout p (W - 1024 * r) := by
    constructor
    · exact hmarks
    · omega
    · omega
    · exact Nat.zero_le _
    · exact hp
    · change 1024 * (b.writeNode - r) ≤ _
      omega
    · change _ < 1024 * (b.writeNode - r + 1)
      omega
    · change W - (1024 * r + p) = _
      omega
    · change b.availableSizeToWrite + 1024 * r + 1024 * 0 = _
      rw [hlength, h.toWrite]
      omega
  refine ⟨hlayout, ?_⟩
  have hmark := h.marks.getElem hr
  have hprefix : (content (b.nodes.take r)).length = 1024 * r - R := by
    rw [(h.marks.take r).content_length, List.length_take]
    omega
  have hunread : BufferNode.unread { b.nodes[r] with start := p } =
      b.nodes[r].unread.drop (p - b.nodes[r].start) := by
    have hstart : b.nodes[r].start + (p - b.nodes[r].start) = p := by omega
    rw [BufferNode.unread, BufferNode.unread, Segment.slice_drop, hstart]
  have hunreadLength : b.nodes[r].unread.length = b.nodes[r].stop - b.nodes[r].start :=
    BufferNode.unread_length (by omega)
  have hreset : content ((b.nodes.take r).map BufferNode.reset) = [] :=
    (marks_map_reset _).content_eq_nil (.inl le_rfl)
  have hsplit : content b.nodes =
      content (b.nodes.take r) ++ (b.nodes[r].unread ++ content (b.nodes.drop (r + 1))) := by
    rw [← content_cons, ← List.drop_eq_getElem_cons hr, ← content_append, List.take_append_drop]
  have hleft : 1024 * r + p - R - (1024 * r - R) = p - b.nodes[r].start := by omega
  rw [hlayout.unread_eq_content, h.unread_eq_content, aim_nodes hr, content_append, content_cons,
    hreset, hunread, List.append_nil, hsplit, List.drop_append,
    List.drop_of_length_le (l := content (b.nodes.take r)) (by omega), List.nil_append, hprefix,
    hleft, List.drop_append_of_le_length (by omega)]

/-- The size counted from the beginning of the read node ends where it does
counted from the read position: all bytes are consumed, or the end lies in the
read node, or the read node is unread and whole nodes are consumed, or it is
exhausted and some bytes of a later node are consumed. -/
def ConsumesExactly (b : ByteArray) (size : Nat) : Prop :=
  size = b.readableBytes ∨
  size < bufferNodeSize ∧ b.readStart + size ≤ bufferNodeSize ∨
  size % bufferNodeSize = 0 ∧ b.readStart = 0 ∨
  bufferNodeSize ≤ size ∧ size % bufferNodeSize ≠ 0 ∧ b.readStart = bufferNodeSize

instance (b : ByteArray) (size : Nat) : Decidable (b.ConsumesExactly size) :=
  inferInstanceAs (Decidable (_ ∨ _))

/-- `b'` is `b` without its first `size` unread bytes, as `retrieveRaw` leaves
it, and its offsets and cursors are in order. -/
structure ConsumesPrefix (b : ByteArray) (size : Nat) (b' : ByteArray) : Prop where
  unread : b'.unread = b.unread.drop size
  retrieveRaw : ∃ b'', b.retrieveRaw size = .ok (b'', size, b.unread.take size) ∧
    b'.unread = b''.unread ∧ b'.readableBytes = b''.readableBytes
  offsets : ∀ n ∈ b'.nodes, n.start ≤ n.stop
  readNode_le : b'.readNode ≤ b'.writeNode
  writeNode_lt : b'.writeNode < b'.nodes.length

open ByteArrayReaderWithLock

theorem moveForward_of_lt {size : Nat} (h : size < 1024) :
    moveForward size = 0 ∧ size % 1024 = size := by
  rw [moveForward, bufferNodeSize_eq, Nat.div_eq_of_lt h, if_neg (by simp)]
  exact ⟨rfl, Nat.mod_eq_of_lt h⟩

/-- From one node on, the nodes to skip are those that are wholly consumed, and
one more if bytes are left. -/
theorem moveForward_of_le {size : Nat} (h : 1024 ≤ size) :
    1024 * moveForward size + size % 1024 = size ∧ size % 1024 = 0 ∨
      1024 * moveForward size + size % 1024 = size + 1024 ∧ size % 1024 ≠ 0 := by
  rw [moveForward, bufferNodeSize_eq]
  by_cases hleft : size % 1024 = 0
  · rw [if_neg (by simp [hleft])]
    omega
  · rw [if_pos ⟨by omega, hleft⟩]
    omega

/-- Consuming everything that is there. -/
theorem Layout.adjustByteArray_of_le (h : b.Layout R W) {size : Nat}
    (hnodes : 1024 * b.nodes.length < 2 ^ 64) (hsize : b.readableBytes ≤ size) :
    ∃ b', adjustByteArray b size = .ok b' ∧ (∃ R' W', b'.Layout R' W') ∧
      b'.unread = b.unread.drop size ∧ b'.nodes.length = b.nodes.length := by
  have hw := h.writeNode_lt
  have hwrite := h.writeNode_le
  have hlt := h.write_lt
  have hRW := h.read_le_write
  have hwriteLt := h.lt_writeNode
  have hmark := h.marks.getElem hw
  have htoWrite := h.toWrite
  have htoRead : b.readableBytes = W - R := h.toRead
  have hstop : b.nodes[b.writeNode].stop = W - 1024 * b.writeNode := by omega
  have hzero : W - (1024 * b.writeNode + b.nodes[b.writeNode].stop) = 0 := by omega
  have haim := h.aim (r := b.writeNode) (p := b.nodes[b.writeNode].stop)
    h.readNode_le_writeNode hw (by omega) (by omega) (by omega)
  rw [hzero] at haim
  obtain ⟨hlayout, hunread⟩ := haim
  have hunreadLength := h.unread_length
  refine ⟨_, ?_, ⟨_, _, hlayout⟩, ?_, ?_⟩
  · have hall : b.availableSizeToRead ≤ size := hsize
    rw [adjustByteArray, if_pos hall]
    simp only [nodeAt_of_lt hw, bind, Except.bind]
    refine congrArg Except.ok (unlockedMoveBufferHead_eq (le_refl _) ?_ ?_)
    · change b.writeNode < _
      omega
    · change b.availableSizeToWrite + 1024 * b.writeNode < _
      omega
  · rw [hunread, List.drop_of_length_le (by omega), List.drop_of_length_le (by omega)]
  · exact aim_length hw

/-- Consuming less than there is aims at the node `moveForward` nodes on. -/
theorem Layout.adjustByteArray_of_lt (h : b.Layout R W) {size r : Nat}
    (hnodes : 1024 * b.nodes.length < 2 ^ 64) (hsize : size < b.readableBytes)
    (hr : r = b.readNode + moveForward size) :
    (b.nodes.length ≤ r → adjustByteArray b size = .error .outOfRange) ∧
      ∀ hlt : r < b.nodes.length, adjustByteArray b size =
        .ok (b.aim r (b.nodes[r].start + size % 1024) b.nodes[r]
          (W - R - size)).unlockedMoveBufferHead := by
  have hread := h.readNode_le_writeNode
  have hw := h.writeNode_lt
  have hRW := h.read_le_write
  have hlt := h.write_lt
  have htoRead : b.readableBytes = W - R := h.toRead
  have havail : b.availableSizeToRead = W - R := h.toRead
  have hsmall : moveForward size ≤ size / 1024 + 1 := by
    rw [moveForward, bufferNodeSize_eq]
    split <;> omega
  have hadd : Word64.add b.readNode (moveForward size) = r := by
    rw [Word64.add_of_lt (by omega), hr]
  constructor
  · intro hge
    rw [adjustByteArray, if_neg (by omega)]
    simp only [hadd, nodeAt_of_le hge, bind, Except.bind]
  · intro hlt'
    have hmark := h.marks.getElem hlt'
    rw [adjustByteArray, if_neg (by omega)]
    simp only [hadd, nodeAt_of_lt hlt', bufferNodeSize_eq, bind, Except.bind]
    rw [Word64.add_of_lt (by omega), Word64.sub_of_le (by omega) (by omega), havail]
    rfl

/-- The condition says that the aim is at the position `size` bytes after the
read position, and inside its node. -/
theorem Layout.consumesExactly_iff (h : b.Layout R W) {size r : Nat}
    (hsize : size < b.readableBytes) (hr : r = b.readNode + moveForward size) :
    b.ConsumesExactly size ↔
      1024 * r + (R - 1024 * r + size % 1024) = R + size ∧
        R - 1024 * r + size % 1024 ≤ 1024 := by
  have hread := h.readNode_le
  have hreadLe := h.le_readNode
  have hne : size ≠ b.readableBytes := hsize.ne
  rw [ConsumesExactly, h.readStart_eq, bufferNodeSize_eq, hr]
  rcases Nat.lt_or_ge size 1024 with hlt | hge
  · obtain ⟨hzero, hleft⟩ := moveForward_of_lt hlt
    rw [hzero, hleft]
    omega
  · rcases moveForward_of_le hge with ⟨hforward, hleft⟩ | ⟨hforward, hleft⟩
    · omega
    · omega

/-- Under the condition, consuming drops a prefix and keeps a layout. -/
theorem Layout.adjustByteArray_of_exact (h : b.Layout R W) {size : Nat}
    (hnodes : 1024 * b.nodes.length < 2 ^ 64)
    (hexact : size ≤ b.readableBytes → b.ConsumesExactly size) :
    ∃ b', adjustByteArray b size = .ok b' ∧ (∃ R' W', b'.Layout R' W') ∧
      b'.unread = b.unread.drop size ∧ b'.nodes.length = b.nodes.length := by
  rcases Nat.lt_or_ge size b.readableBytes with hsize | hsize
  · obtain ⟨r, hr⟩ : ∃ r, r = b.readNode + moveForward size := ⟨_, rfl⟩
    obtain ⟨htarget, hinside⟩ := (h.consumesExactly_iff hsize hr).mp (hexact hsize.le)
    have hRW := h.read_le_write
    have hlt := h.write_lt
    have hwriteLt := h.lt_writeNode
    have htoWrite := h.toWrite
    have htoRead : b.readableBytes = W - R := h.toRead
    have hr' : r < b.nodes.length := by omega
    have hstart : b.nodes[r].start = R - 1024 * r := by
      have hmark := (h.marks.getElem hr').1
      omega
    have hadjust := (h.adjustByteArray_of_lt hnodes hsize hr).2 hr'
    have haim := h.aim (r := r) (p := R - 1024 * r + size % 1024) (by omega) hr' hinside
      (by omega) (by omega)
    have hleft : W - (1024 * r + (R - 1024 * r + size % 1024)) = W - R - size := by omega
    have hdrop : 1024 * r + (R - 1024 * r + size % 1024) - R = size := by omega
    rw [hleft, hdrop] at haim
    refine ⟨_, ?_, ⟨_, _, haim.1⟩, haim.2, ?_⟩
    · rw [hadjust, hstart]
      refine congrArg Except.ok (unlockedMoveBufferHead_eq ?_ ?_ ?_)
      · change r ≤ b.writeNode
        omega
      · have hw := h.writeNode_lt
        change b.writeNode < _
        omega
      · change b.availableSizeToWrite + 1024 * r < _
        omega
    · exact aim_length hr'
  · exact h.adjustByteArray_of_le hnodes hsize

/-- The unread bytes when the cursors come after the nodes that hold any. -/
theorem unread_eq_nil (h : content b.nodes = []) : b.unread = [] := by
  have hall : ∀ n ∈ b.nodes, n.unread = [] := List.flatMap_eq_nil_iff.mp h
  exact content_eq_nil fun n hn => hall n (List.mem_of_mem_take (List.mem_of_mem_drop hn))

/-- The bytes in the nodes after node `r`. -/
theorem Layout.content_length_after (h : b.Layout R W) {r : Nat} (hR : R ≤ 1024 * (r + 1))
    (hr : r ≤ b.writeNode) :
    (content ((b.nodes.drop (r + 1)).take (b.writeNode - r))).length = W - 1024 * (r + 1) := by
  have hw := h.writeNode_lt
  have hwriteLt := h.lt_writeNode
  have hmarks := (h.marks.drop (k := r + 1) (by omega)).take (b.writeNode - r)
  rw [hmarks.content_length, List.length_take, List.length_drop, Nat.sub_eq_zero_of_le hR]
  omega

/-- Only less than a node can overshoot the end of a node. -/
theorem Layout.lt_of_overshoot (h : b.Layout R W) {size r : Nat}
    (hr : r = b.readNode + moveForward size) (hover : 1024 < R - 1024 * r + size % 1024) :
    r = b.readNode ∧ 1024 * (r + 1) < R + size := by
  have hreadLe := h.le_readNode
  rcases Nat.lt_or_ge size 1024 with hsmall | hbig
  · obtain ⟨hzero, hleft⟩ := moveForward_of_lt hsmall
    omega
  · rcases moveForward_of_le hbig with ⟨hforward, hleft⟩ | ⟨hforward, hleft⟩
    · omega
    · omega

/-- Consuming drops a prefix of the unread bytes under the condition only. -/
theorem Layout.consumesExactly_of_unread (h : b.Layout R W) {size : Nat}
    (hnodes : 1024 * b.nodes.length < 2 ^ 64) (hsize : size < b.readableBytes) {b' : ByteArray}
    (hok : adjustByteArray b size = .ok b') (hunread : b'.unread = b.unread.drop size) :
    b.ConsumesExactly size := by
  obtain ⟨r, hr⟩ : ∃ r, r = b.readNode + moveForward size := ⟨_, rfl⟩
  rw [h.consumesExactly_iff hsize hr]
  have hread := h.readNode_le
  have hreadLe := h.le_readNode
  have hRW := h.read_le_write
  have hlt := h.write_lt
  have hwriteLe := h.writeNode_le
  have hwriteLt := h.lt_writeNode
  have htoWrite := h.toWrite
  have htoRead : b.readableBytes = W - R := h.toRead
  have hexpected := congrArg List.length hunread
  rw [List.length_drop, h.unread_length] at hexpected
  obtain ⟨hfault, hadjust⟩ := h.adjustByteArray_of_lt hnodes hsize hr
  have hr' : r < b.nodes.length := by
    by_contra hge
    rw [hfault (by omega)] at hok
    cases hok
  have hmark := h.marks.getElem hr'
  rw [hadjust hr'] at hok
  injection hok with hb'
  have hnodes' : b'.nodes = { b.nodes[r] with start := b.nodes[r].start + size % 1024 } ::
      b.nodes.drop (r + 1) ++ (b.nodes.take r).map BufferNode.reset := by
    rw [← hb', unlockedMoveBufferHead_nodes, aim_nodes hr']
  have hreset : content ((b.nodes.take r).map BufferNode.reset) = [] :=
    (marks_map_reset _).content_eq_nil (.inl le_rfl)
  have hhead (hbehind : b.nodes[r].stop ≤ b.nodes[r].start + size % 1024) :
      BufferNode.unread { b.nodes[r] with start := b.nodes[r].start + size % 1024 } = [] :=
    Segment.slice_of_le _ hbehind
  by_cases hpast : b.writeNode < r
  · -- the read node has passed the write node, and no bytes are left
    have hnone := hhead (by omega)
    have hrest : content (b.nodes.drop (r + 1)) = [] :=
      (h.marks.drop (by omega)).content_eq_nil (.inl (by omega))
    have hnil : b'.unread = [] := by
      apply unread_eq_nil
      rw [hnodes', content_append, content_cons, hnone, hrest, hreset]
      rfl
    rw [hnil, List.length_nil] at hexpected
    omega
  have hgrown : b' =
      (b.aim r (b.nodes[r].start + size % 1024) b.nodes[r] (W - R - size)).grown 0 := by
    rw [← hb']
    refine unlockedMoveBufferHead_eq ?_ ?_ ?_
    · change r ≤ b.writeNode
      omega
    · change b.writeNode < _
      omega
    · change b.availableSizeToWrite + 1024 * r < _
      omega
  have htake : b'.unread = content (b'.nodes.take (b.writeNode - r + 1)) := by
    rw [ByteArray.unread, hgrown]
    rfl
  by_cases hinside : b.nodes[r].start + size % 1024 ≤ 1024
  · -- the aim is at another position, so another number of bytes is left
    have hmarks := h.aim_marks (W - R - size) (by omega) hr' hinside
    rw [aim_nodes hr', ← hnodes'] at hmarks
    have hlength := congrArg List.length hnodes'
    rw [List.length_append, List.length_cons, List.length_drop, List.length_map,
      List.length_take] at hlength
    have hleft : b'.unread.length = W - 1024 * r - (b.nodes[r].start + size % 1024) := by
      rw [htake, (hmarks.take _).content_length, List.length_take]
      omega
    omega
  · -- the read node starts behind the end of its bytes, of which none is left
    have hnone := hhead (by omega)
    have hover : 1024 < R - 1024 * r + size % 1024 := by
      have hstart := hmark.1
      omega
    obtain ⟨hr'', hlost⟩ := h.lt_of_overshoot hr hover
    have hrest := h.content_length_after (r := r) (hr''.symm ▸ hreadLe) (Nat.not_lt.mp hpast)
    have hroom : b.writeNode - r ≤ (b.nodes.drop (r + 1)).length := by
      have hw := h.writeNode_lt
      rw [List.length_drop]
      omega
    rw [htake, hnodes', List.cons_append, List.take_succ_cons, content_cons, hnone,
      List.nil_append, List.take_append_of_le_length hroom, hrest] at hexpected
    clear hmark hfault hadjust hnone hhead htoWrite
    omega

/-- Without the condition, consuming goes wrong. -/
theorem Layout.not_consumesPrefix (h : b.Layout R W) {size : Nat}
    (hnodes : 1024 * b.nodes.length < 2 ^ 64) (hsize : size < b.readableBytes)
    (hexact : ¬ b.ConsumesExactly size) {b' : ByteArray}
    (hok : adjustByteArray b size = .ok b') : ¬ b.ConsumesPrefix size b' :=
  fun hprefix => hexact (h.consumesExactly_of_unread hnodes hsize hok hprefix.unread)

/-- A consumption of no more bytes than there are drops a prefix. -/
def DropsPrefix (b : ByteArray) : Op Nat → Prop
  | .call _ => True
  | .adjust size => size ≤ b.readableBytes →
      ∃ b', adjustByteArray b size = .ok b' ∧ b.ConsumesPrefix size b'

/-- A consumption of no more bytes than there are meets the condition. -/
def AdjustsExactly (b : ByteArray) : Op Nat → Prop
  | .call _ => True
  | .adjust size => size ≤ b.readableBytes → b.ConsumesExactly size

theorem Holds.adjustByteArray {q : List UInt8} (h : Holds memoryLimit b q) {size : Nat}
    (hexact : size ≤ b.readableBytes → b.ConsumesExactly size) :
    ∃ b', adjustByteArray b size = .ok b' ∧ Holds memoryLimit b' (q.drop size) := by
  have hfit := h.nodes_lt memoryLimit_le
  obtain ⟨rfl, hnodes, R, W, hlayout⟩ := h
  obtain ⟨b', hok, hlayout', hunread, hlength⟩ :=
    hlayout.adjustByteArray_of_exact hfit hexact
  exact ⟨b', hok, hunread, by omega, hlayout'⟩

/-- A consumption that meets the condition leaves what a retrieval leaves. -/
theorem Holds.consumesPrefix {q : List UInt8} (h : Holds memoryLimit b q) {size : Nat}
    {b' : ByteArray} (hsize : size ≤ b.readableBytes)
    (h' : Holds memoryLimit b' (q.drop size)) :
    b.ConsumesPrefix size b' := by
  have hreadable := h.readableBytes
  obtain ⟨b'', hretrieve, hholds⟩ := h.retrieveRaw (n := size) memoryLimit_le (by omega)
  have hnode := (h'.represents memoryLimit_le).nodeInvariant
  constructor
  · rw [h'.1, h.1]
  · rw [h.1]
    exact ⟨b'', hretrieve, by rw [h'.1, hholds.1],
      by rw [h'.readableBytes, hholds.readableBytes]⟩
  · exact fun n hn => (hnode.offsets n hn).1
  · exact hnode.readNode_le_writeNode
  · exact hnode.writeNode_lt

/-- Step lemma: at an array that holds some bytes, a step drops a prefix exactly
if it meets the condition. -/
theorem Holds.dropsPrefix_iff {q : List UInt8} (h : Holds memoryLimit b q) (op : Op Nat) :
    b.DropsPrefix op ↔ b.AdjustsExactly op := by
  cases op with
  | call c => exact Iff.rfl
  | adjust size =>
      constructor
      · intro hdrops hsize
        obtain ⟨b', hok, hprefix⟩ := hdrops hsize
        have hfit := h.nodes_lt memoryLimit_le
        obtain ⟨-, -, R, W, hlayout⟩ := h
        by_contra hexact
        rcases Nat.lt_or_ge size b.readableBytes with hlt | hge
        · exact hlayout.not_consumesPrefix hfit hlt hexact hok hprefix
        · exact hexact (.inl (Nat.le_antisymm hsize hge))
      · intro hexact hsize
        obtain ⟨b', hok, hholds⟩ := h.adjustByteArray hexact
        exact ⟨b', hok, h.consumesPrefix hsize hholds⟩

/-- Along every run of writes, retrievals and consumptions, each consumption
drops a prefix exactly if each one meets the condition. -/
theorem dropsPrefix_iff_adjustsExactly (ops : List (Op Nat)) :
    Run.Always (step adjustByteArray) DropsPrefix new ops ↔
      Run.Always (step adjustByteArray) AdjustsExactly new ops := by
  apply Run.always_iff_always (J := fun b => ∃ q, Holds memoryLimit b q)
  · rintro b op b' ⟨q, hholds⟩ hexact hok
    cases op with
    | call c => exact ⟨_, hholds.step_call hok⟩
    | adjust size =>
        obtain ⟨b'', hok', hholds'⟩ := hholds.adjustByteArray hexact
        obtain rfl : b'' = b' := by
          change ByteArrayReaderWithLock.adjustByteArray b size = _ at hok
          rw [hok'] at hok
          injection hok
        exact ⟨_, hholds'⟩
  · rintro b op ⟨q, hholds⟩
    exact hholds.dropsPrefix_iff op
  · exact ⟨[], new_holds _⟩

/-- After 1026 bytes have been written and one of them retrieved, consuming 1024
bytes leaves two bytes instead of one. -/
theorem dropsPrefix_fails : ¬ Run.Always (step adjustByteArray) DropsPrefix new
    [.call (.put (List.replicate 1026 0)), .call (.get 1), .adjust 1024] := by
  intro h
  have hrun : (Run.final (step adjustByteArray) new
      [.call (.put (List.replicate 1026 0)), .call (.get 1)]).map (fun b =>
        (b.readableBytes, b.unread.length,
          (adjustByteArray b 1024).map fun b' => b'.unread.length)) =
      .ok (1025, 1025, .ok 2) := by
    decide +kernel
  obtain ⟨b, hb, hobserved⟩ := Except.exists_of_map_eq_ok hrun
  obtain ⟨hreadable, hunread, hleft⟩ : b.readableBytes = 1025 ∧ b.unread.length = 1025 ∧
      (adjustByteArray b 1024).map (fun b' => b'.unread.length) = .ok 2 := by
    simpa using hobserved
  obtain ⟨b₂, hok₂, htwo⟩ := Except.exists_of_map_eq_ok hleft
  have hlast : b.DropsPrefix (.adjust 1024) :=
    (Run.Always.of_append [_, _] [.adjust 1024] h hb).1
  obtain ⟨b', hok, hprefix⟩ := hlast (by omega)
  obtain rfl : b₂ = b' := by
    rw [hok₂] at hok
    injection hok
  have hlength := congrArg List.length hprefix.unread
  rw [List.length_drop] at hlength
  omega

end ByteArray

end Netpp
