import Netpp.Buffer.Fifo

/-!
# Growth without overflow

`checkedAllocIfNotEnough` is `unlockedAllocIfNotEnough` with checked arithmetic: it makes
the same steps and fails at the first product, sum or difference whose result is not exact.
From every array that writes and retrievals lead to it does not fail, and what both give has
more room than was asked for.
-/

namespace Netpp

namespace ByteArray

/-! ## The checked program -/

/-- `CowLink::moveToTail`. The places at the tail are the sums of the first one and an index
below `stop`. -/
def checkedMoveToTail (nodes : List BufferNode) (stop : Nat)
    (moveCallback : BufferNode → BufferNode) : Option (List BufferNode) := do
  let tail ← Word64.checkedSub nodes.length stop
  let _ ← Word64.checkedAdd tail stop
  return moveToTail nodes stop moveCallback

/-- `CowLink::allocMore`. -/
def checkedAllocMore (nodes : List BufferNode) (length : Nat) : Option (List BufferNode) :=
  if length < nodes.length then some nodes
  else do
    let added ← Word64.checkedSub length nodes.length
    return nodes ++ List.replicate added BufferNode.new

def checkedMoveBufferHead (b : ByteArray) : Option ByteArray :=
  if b.readNode = 0 then some b
  else do
    let nodes ← checkedMoveToTail b.nodes b.readNode BufferNode.reset
    let moved ← Word64.checkedMul b.readNode bufferNodeSize
    let availableSizeToWrite ← Word64.checkedAdd b.availableSizeToWrite moved
    let writeNode ← Word64.checkedSub b.writeNode b.readNode
    return { b with
      nodes := nodes
      availableSizeToWrite := availableSizeToWrite
      writeNode := writeNode
      readNode := 0 }

def checkedNewWriteable (b : ByteArray) (idleNodeCount : Nat) : Option Nat := do
  let idle ← Word64.checkedSub idleNodeCount b.nodes.length
  let bytes ← Word64.checkedMul idle bufferNodeSize
  Word64.checkedAdd bytes b.availableSizeToWrite

def checkedGrowLoop (b : ByteArray) (size : Nat) : Nat → Nat → Option Nat
  | 0, _ => none
  | fuel + 1, idleNodeCount => do
      let writeable ← checkedNewWriteable b idleNodeCount
      if writeable ≤ size then do
        let doubled ← Word64.checkedMul idleNodeCount 2
        checkedGrowLoop b size fuel doubled
      else return idleNodeCount

def checkedAllocIfNotEnough (b : ByteArray) (size : Nat) : Option ByteArray :=
  if b.availableSizeToWrite ≤ size then do
    let moved ← b.checkedMoveBufferHead
    if moved.availableSizeToWrite ≤ size then do
      let count ← Word64.checkedMul moved.nodes.length 2
      let idleNodeCount ← checkedGrowLoop moved size 64 count
      let nodes ← checkedAllocMore moved.nodes idleNodeCount
      let writeable ← checkedNewWriteable moved idleNodeCount
      return { moved with nodes := nodes, availableSizeToWrite := writeable }
    else return moved
  else some b

variable {b b' : ByteArray} {R W size : Nat}

/-! ## It makes the steps of the program -/

theorem checkedMoveBufferHead_eq (hr : b.readNode ≤ b.writeNode)
    (hw : b.writeNode < b.nodes.length) (hnodes : b.nodes.length < 2 ^ 64)
    (hfit : b.availableSizeToWrite + 1024 * b.readNode < 2 ^ 64) :
    b.checkedMoveBufferHead = some b.unlockedMoveBufferHead := by
  have htail : Word64.checkedSub b.nodes.length b.readNode =
      some (b.nodes.length - b.readNode) := if_pos (by omega)
  have hplace : Word64.checkedAdd (b.nodes.length - b.readNode) b.readNode =
      some (b.nodes.length - b.readNode + b.readNode) := if_pos (by omega)
  have hmul : b.readNode * bufferNodeSize < 2 ^ 64 := by
    rw [bufferNodeSize_eq]
    omega
  have hadd : b.availableSizeToWrite + Word64.mul b.readNode bufferNodeSize < 2 ^ 64 := by
    rw [Word64.mul_of_lt hmul, bufferNodeSize_eq]
    omega
  rw [checkedMoveBufferHead, unlockedMoveBufferHead]
  split
  next => rfl
  next =>
    rw [checkedMoveToTail, htail, Word64.checkedMul_of_lt hmul,
      Word64.checkedSub_of_le hr (by omega)]
    simp only [Option.bind_eq_bind, Option.bind_some]
    rw [hplace, Word64.checkedAdd_of_lt hadd]
    rfl

theorem checkedNewWriteable_eq {count : Nat} (hcount : b.nodes.length ≤ count)
    (hfit : 1024 * count < 2 ^ 64) (havail : b.availableSizeToWrite ≤ 1024 * b.nodes.length) :
    b.checkedNewWriteable count = some (newWriteable b count) := by
  have hidle : Word64.sub count b.nodes.length = count - b.nodes.length :=
    Word64.sub_of_le hcount (by omega)
  have hmul : (count - b.nodes.length) * bufferNodeSize < 2 ^ 64 := by
    rw [bufferNodeSize_eq]
    omega
  have hadd : Word64.mul (count - b.nodes.length) bufferNodeSize + b.availableSizeToWrite <
      2 ^ 64 := by
    rw [Word64.mul_of_lt hmul, bufferNodeSize_eq]
    omega
  rw [checkedNewWriteable, Word64.checkedSub_of_le hcount (by omega), hidle]
  simp only [Option.bind_eq_bind, Option.bind_some]
  rw [Word64.checkedMul_of_lt hmul]
  simp only [Option.bind_some]
  rw [Word64.checkedAdd_of_lt hadd, newWriteable, hidle]

/-- The counts that the loop goes through are at most twice what is needed. -/
theorem checkedGrowLoop_eq (havail : b.availableSizeToWrite ≤ 1024 * b.nodes.length)
    (hused : 1024 * b.nodes.length - b.availableSizeToWrite + size < 2 ^ 62)
    (fuel count : Nat) (hcount : b.nodes.length ≤ count) (hfit : 1024 * count < 2 ^ 63) :
    checkedGrowLoop b size fuel count = (growLoop b size fuel count).toOption := by
  induction fuel generalizing count with
  | zero => rfl
  | succ fuel ih =>
      rw [checkedGrowLoop, growLoop, checkedNewWriteable_eq hcount (by omega) havail]
      simp only [Option.bind_eq_bind, Option.bind_some]
      split
      next hle =>
        rw [newWriteable_eq hcount (by omega) (by omega)] at hle
        rw [Word64.checkedMul_of_lt (by omega), Option.bind_some,
          ih _ (by rw [Word64.mul_of_lt (by omega)]; omega)
            (by rw [Word64.mul_of_lt (by omega)]; omega)]
      next => rfl

theorem checkedAllocMore_eq {nodes : List BufferNode} {length : Nat} :
    checkedAllocMore nodes length = some (allocMore nodes length) := by
  rw [checkedAllocMore, allocMore]
  split
  next => rfl
  next hlt =>
    rw [Word64.checkedSub, if_pos (Nat.le_of_not_lt hlt)]
    rfl

/-- Nothing overflows as long as the nodes and the size asked for are below `2 ^ 62`. -/
theorem Layout.checkedAllocIfNotEnough_eq (h : b.Layout R W)
    (hsize : size + 1024 * b.nodes.length < 2 ^ 62) :
    b.checkedAllocIfNotEnough size = (b.unlockedAllocIfNotEnough size).toOption := by
  have hr := h.readNode_le_writeNode
  have hw := h.writeNode_lt
  have hread := h.readNode_le
  have hRW := h.read_le_write
  have hlt := h.write_lt
  have htoWrite := h.toWrite
  have hmove : b.unlockedMoveBufferHead = b.grown 0 :=
    unlockedMoveBufferHead_eq hr (by omega) (by omega)
  have hlength : (b.grown 0).nodes.length = b.nodes.length := b.grown_length (by omega)
  have hwriteable : (b.grown 0).availableSizeToWrite =
      b.availableSizeToWrite + 1024 * b.readNode := rfl
  rw [checkedAllocIfNotEnough, unlockedAllocIfNotEnough]
  by_cases hneed : b.availableSizeToWrite ≤ size
  · rw [if_pos hneed, if_pos hneed, checkedMoveBufferHead_eq hr hw (by omega) (by omega), hmove]
    simp only [Option.bind_eq_bind, Option.bind_some]
    by_cases hmoved : (b.grown 0).availableSizeToWrite ≤ size
    · have hdouble : (b.grown 0).nodes.length * 2 < 2 ^ 64 := by omega
      have hcount : Word64.mul (b.grown 0).nodes.length 2 = b.nodes.length * 2 := by
        rw [Word64.mul_of_lt hdouble, hlength]
      obtain ⟨k, hloop, -, -, hbound⟩ := growLoop_spec (b := b.grown 0) size (by omega) (by omega)
        64 (b.nodes.length * 2) (by omega) (by omega) (by omega)
      rw [if_pos hmoved, if_pos hmoved, Word64.checkedMul_of_lt hdouble, hcount, hloop]
      simp only [Option.bind_some]
      rw [checkedGrowLoop_eq (by omega) (by omega) 64 _ (by omega) (by omega), hloop]
      simp only [Except.toOption, Option.bind_some]
      rw [checkedAllocMore_eq, checkedNewWriteable_eq (by omega) (by omega) (by omega)]
      rfl
    · rw [if_neg hmoved, if_neg hmoved]
      rfl
  · rw [if_neg hneed, if_neg hneed]
    rfl

/-! ## What it gives -/

/-- There is more room than was asked for, all of it is free, and nothing that was unread is
lost; there are more nodes only if the free nodes at the head are not enough. -/
structure Suffices (b : ByteArray) (size : Nat) (b' : ByteArray) : Prop where
  room : size < b'.availableSizeToWrite
  free : b'.availableSizeToWrite = b'.freeSpace
  unread : b'.unread = b.unread
  nodes_le : b.nodes.length ≤ b'.nodes.length
  recycled : b.nodes.length < b'.nodes.length → b.unlockedMoveBufferHead.freeSpace ≤ size

theorem Layout.suffices_of_lt (h : b.Layout R W) (hroom : size < b.availableSizeToWrite) :
    b.Suffices size b where
  room := hroom
  free := h.writeableBytes_eq
  unread := rfl
  nodes_le := le_rfl
  recycled hlt := absurd hlt (lt_irrefl _)

theorem Layout.suffices_grown (h : b.Layout R W) (hnodes : 1024 * b.nodes.length < 2 ^ 64) {k : Nat}
    (hroom : size < b.availableSizeToWrite + 1024 * b.readNode + 1024 * k)
    (hrecycled : k ≠ 0 → b.availableSizeToWrite + 1024 * b.readNode ≤ size) :
    b.Suffices size (b.grown k) := by
  have hr := h.readNode_le_writeNode
  have hw := h.writeNode_lt
  have hread := h.readNode_le
  have hRW := h.read_le_write
  have hlt := h.write_lt
  have htoWrite := h.toWrite
  have hlength : (b.grown k).nodes.length = b.nodes.length + k := b.grown_length (by omega)
  refine ⟨hroom, (h.grown k).writeableBytes_eq, h.grown_unread k, by omega, fun hmore => ?_⟩
  have hmove : b.unlockedMoveBufferHead = b.grown 0 :=
    unlockedMoveBufferHead_eq hr (by omega) (by omega)
  rw [hmove, ← (h.grown 0).writeableBytes_eq]
  exact hrecycled (by omega)

/-- The allocation ends without an overflow, and what it gives suffices. Nodes are never given
back, so an array that has once held `2 ^ 62` bytes is none of these. -/
theorem alloc_suffices (h : b.ReachableWithin (2 ^ 62))
    (hsize : size + 1024 * b.nodes.length < 2 ^ 62) :
    ∃ b', b.unlockedAllocIfNotEnough size = .ok b' ∧ b.Suffices size b' ∧
      b.checkedAllocIfNotEnough size = some b' := by
  obtain ⟨-, -, R, W, hlayout⟩ := h.holds le_rfl
  have hRW := hlayout.read_le_write
  have hlt := hlayout.write_lt
  have hreadable : b.readableBytes = W - R := hlayout.toRead
  have hchecked := hlayout.checkedAllocIfNotEnough_eq hsize
  by_cases hneed : b.availableSizeToWrite ≤ size
  · obtain ⟨k, hok, hroom, hgrow⟩ := hlayout.alloc size (by omega) (by omega) hneed
    rw [hok] at hchecked
    exact ⟨b.grown k, hok, hlayout.suffices_grown (by omega) hroom fun hk => (hgrow hk).1, hchecked⟩
  · have hok : b.unlockedAllocIfNotEnough size = .ok b := if_neg hneed
    rw [hok] at hchecked
    exact ⟨b, hok, hlayout.suffices_of_lt (Nat.lt_of_not_le hneed), hchecked⟩

/-- A page and some more, asked of a fresh array. -/
theorem alloc_suffices_new : ∃ b', new.unlockedAllocIfNotEnough 5000 = .ok b' ∧
    new.Suffices 5000 b' ∧ new.checkedAllocIfNotEnough 5000 = some b' :=
  alloc_suffices ⟨[], rfl⟩ (by decide)

end ByteArray

end Netpp
