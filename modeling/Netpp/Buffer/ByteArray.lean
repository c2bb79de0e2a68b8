import Netpp.Buffer.BufferNode

/-!
# The byte array

A `ByteArray` is a list of buffer nodes with two cursors into it, the read node
and the write node, and two cached counts. The definitions follow
`src/ByteArray.cpp` and `CowLink.hpp`: the sizes and indices are 64-bit words,
so every sum and difference wraps around, and the loops over the nodes recurse
on the nodes they visit.

The model is that of a byte array that has never been copied: its nodes are
shared with no other array, so the copy on write of `CowIterator` never takes
place and a node is its value.
-/

namespace Netpp

/-- The fields of `ByteArray`; `nodes` are the elements of `m_nodes`. -/
structure ByteArray where
  availableSizeToRead : Nat
  availableSizeToWrite : Nat
  readNode : Nat
  writeNode : Nat
  nodes : List BufferNode
  deriving DecidableEq

/-- `CowLink::moveToTail`: the nodes before index `stop` go to the tail, each
after the callback has seen it. -/
def moveToTail (nodes : List BufferNode) (stop : Nat)
    (moveCallback : BufferNode → BufferNode) : List BufferNode :=
  nodes.drop stop ++ (nodes.take stop).map moveCallback

/-- `CowLink::allocMore`: new nodes at the tail, up to `length` nodes in all. -/
def allocMore (nodes : List BufferNode) (length : Nat) : List BufferNode :=
  if length < nodes.length then nodes
  else nodes ++ List.replicate (length - nodes.length) BufferNode.new

namespace ByteArray

/-- The default constructor: one empty node. -/
def new : ByteArray := ⟨0, bufferNodeSize, 0, 0, [BufferNode.new]⟩

def readableBytes (b : ByteArray) : Nat := b.availableSizeToRead

def writeableBytes (b : ByteArray) : Nat := b.availableSizeToWrite

/-! ## Growing -/

def unlockedMoveBufferHead (b : ByteArray) : ByteArray :=
  if b.readNode = 0 then b
  else
    { b with
      nodes := moveToTail b.nodes b.readNode BufferNode.reset
      availableSizeToWrite :=
        Word64.add b.availableSizeToWrite (Word64.mul b.readNode bufferNodeSize)
      writeNode := Word64.sub b.writeNode b.readNode
      readNode := 0 }

/-- `newWriteable` for a node count of `idleNodeCount`. -/
def newWriteable (b : ByteArray) (idleNodeCount : Nat) : Nat :=
  Word64.add (Word64.mul (Word64.sub idleNodeCount b.nodes.length) bufferNodeSize)
    b.availableSizeToWrite

/-- The `while` loop of `unlockedAllocIfNotEnough`: double the node count until
`size` bytes fit. The count is zero after 64 doublings, and the loop that has
not ended by then never ends. -/
def growLoop (b : ByteArray) (size : Nat) : Nat → Nat → Except Fault Nat
  | 0, _ => .error .diverges
  | fuel + 1, idleNodeCount =>
      if newWriteable b idleNodeCount ≤ size then
        growLoop b size fuel (Word64.mul idleNodeCount 2)
      else .ok idleNodeCount

def unlockedAllocIfNotEnough (b : ByteArray) (size : Nat) : Except Fault ByteArray :=
  if b.availableSizeToWrite ≤ size then
    -- move head first
    let moved := b.unlockedMoveBufferHead
    if moved.availableSizeToWrite ≤ size then do
      let idleNodeCount ← growLoop moved size 64 (Word64.mul moved.nodes.length 2)
      .ok { moved with
        nodes := allocMore moved.nodes idleNodeCount
        availableSizeToWrite := newWriteable moved idleNodeCount }
    else .ok moved
  else .ok b

/-! ## Writing -/

/-- The loop of `writeRaw` over the nodes from the write node on. `size` is the
number of nodes of the array; the result is the nodes, the write node and the
data that did not fit. -/
def writeLoop (size : Nat) :
    List BufferNode → Nat → List UInt8 → Except Fault (List BufferNode × Nat × List UInt8)
  | [], writeNode, data => .ok ([], writeNode, data)
  | node :: rest, writeNode, data =>
      if data.length = 0 then .ok (node :: rest, writeNode, data)
      else do
        let room := Word64.sub bufferNodeSize node.stop
        let bytesToWrite := if room < data.length then room else data.length
        let stored ← node.store node.stop (data.take bytesToWrite)
        let node' := { stored with stop := Word64.add node.stop bytesToWrite }
        -- have next iteration
        let writeNode' :=
          if writeNode + 1 < size ∧ node'.stop = bufferNodeSize then writeNode + 1
          else writeNode
        let (rest', last, left) ← writeLoop size rest writeNode' (data.drop bytesToWrite)
        .ok (node' :: rest', last, left)

def writeRaw (b : ByteArray) (data : List UInt8) : Except Fault ByteArray := do
  let b ←
    if b.availableSizeToWrite ≤ data.length then b.unlockedAllocIfNotEnough data.length
    else .ok b
  let (nodes', writeNode', left) ←
    writeLoop b.nodes.length (b.nodes.drop b.writeNode) b.writeNode data
  let written := Word64.sub data.length left.length
  .ok { b with
    nodes := b.nodes.take b.writeNode ++ nodes'
    writeNode := writeNode'
    availableSizeToRead := Word64.add b.availableSizeToRead written
    availableSizeToWrite := Word64.sub b.availableSizeToWrite written }

/-! ## Reading -/

/-- The index after the last node that holds unread bytes. -/
def endOfReadNode (b : ByteArray) : Except Fault Nat :=
  if b.writeNode = b.readNode then .ok (b.readNode + 1)
  else
    match b.nodes[b.writeNode]? with
    | none => .error .outOfRange
    | some writeNode => .ok (if writeNode.stop = 0 then b.writeNode else b.writeNode + 1)

/-- What the loop of `retrieveRaw` leaves behind: the nodes it has visited, the
cursors, the number of bytes still wanted, and the bytes copied. -/
structure Retrieved where
  nodes : List BufferNode
  readNode : Nat
  writeNode : Nat
  left : Nat
  copied : List UInt8

/-- The loop of `retrieveRaw` over the nodes from the read node on. -/
def retrieveLoop (size : Nat) :
    List BufferNode → Nat → Nat → Nat → Except Fault Retrieved
  | [], readNode, writeNode, length => .ok ⟨[], readNode, writeNode, length, []⟩
  | node :: rest, readNode, writeNode, length =>
      if length = 0 then .ok ⟨node :: rest, readNode, writeNode, length, []⟩
      else do
        let filled := Word64.sub node.stop node.start
        let bytesToCopy := if filled < length then filled else length
        let copied ← node.load node.start bytesToCopy
        let node' := { node with start := Word64.add node.start bytesToCopy }
        -- if this node is empty, and not the last node
        let exhausted := node'.start = bufferNodeSize ∧ readNode + 1 < size
        -- read and write point at same node, move write node also
        let writeNode' := if exhausted ∧ readNode = writeNode then writeNode + 1 else writeNode
        let readNode' := if exhausted then readNode + 1 else readNode
        let r ← retrieveLoop size rest readNode' writeNode' (length - bytesToCopy)
        .ok { r with nodes := node' :: r.nodes, copied := copied ++ r.copied }

/-- The array after `retrieveRaw`, the number of bytes it returns and the bytes
it has stored in the caller's buffer. -/
def retrieveRaw (b : ByteArray) (length : Nat) :
    Except Fault (ByteArray × Nat × List UInt8) :=
  if length ≤ b.availableSizeToRead then do
    let endOfRead ← b.endOfReadNode
    let visited := (b.nodes.take endOfRead).drop b.readNode
    let r ← retrieveLoop b.nodes.length visited b.readNode b.writeNode length
    let copied := length - r.left
    .ok ({ b with
      nodes := b.nodes.take b.readNode ++ r.nodes ++ b.nodes.drop (b.readNode + visited.length)
      readNode := r.readNode
      writeNode := r.writeNode
      availableSizeToRead := Word64.sub b.availableSizeToRead copied }, copied, r.copied)
  else .ok (b, 0, [])

/-! ## What an array holds -/

/-- The unread bytes: from the read node's `start` to the write node's `stop`. -/
def unread (b : ByteArray) : List UInt8 :=
  ((b.nodes.take (b.writeNode + 1)).drop b.readNode).flatMap BufferNode.unread

/-- The free bytes: from the write node's `stop` to the end of the last node. -/
def freeSpace (b : ByteArray) : Nat :=
  ((b.nodes.drop b.writeNode).map fun n => bufferNodeSize - n.stop).sum

end ByteArray

end Netpp
