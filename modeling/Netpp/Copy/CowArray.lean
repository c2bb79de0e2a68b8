import Netpp.Buffer.CowLink
import Netpp.Buffer.Fifo
import Netpp.Socket.SocketIO

/-!
# Byte arrays that share nodes

The operations of `ByteArray` again, this time on a `CowLink`: a copied array
shares its nodes, and the iterators of the loops copy a shared node when they get
to it. An iterator gets to its first node when it is made and to the next one after
each round, also after the last round. The callback of `moveToTail` is called on the
nodes themselves.

`value` is the array as it would be if its nodes were its own; the functions that
only look at sizes and offsets are those of the value.
-/

namespace Netpp

structure CowArray where
  availableSizeToRead : Nat
  availableSizeToWrite : Nat
  readNode : Nat
  writeNode : Nat
  link : CowLink BufferNode

namespace CowArray

def value (a : CowArray) : ByteArray :=
  ⟨a.availableSizeToRead, a.availableSizeToWrite, a.readNode, a.writeNode, a.link.values⟩

/-! ## Growing -/

def unlockedMoveBufferHead (a : CowArray) : Except Fault CowArray :=
  if a.readNode = 0 then .ok a
  else do
    let link ← a.link.moveToTail a.readNode fun _ => BufferNode.reset
    .ok { a with
      link := link
      availableSizeToWrite :=
        Word64.add a.availableSizeToWrite (Word64.mul a.readNode bufferNodeSize)
      writeNode := Word64.sub a.writeNode a.readNode
      readNode := 0 }

def unlockedAllocIfNotEnough (a : CowArray) (size : Nat) : Except Fault CowArray :=
  if a.availableSizeToWrite ≤ size then do
    -- move head first
    let moved ← a.unlockedMoveBufferHead
    if moved.availableSizeToWrite ≤ size then do
      let idleNodeCount ← ByteArray.growLoop moved.value size 64 (Word64.mul moved.link.size 2)
      .ok { moved with
        link := moved.link.allocMore idleNodeCount
        availableSizeToWrite := ByteArray.newWriteable moved.value idleNodeCount }
    else .ok moved
  else .ok a

/-! ## Writing -/

/-- The loop of `writeRaw`, with the iterator at `index` and `count` nodes from
there on. -/
def writeLoop (size : Nat) : Nat → Nat → CowLink BufferNode → Nat → List UInt8 →
    Except Fault (CowLink BufferNode × Nat × List UInt8)
  | 0, _, link, writeNode, data => .ok (link, writeNode, data)
  | count + 1, index, link, writeNode, data =>
      if data.length = 0 then .ok (link, writeNode, data)
      else do
        let node ← nodeAt link.values index
        let room := Word64.sub bufferNodeSize node.stop
        let bytesToWrite := if room < data.length then room else data.length
        let stored ← node.store node.stop (data.take bytesToWrite)
        let node' := { stored with stop := Word64.add node.stop bytesToWrite }
        -- have next iteration
        let writeNode' :=
          if writeNode + 1 < size ∧ node'.stop = bufferNodeSize then writeNode + 1
          else writeNode
        let link ← link.write index fun _ => node'
        writeLoop size count (index + 1) (link.cowThisNode (index + 1)) writeNode'
          (data.drop bytesToWrite)

def writeRaw (a : CowArray) (data : List UInt8) : Except Fault CowArray := do
  let a ←
    if a.availableSizeToWrite ≤ data.length then a.unlockedAllocIfNotEnough data.length
    else .ok a
  let (link, writeNode', left) ←
    writeLoop a.link.size (a.link.size - a.writeNode) a.writeNode
      (a.link.cowThisNode a.writeNode) a.writeNode data
  let written := Word64.sub data.length left.length
  .ok { a with
    link := link
    writeNode := writeNode'
    availableSizeToRead := Word64.add a.availableSizeToRead written
    availableSizeToWrite := Word64.sub a.availableSizeToWrite written }

/-! ## Reading -/

/-- What the loop of `retrieveRaw` leaves behind. -/
structure Retrieved where
  link : CowLink BufferNode
  readNode : Nat
  writeNode : Nat
  left : Nat
  copied : List UInt8

/-- The loop of `retrieveRaw`, with the iterator at `index` and `count` nodes before
the end. -/
def retrieveLoop (size : Nat) : Nat → Nat → CowLink BufferNode → Nat → Nat → Nat →
    Except Fault Retrieved
  | 0, _, link, readNode, writeNode, length => .ok ⟨link, readNode, writeNode, length, []⟩
  | count + 1, index, link, readNode, writeNode, length =>
      if length = 0 then .ok ⟨link, readNode, writeNode, length, []⟩
      else do
        let node ← nodeAt link.values index
        let filled := Word64.sub node.stop node.start
        let bytesToCopy := if filled < length then filled else length
        let copied ← node.load node.start bytesToCopy
        let node' := { node with start := Word64.add node.start bytesToCopy }
        -- if this node is empty, and not the last node
        let exhausted := node'.start = bufferNodeSize ∧ readNode + 1 < size
        -- read and write point at same node, move write node also
        let writeNode' := if exhausted ∧ readNode = writeNode then writeNode + 1 else writeNode
        let readNode' := if exhausted then readNode + 1 else readNode
        let link ← link.write index fun _ => node'
        let r ← retrieveLoop size count (index + 1) (link.cowThisNode (index + 1)) readNode'
          writeNode' (length - bytesToCopy)
        .ok { r with copied := copied ++ r.copied }

def retrieveRaw (a : CowArray) (length : Nat) : Except Fault (CowArray × Nat × List UInt8) :=
  if length ≤ a.availableSizeToRead then do
    let endOfRead ← a.value.endOfReadNode
    let r ← retrieveLoop a.link.size (endOfRead - a.readNode) a.readNode
      (a.link.cowThisNode a.readNode) a.readNode a.writeNode length
    let copied := length - r.left
    .ok ({ a with
      link := r.link
      readNode := r.readNode
      writeNode := r.writeNode
      availableSizeToRead := Word64.sub a.availableSizeToRead copied }, copied, r.copied)
  else .ok (a, 0, [])

/-! ## The reader -/

/-- The constructor of `ByteArrayReaderWithLock`. -/
def reader (a : CowArray) : Except Fault CowArray := do
  let endOfRead ← a.value.endOfReadNode
  if a.link.size < endOfRead then .error .outOfRange
  else .ok { a with link := a.link.cowNodes a.readNode (endOfRead - a.readNode + 1) }

/-- `ByteArrayReaderWithLock::adjustByteArray`. -/
def readerAdjust (a : CowArray) (size : Nat) : Except Fault CowArray :=
  -- if size is larger than this ByteArray, just read node to end
  if a.availableSizeToRead ≤ size then do
    let link := a.link.cowThisNode a.writeNode
    let node ← nodeAt link.values a.writeNode
    let link ← link.write a.writeNode fun _ => { node with start := node.stop }
    let a' : CowArray := { a with
      readNode := a.writeNode
      availableSizeToRead := 0
      link := link }
    a'.unlockedMoveBufferHead
  else do
    let left := size % bufferNodeSize
    let readNode := Word64.add a.readNode (ByteArrayReaderWithLock.moveForward size)
    let link := a.link.cowThisNode readNode
    let node ← nodeAt link.values readNode
    let link ← link.write readNode fun _ => { node with start := Word64.add node.start left }
    let a' : CowArray := { a with
      readNode := readNode
      availableSizeToRead := Word64.sub a.availableSizeToRead size
      link := link }
    a'.unlockedMoveBufferHead

/-- A reader is made, and consumes `size` bytes. -/
def consume (a : CowArray) (size : Nat) : Except Fault CowArray := do
  let a ← a.reader
  a.readerAdjust size

/-! ## The writer -/

/-- The constructor of `ByteArrayWriterWithLock`. -/
def writer (a : CowArray) : Except Fault (CowArray × List IOVec) :=
  if ByteArrayWriterWithLock.vecLen a.value = 0 then .ok (a, [])
  else
    let link := a.link.cowNodes a.writeNode (a.link.size - a.writeNode + 1)
    let nodes := link.values.drop a.writeNode
    if nodes.length ≠ ByteArrayWriterWithLock.vecLen a.value then .error .outOfBounds
    else .ok ({ a with link := link }, ByteArrayWriterWithLock.iovecLoop a.writeNode nodes)

/-- What is received goes to the nodes that the stretches point to. -/
def scatter : CowLink BufferNode → List IOVec → List UInt8 → Except Fault (CowLink BufferNode)
  | link, [], [] => .ok link
  | _, [], _ :: _ => .error .outOfBounds
  | link, v :: vs, data => do
      let node ← nodeAt link.values v.node
      let stored ← node.store v.base (data.take v.len)
      let link ← link.write v.node fun _ => stored
      scatter link vs (data.drop v.len)

/-- The loop of `ByteArrayWriterWithLock::adjustByteArray`. -/
def adjustLoop (count : Nat) : Nat → Nat → CowLink BufferNode → Nat → Nat →
    Except Fault (CowLink BufferNode × Nat)
  | 0, _, link, writeNode, _ => .ok (link, writeNode)
  | left + 1, index, link, writeNode, size => do
      let node ← nodeAt link.values index
      let stop :=
        if bufferNodeSize ≤ Word64.add node.stop size then bufferNodeSize
        else Word64.add node.stop size
      let link ← link.write index fun _ => { node with stop := stop }
      adjustLoop count left (index + 1) (link.cowThisNode (index + 1))
        (if writeNode + 1 < count then writeNode + 1 else writeNode)
        (Word64.sub size (Word64.sub bufferNodeSize stop))

def writerAdjust (a : CowArray) (size : Nat) : Except Fault CowArray := do
  let a ←
    -- if need to alloc more
    if a.availableSizeToWrite ≤ size then a.unlockedAllocIfNotEnough size
    else .ok a
  let (link, writeNode) ← adjustLoop a.link.size (a.link.size - a.writeNode) a.writeNode
    (a.link.cowThisNode a.writeNode) a.writeNode size
  .ok { a with
    link := link
    writeNode := writeNode
    availableSizeToWrite := Word64.sub a.availableSizeToWrite size
    availableSizeToRead := Word64.add a.availableSizeToRead size }

/-- A writer is made, `data` is received into its stretches and it is adjusted by
the length. -/
def receive (a : CowArray) (data : List UInt8) : Except Fault CowArray := do
  let (a, vec) ← a.writer
  let link ← scatter a.link vec data
  writerAdjust { a with link := link } data.length

end CowArray

end Netpp
