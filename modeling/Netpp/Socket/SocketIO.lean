import Netpp.Socket.IOVec
import Netpp.Stub

/-!
# Byte arrays as message buffers

`ByteArrayReaderWithLock` offers the unread bytes of a byte array to `sendmsg`
and `ByteArrayWriterWithLock` its free space to `recvmsg`. Both then adjust the
array by the number of bytes that the system call has moved. The definitions
follow `src/internal/socket/SocketIO.cpp`.
-/

namespace Netpp

namespace ByteArrayReaderWithLock

/-- The stretches of the nodes that hold unread bytes; `i` is the index of the
first node. -/
def iovecLoop : Nat → List BufferNode → List IOVec
  | _, [] => []
  | i, node :: rest =>
      let filled := Word64.sub node.stop node.start
      if filled ≠ 0 then ⟨i, node.start, filled⟩ :: iovecLoop (i + 1) rest
      else iovecLoop (i + 1) rest

/-- The constructor. -/
def iovec (b : ByteArray) : Except Fault (List IOVec) := do
  let endOfRead ← b.endOfReadNode
  if b.nodes.length < endOfRead then .error .outOfRange
  else .ok (iovecLoop b.readNode ((b.nodes.take endOfRead).drop b.readNode))

/-- The local `moveForward` of `adjustByteArray`: the nodes to skip. -/
def moveForward (size : Nat) : Nat :=
  size / bufferNodeSize +
    (if size / bufferNodeSize ≠ 0 ∧ size % bufferNodeSize ≠ 0 then 1 else 0)

def adjustByteArray (b : ByteArray) (size : Nat) : Except Fault ByteArray :=
  -- if size is larger than this ByteArray, just read node to end
  if b.availableSizeToRead ≤ size then do
    let node ← nodeAt b.nodes b.writeNode
    let b' : ByteArray := { b with
      readNode := b.writeNode
      availableSizeToRead := 0
      nodes := b.nodes.set b.writeNode { node with start := node.stop } }
    .ok b'.unlockedMoveBufferHead
  else do
    let left := size % bufferNodeSize
    let readNode := Word64.add b.readNode (moveForward size)
    let node ← nodeAt b.nodes readNode
    let b' : ByteArray := { b with
      readNode := readNode
      availableSizeToRead := Word64.sub b.availableSizeToRead size
      nodes := b.nodes.set readNode { node with start := Word64.add node.start left } }
    .ok b'.unlockedMoveBufferHead

def availableBytes (b : ByteArray) : Nat := b.availableSizeToRead

end ByteArrayReaderWithLock

namespace ByteArrayWriterWithLock

/-- The stretches of free space of the nodes; `i` is the index of the first. -/
def iovecLoop : Nat → List BufferNode → List IOVec
  | _, [] => []
  | i, node :: rest => ⟨i, node.stop, Word64.sub bufferNodeSize node.stop⟩ :: iovecLoop (i + 1) rest

def vecLen (b : ByteArray) : Nat :=
  b.availableSizeToWrite / bufferNodeSize +
    (if b.availableSizeToWrite % bufferNodeSize ≠ 0 then 1 else 0)

/-- The constructor. It allocates `vecLen` stretches and fills one for each node
from the write node on: with more nodes than that it writes past the end of the
allocation, with fewer the last stretches point nowhere. The places are counted
by an `int`, which `stored` in `Netpp.Socket.ScatterView` adds. -/
def iovec (b : ByteArray) : Except Fault (List IOVec) :=
  if vecLen b = 0 then .ok []
  else if (b.nodes.drop b.writeNode).length ≠ vecLen b then .error .outOfBounds
  else .ok (iovecLoop b.writeNode (b.nodes.drop b.writeNode))

/-- The loop of `adjustByteArray` over the nodes from the write node on. `count`
is the number of nodes of the array. -/
def adjustLoop (count : Nat) : List BufferNode → Nat → Nat → List BufferNode × Nat
  | [], writeNode, _ => ([], writeNode)
  | node :: rest, writeNode, size =>
      let stop :=
        if bufferNodeSize ≤ Word64.add node.stop size then bufferNodeSize
        else Word64.add node.stop size
      let r := adjustLoop count rest (if writeNode + 1 < count then writeNode + 1 else writeNode)
        (Word64.sub size (Word64.sub bufferNodeSize stop))
      ({ node with stop := stop } :: r.1, r.2)

/-- The rest of `adjustByteArray`, when there is room for `size` bytes. -/
def advance (b : ByteArray) (size : Nat) : ByteArray :=
  let r := adjustLoop b.nodes.length (b.nodes.drop b.writeNode) b.writeNode size
  { b with
    nodes := b.nodes.take b.writeNode ++ r.1
    writeNode := r.2
    availableSizeToWrite := Word64.sub b.availableSizeToWrite size
    availableSizeToRead := Word64.add b.availableSizeToRead size }

def adjustByteArray (b : ByteArray) (size : Nat) : Except Fault ByteArray :=
  -- if need to alloc more
  if b.availableSizeToWrite ≤ size then (b.unlockedAllocIfNotEnough size).map (advance · size)
  else .ok (advance b size)

def availableBytes (b : ByteArray) : Nat := b.availableSizeToWrite

/-- Offer the free space, place `data` into it and adjust by its length. -/
def receive (b : ByteArray) (data : List UInt8) : Except Fault ByteArray := do
  let vec ← iovec b
  let nodes ← scatter b.nodes vec data
  adjustByteArray { b with nodes := nodes } data.length

end ByteArrayWriterWithLock

/-- The subclasses of `ByteArray2IOVec`. -/
inductive ByteArray2IOVec where
  | reader
  | writer
  deriving DecidableEq

namespace ByteArray2IOVec

def iovec : ByteArray2IOVec → ByteArray → Except Fault (List IOVec)
  | reader => ByteArrayReaderWithLock.iovec
  | writer => ByteArrayWriterWithLock.iovec

def adjustByteArray : ByteArray2IOVec → ByteArray → Nat → Except Fault ByteArray
  | reader => ByteArrayReaderWithLock.adjustByteArray
  | writer => ByteArrayWriterWithLock.adjustByteArray

def availableBytes : ByteArray2IOVec → ByteArray → Nat
  | reader => ByteArrayReaderWithLock.availableBytes
  | writer => ByteArrayWriterWithLock.availableBytes

end ByteArray2IOVec

namespace SocketIO

/-- `SocketIO::read` on the array behind `io`. The answer carries the bytes
that have arrived, of which the kernel takes as many as the stretches hold; the
result is the array and the bytes taken, or the exception that is thrown. -/
def read (io : ByteArray2IOVec) (b : ByteArray) (answer : Answer (List UInt8)) :
    Except Fault (Except Exception (ByteArray × List UInt8)) :=
  match Stub.recvmsg answer with
  | .error e => .ok (.error e)
  | .ok none => .ok (.ok (b, []))
  | .ok (some arrived) => do
      let vec ← io.iovec b
      let taken := arrived.take (capacity vec)
      let nodes ← scatter b.nodes vec taken
      let b' ← io.adjustByteArray { b with nodes := nodes } taken.length
      .ok (.ok (b', taken))

/-- `SocketIO::write` on the array behind `io`. The answer carries the number
of bytes that the kernel is ready to accept; the result is the array, the bytes
accepted and the return value, or the exception that is thrown. -/
def write (io : ByteArray2IOVec) (b : ByteArray) (answer : Answer Nat) :
    Except Fault (Except Exception (ByteArray × List UInt8 × Bool)) :=
  match Stub.sendmsg answer with
  | .error e => .ok (.error e)
  | .ok none => -- error that can not recovery threw as exception
      .ok (.ok (b, [], false))
  | .ok (some room) => do
      let expectWriteSize := io.availableBytes b
      let vec ← io.iovec b
      let bytes ← gather b.nodes vec
      let sent := bytes.take room
      let b' ← io.adjustByteArray b sent.length
      .ok (.ok (b', sent, sent.length ≤ expectWriteSize))

end SocketIO

end Netpp
