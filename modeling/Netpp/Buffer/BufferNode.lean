import Netpp.Library.Segment
import Netpp.Library.Word

/-!
# Buffer nodes

A `BufferNode` holds 1024 bytes and two offsets into them: `start`, where the
unread bytes begin, and `stop` (the field `end` of the source), where they end
and the next byte is written. The memory copies of the program read and write
the bytes of one node at a time; `load` and `store` are these copies, and a copy
past the end of the node's bytes is a `Fault`, since C++ leaves it undefined.
-/

namespace Netpp

/-- What stops a run: undefined behaviour of the C++ program, a loop that does
not end, or an allocation the machine cannot serve. -/
inductive Fault where
  /-- A memory copy past the end of a buffer. -/
  | outOfBounds
  /-- A node index outside the node list is dereferenced. -/
  | outOfRange
  /-- A set is asked to erase at its end iterator. -/
  | badIterator
  /-- A signed integer overflows. -/
  | overflow
  /-- A loop runs for ever. -/
  | diverges
  /-- `std::bad_alloc`. -/
  | badAlloc
  /-- `std::length_error`. -/
  | lengthError
  deriving DecidableEq, Repr

/-- `BufferNode::BufferNodeSize`. -/
def bufferNodeSize : Nat := 1024

theorem bufferNodeSize_eq : bufferNodeSize = 1024 := rfl

/-- A single buffer node. The bytes outside `start, …, stop - 1` are kept: they
are what an earlier use of the node has left there. -/
structure BufferNode where
  start : Nat
  stop : Nat
  buffer : List UInt8
  buffer_length : buffer.length = bufferNodeSize
  deriving DecidableEq

namespace BufferNode

/-- The default constructor. -/
def new : BufferNode :=
  ⟨0, 0, List.replicate bufferNodeSize 0, List.length_replicate⟩

/-- The callback of `unlockedMoveBufferHead`: the node is empty again, its bytes
stay. -/
def reset (n : BufferNode) : BufferNode := { n with start := 0, stop := 0 }

/-- Copy `len` bytes out of the node, from offset `off` on. -/
def load (n : BufferNode) (off len : Nat) : Except Fault (List UInt8) :=
  if off + len ≤ bufferNodeSize then .ok (Segment.slice n.buffer off (off + len))
  else .error .outOfBounds

/-- Copy `data` into the node, from offset `off` on. -/
def store (n : BufferNode) (off : Nat) (data : List UInt8) : Except Fault BufferNode :=
  if h : off + data.length ≤ bufferNodeSize then
    .ok { n with
      buffer := Segment.overwrite n.buffer off data
      buffer_length := by
        rw [Segment.overwrite_length (by rw [n.buffer_length]; exact h), n.buffer_length] }
  else .error .outOfBounds

def offsets (n : BufferNode) : Nat × Nat := (n.start, n.stop)

/-- The unread bytes of the node. -/
def unread (n : BufferNode) : List UInt8 := Segment.slice n.buffer n.start n.stop

@[simp] theorem reset_start (n : BufferNode) : n.reset.start = 0 := rfl

@[simp] theorem reset_stop (n : BufferNode) : n.reset.stop = 0 := rfl

@[simp] theorem new_start : new.start = 0 := rfl

@[simp] theorem new_stop : new.stop = 0 := rfl

@[simp] theorem reset_unread (n : BufferNode) : n.reset.unread = [] :=
  Segment.slice_self _ _

@[simp] theorem new_unread : new.unread = [] := Segment.slice_self _ _

theorem unread_length {n : BufferNode} (h : n.stop ≤ 1024) :
    n.unread.length = n.stop - n.start :=
  Segment.slice_length (by rw [n.buffer_length]; exact h)

theorem unread_of_le {n : BufferNode} (h : n.stop ≤ n.start) : n.unread = [] :=
  Segment.slice_of_le _ h

theorem load_of_le {n : BufferNode} {off len : Nat} (h : off + len ≤ 1024) :
    n.load off len = .ok (Segment.slice n.buffer off (off + len)) :=
  if_pos h

/-- A store inside the node succeeds, keeps the offsets and appends `data` to
every segment that ends at `off`. -/
theorem store_of_le {n : BufferNode} {off : Nat} {data : List UInt8}
    (h : off + data.length ≤ 1024) :
    ∃ m, n.store off data = .ok m ∧ m.start = n.start ∧ m.stop = n.stop ∧
      m.buffer = Segment.overwrite n.buffer off data := by
  refine ⟨_, dif_pos h, rfl, rfl, rfl⟩

theorem store_ok_offsets {n m : BufferNode} {off : Nat} {data : List UInt8}
    (h : n.store off data = .ok m) : m.offsets = n.offsets := by
  unfold store at h
  split at h
  · cases h
    rfl
  · cases h

end BufferNode

end Netpp
