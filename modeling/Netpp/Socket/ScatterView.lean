import Netpp.Socket.Writer

/-!
# What the writer stores

The constructor of `ByteArrayWriterWithLock` allocates `m_vecLen` stretches and fills them with
an index of type `int`. `stored` is the array it leaves. The writer's `iovec` is this array, and
it is the free space of the byte array, as long as fewer than `2 ^ 31` nodes are left from the
write node on; with that many the index overflows.
-/

namespace Netpp

namespace ByteArrayWriterWithLock

/-- `++i` on an `int` that is not negative. -/
def incrementInt (i : Nat) : Except Fault Nat :=
  if i + 1 < 2 ^ 31 then .ok (i + 1) else .error .overflow

/-- The loop of the constructor. `it` is the index of the first of the nodes, and places that
are not stored at are `none`. -/
def storeLoop : Nat → List BufferNode → Nat → List (Option IOVec) →
    Except Fault (List (Option IOVec))
  | _, [], _, vec => .ok vec
  | it, node :: rest, i, vec =>
      if i < vec.length then do
        let next ← incrementInt i
        storeLoop (it + 1) rest next
          (vec.set i (some ⟨it, node.stop, Word64.sub bufferNodeSize node.stop⟩))
      else .error .outOfBounds

/-- The array `m_vec` after the constructor. -/
def stored (b : ByteArray) : Except Fault (List (Option IOVec)) :=
  if 0 < vecLen b then
    storeLoop b.writeNode (b.nodes.drop b.writeNode) 0 (List.replicate (vecLen b) none)
  else .ok []

theorem length_iovecLoop (i : Nat) (nodes : List BufferNode) :
    (iovecLoop i nodes).length = nodes.length := by
  induction nodes generalizing i with
  | nil => rfl
  | cons node rest ih => rw [iovecLoop, List.length_cons, List.length_cons, ih]

theorem getElem?_iovecLoop (it : Nat) (nodes : List BufferNode) (i : Nat) :
    (iovecLoop it nodes)[i]? =
      nodes[i]?.map fun n => ⟨it + i, n.stop, Word64.sub bufferNodeSize n.stop⟩ := by
  induction nodes generalizing it i with
  | nil => rfl
  | cons node rest ih =>
      cases i with
      | zero => rfl
      | succ i => rw [iovecLoop, List.getElem?_cons_succ, List.getElem?_cons_succ, ih,
          Nat.add_right_comm, Nat.add_assoc]

/-- Where there is a place for each node, the loop stores their stretches behind those that are
there, unless the index gets too large. -/
theorem storeLoop_filledTo {size : Nat} (it : Nat) {nodes : List BufferNode} {vec : List IOVec}
    (hsize : vec.length + nodes.length ≤ size) (hvec : vec.length < 2 ^ 31) :
    storeLoop it nodes vec.length (Segment.filledTo size vec) =
      if vec.length + nodes.length < 2 ^ 31 then
        .ok (Segment.filledTo size (vec ++ iovecLoop it nodes))
      else .error .overflow := by
  induction nodes generalizing it vec with
  | nil =>
      rw [List.length_nil, Nat.add_zero, if_pos hvec, iovecLoop, List.append_nil, storeLoop]
  | cons node rest ih =>
      rw [List.length_cons] at hsize ⊢
      have hplace : vec.length < (Segment.filledTo size vec).length := by
        rw [Segment.filledTo_length (by omega)]
        omega
      rw [storeLoop, if_pos hplace, Segment.set_filledTo (by omega)]
      by_cases hnext : vec.length + 1 < 2 ^ 31
      · have hstored := @ih (it + 1)
          (vec ++ [⟨it, node.stop, Word64.sub bufferNodeSize node.stop⟩])
        rw [List.length_append, List.length_singleton, Nat.add_assoc, Nat.add_comm 1,
          List.append_assoc] at hstored
        rw [incrementInt, if_pos hnext]
        exact hstored hsize hnext
      · rw [incrementInt, if_neg hnext, if_neg (by omega)]
        rfl

end ByteArrayWriterWithLock

namespace ByteArray

open ByteArrayWriterWithLock

variable {b : ByteArray} {R W : Nat}

/-- With fewer than `2 ^ 31` nodes left, each place is stored at, and `iovec` is what the array
holds. -/
theorem Layout.stored (h : b.Layout R W) :
    ByteArrayWriterWithLock.stored b =
      if b.nodes.length - b.writeNode < 2 ^ 31 then
        (ByteArrayWriterWithLock.iovec b).map (List.map some)
      else .error .overflow := by
  have hw := h.writeNode_lt
  have hlength : (b.nodes.drop b.writeNode).length = b.nodes.length - b.writeNode :=
    List.length_drop
  have hloop := @storeLoop_filledTo (b.nodes.length - b.writeNode) b.writeNode
    (b.nodes.drop b.writeNode) [] (by rw [hlength, List.length_nil, Nat.zero_add]) (by decide)
  have hfilled : Segment.filledTo (b.nodes.length - b.writeNode)
      (iovecLoop b.writeNode (b.nodes.drop b.writeNode)) =
      (iovecLoop b.writeNode (b.nodes.drop b.writeNode)).map some := by
    rw [← hlength, ← length_iovecLoop b.writeNode, Segment.filledTo_self]
  rw [List.length_nil, Nat.zero_add, hlength, List.nil_append, hfilled,
    Segment.filledTo_nil] at hloop
  rw [ByteArrayWriterWithLock.stored, h.vecLen, if_pos (by omega), hloop, h.iovec.1]
  rfl

/-! ## The view -/

/-- There is a stretch for each place of the array. They are the free tails of the nodes from
the write node to the last one, no unread byte is in one of them, and they have room for the
writeable bytes. -/
structure ScattersExactly (b : ByteArray) (vec : List IOVec) : Prop where
  count : vec.length = vecLen b
  last : b.writeNode + vec.length = b.nodes.length
  tail : ∀ i v, vec[i]? = some v → ∃ node, b.nodes[b.writeNode + i]? = some node ∧
    node.stop ≤ bufferNodeSize ∧ v = ⟨b.writeNode + i, node.stop, bufferNodeSize - node.stop⟩
  disjoint : ∀ v ∈ vec, ∀ node, b.nodes[v.node]? = some node →
    ∀ pos, node.start ≤ pos → pos < node.stop → ¬ (v.base ≤ pos ∧ pos < v.base + v.len)
  total : capacity vec = availableBytes b

theorem Layout.scattersExactly (h : b.Layout R W) :
    ∃ vec, ByteArrayWriterWithLock.iovec b = .ok vec ∧ b.ScattersExactly vec := by
  have hw := h.writeNode_lt
  obtain ⟨hvec, hcapacity⟩ := h.iovec
  have hlength : (iovecLoop b.writeNode (b.nodes.drop b.writeNode)).length =
      b.nodes.length - b.writeNode := by
    rw [length_iovecLoop, List.length_drop]
  have htail (i : Nat) (v : IOVec)
      (hv : (iovecLoop b.writeNode (b.nodes.drop b.writeNode))[i]? = some v) :
      ∃ node, b.nodes[b.writeNode + i]? = some node ∧ node.stop ≤ bufferNodeSize ∧
        v = ⟨b.writeNode + i, node.stop, bufferNodeSize - node.stop⟩ := by
    rw [getElem?_iovecLoop, List.getElem?_drop] at hv
    obtain ⟨node, hnode, hv⟩ := Option.map_eq_some_iff.mp hv
    have hstop : node.stop ≤ bufferNodeSize :=
      (h.marks.offsets_le h.read_le_write (List.mem_of_getElem? hnode)).2
    rw [Word64.sub_of_le hstop (by decide)] at hv
    exact ⟨node, hnode, hstop, hv.symm⟩
  refine ⟨_, hvec, by rw [hlength, h.vecLen], by omega, htail, ?_, hcapacity⟩
  intro v hv node hnode pos _ hpos hinside
  obtain ⟨i, hi⟩ := List.mem_iff_getElem?.mp hv
  obtain ⟨node', hnode', -, rfl⟩ := htail i v hi
  obtain rfl : node' = node := Option.some.inj (hnode'.symm.trans hnode)
  exact absurd hinside.1 (Nat.not_le.mpr hpos)

/-- The constructor stores the free space of the array, a stretch in each place. -/
def ScatterExact (b : ByteArray) : Prop :=
  ∃ vec : List IOVec, stored b = .ok (vec.map some) ∧ b.ScattersExactly vec

theorem Layout.scatters_iff (h : b.Layout R W) :
    b.ScatterExact ↔ b.nodes.length - b.writeNode < 2 ^ 31 := by
  have hstored := h.stored
  constructor
  · rintro ⟨vec, hvec, -⟩
    by_contra hmany
    rw [hvec, if_neg hmany] at hstored
    cases hstored
  · intro hfew
    obtain ⟨vec, hvec, hexact⟩ := h.scattersExactly
    rw [if_pos hfew, hvec] at hstored
    exact ⟨vec, hstored, hexact⟩

/-- Whatever has been written and retrieved, the writer offers the free space exactly if fewer
than `2 ^ 31` nodes are left. -/
theorem scatterExact_iff (h : b.ReachableWithin (2 ^ 62)) :
    b.ScatterExact ↔ b.nodes.length - b.writeNode < 2 ^ 31 := by
  obtain ⟨-, -, R, W, hlayout⟩ := h.holds le_rfl
  exact hlayout.scatters_iff

/-- Two nodes are left, of which the first has bytes in it. -/
theorem scatterExact_two : ∃ b, Run.final (callWithin (2 ^ 62)) new
    [.put (List.replicate 2100 7)] = .ok b ∧ b.nodes.length - b.writeNode = 2 ∧
      b.ScatterExact := by
  have hrun : (Run.final (callWithin (2 ^ 62)) new
      [.put (List.replicate 2100 7)]).map (fun b => b.nodes.length - b.writeNode) = .ok 2 := by
    decide +kernel
  obtain ⟨b, hb, hleft⟩ := Except.exists_of_map_eq_ok hrun
  exact ⟨b, hb, hleft, (scatterExact_iff ⟨_, hb⟩).mpr (by rw [hleft]; decide)⟩

/-! ## Many nodes -/

/-- The allocation for `2 ^ 42` bytes in a fresh array. -/
theorem new_alloc : new.unlockedAllocIfNotEnough (2 ^ 42) = .ok (new.grown (2 ^ 33 - 1)) := by
  have hloop : growLoop new (2 ^ 42) 64 (Word64.mul new.nodes.length 2) = .ok (2 ^ 33) := by
    decide +kernel
  have hnew : newWriteable new (2 ^ 33) = 1024 + 1024 * (2 ^ 33 - 1) := by decide +kernel
  have hmove : new.unlockedMoveBufferHead = new := rfl
  have hneed : new.availableSizeToWrite ≤ 2 ^ 42 := by decide
  rw [unlockedAllocIfNotEnough, if_pos hneed, hmove]
  simp only [if_pos hneed, hloop, bind, Except.bind, hnew]
  rfl

/-- Half of the nodes are left after a fresh array has taken `2 ^ 42` bytes. -/
theorem new_writeRaw {data : List UInt8} (hdata : data.length = 2 ^ 42) :
    ∃ b R W, new.writeRaw data = .ok b ∧ b.Layout R W ∧
      b.nodes.length - b.writeNode = 2 ^ 32 := by
  have halloc := new_alloc
  rw [← hdata] at halloc
  have hlength : (new.grown (2 ^ 33 - 1)).nodes.length = 1 + (2 ^ 33 - 1) :=
    new.grown_length (Nat.zero_le _)
  have hroom : (new.grown (2 ^ 33 - 1)).availableSizeToWrite = 1024 + 1024 * (2 ^ 33 - 1) := rfl
  obtain ⟨b, hok, hlayout, -, hnodes⟩ := (new_layout.grown (2 ^ 33 - 1)).writeRaw_of_lt data
    (by omega) (by omega)
  have hle := hlayout.writeNode_le
  have hlt := hlayout.lt_writeNode
  refine ⟨b, _, _, ?_, hlayout, by omega⟩
  rw [writeRaw_of_alloc (by rw [hdata]; decide) halloc (by omega), hok]

/-- Four tebibytes in a fresh array: `2 ^ 32` nodes are left. -/
theorem scatterExact_fails : ∃ b, Run.final (callWithin (2 ^ 62)) new
    [.put (List.replicate (2 ^ 42) 0)] = .ok b ∧ ¬ b.ScatterExact := by
  have hdata : (List.replicate (2 ^ 42) (0 : UInt8)).length = 2 ^ 42 := List.length_replicate
  obtain ⟨b, R, W, hok, hlayout, hleft⟩ := new_writeRaw hdata
  have hmany : ¬ b.nodes.length - b.writeNode < 2 ^ 31 := by omega
  exact ⟨b, new_put (by rw [hdata]; decide) hok, mt hlayout.scatters_iff.mp hmany⟩

end ByteArray

end Netpp
