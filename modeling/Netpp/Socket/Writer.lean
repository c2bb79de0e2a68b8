import Netpp.Buffer.Fifo
import Netpp.Library.Run
import Netpp.Socket.SocketIO

/-!
# Receiving through the writer

`ByteArrayWriterWithLock::adjustByteArray` walks over all nodes from the write
node on. After a node it subtracts the room that is left in it from the size,
not the bytes that it has taken, and it moves the write node on at every node.
The walk is right when there is only one node to visit and some room remains in
it; otherwise the array differs from the one `writeRaw` leaves.
-/

namespace Netpp

namespace ByteArray

open ByteArrayWriterWithLock

variable {b : ByteArray} {R W : Nat}

theorem capacity_iovecLoop (i : Nat) {nodes : List BufferNode}
    (h : ∀ n ∈ nodes, n.stop ≤ 1024) :
    capacity (iovecLoop i nodes) = (nodes.map fun n => bufferNodeSize - n.stop).sum := by
  induction nodes generalizing i with
  | nil => rfl
  | cons n rest ih =>
      have hroom : Word64.sub bufferNodeSize n.stop = bufferNodeSize - n.stop :=
        Word64.sub_of_le (h n (List.mem_cons_self ..)) (by decide)
      rw [List.map_cons, List.sum_cons, ← ih (i + 1) fun m hm => h m (List.mem_cons_of_mem _ hm),
        ← hroom]
      rfl

theorem Layout.vecLen (h : b.Layout R W) : vecLen b = b.nodes.length - b.writeNode := by
  have hw := h.writeNode_lt
  have hwriteLe := h.writeNode_le
  have hwriteLt := h.lt_writeNode
  rw [ByteArrayWriterWithLock.vecLen, bufferNodeSize_eq, h.toWrite]
  split <;> omega

/-- The stretches are the free space of the array, one for each node. -/
theorem Layout.iovec (h : b.Layout R W) :
    iovec b = .ok (iovecLoop b.writeNode (b.nodes.drop b.writeNode)) ∧
      capacity (iovecLoop b.writeNode (b.nodes.drop b.writeNode)) = b.writeableBytes := by
  have hw := h.writeNode_lt
  constructor
  · rw [ByteArrayWriterWithLock.iovec, h.vecLen, if_neg (by omega), List.length_drop,
      if_neg (by simp)]
  · rw [capacity_iovecLoop, h.writeableBytes_eq]
    · rfl
    · exact fun n hn => (h.marks.offsets_le h.read_le_write (List.mem_of_mem_drop hn)).2

/-- What is received fits into the free space; placing it keeps the layout, and
then the array is adjusted. -/
theorem Layout.receive_ok (h : b.Layout R W) {data : List UInt8} {b' : ByteArray}
    (hok : receive b data = .ok b') :
    data.length ≤ b.writeableBytes ∧
      ∃ placed : ByteArray, placed.Layout R W ∧ placed.nodes.length = b.nodes.length ∧
        placed.writeNode = b.writeNode ∧ adjustByteArray placed data.length = .ok b' := by
  obtain ⟨hvec, hcapacity⟩ := h.iovec
  rw [receive, hvec] at hok
  cases hscatter : scatter b.nodes (iovecLoop b.writeNode (b.nodes.drop b.writeNode)) data with
  | error err =>
      simp only [bind, Except.bind, hscatter] at hok
      cases hok
  | ok nodes =>
      simp only [bind, Except.bind, hscatter] at hok
      have hoffsets := scatter_ok_offsets hscatter
      exact ⟨hcapacity ▸ scatter_ok_length hscatter, _, h.congr hoffsets,
        by simpa using congrArg List.length hoffsets, rfl, hok⟩

/-! ## One node -/

theorem store_nil {n : BufferNode} (h : n.stop ≤ 1024) : n.store n.stop [] = .ok n := by
  rw [BufferNode.store, dif_pos (by simpa [bufferNodeSize_eq] using h)]
  simp

theorem adjustLoop_singleton {count writeNode size : Nat} {node : BufferNode}
    (hcount : writeNode + 1 = count) (hsize : node.stop + size < 1024) :
    adjustLoop count [node] writeNode size =
      ([{ node with stop := node.stop + size }], writeNode) := by
  have hadd : Word64.add node.stop size = node.stop + size := Word64.add_of_lt (by omega)
  rw [adjustLoop, hadd, bufferNodeSize_eq, if_neg (by omega), if_neg (by omega)]
  rfl

/-- With one node to visit and room left in it, receiving is writing. -/
theorem Layout.receive_eq_writeRaw (h : b.Layout R W) {data : List UInt8}
    (hlast : b.writeNode + 1 = b.nodes.length) (hroom : data.length < b.writeableBytes) :
    receive b data = b.writeRaw data := by
  have hw := h.writeNode_lt
  have hwriteLe := h.writeNode_le
  have htoWrite := h.toWrite
  have hwriteable : b.writeableBytes = b.availableSizeToWrite := rfl
  have hmark := h.marks.getElem hw
  obtain ⟨node, hnode⟩ : ∃ node, node = b.nodes[b.writeNode] := ⟨_, rfl⟩
  have hstop : node.stop = W - 1024 * b.writeNode := by
    rw [hnode]
    omega
  have hdrop : b.nodes.drop b.writeNode = [node] := by
    rw [List.drop_eq_getElem_cons hw, ← hnode, List.drop_of_length_le (by omega)]
  obtain ⟨m, hstore, -, -⟩ := BufferNode.store_stop (n := node) data
    (by rw [hnode]; have := h.read_le_write; omega) (by omega)
  have hmstop : m.stop = node.stop := (Prod.ext_iff.mp (BufferNode.store_ok_offsets hstore)).2
  have hsub : Word64.sub bufferNodeSize node.stop = 1024 - node.stop :=
    Word64.sub_of_le (by rw [bufferNodeSize_eq]; omega) (by decide)
  have htake : data.take (1024 - node.stop) = data := List.take_of_length_le (by omega)
  have hrest : data.drop (1024 - node.stop) = [] := List.drop_eq_nil_of_le (by omega)
  have hreceive : receive b data =
      adjustByteArray { b with nodes := b.nodes.set b.writeNode m } data.length := by
    rw [receive, h.iovec.1, hdrop]
    simp only [iovecLoop, hsub, scatter, nodeAt_of_lt hw, ← hnode, htake, hrest, hstore, bind,
      Except.bind]
  have hwrite : writeLoop b.nodes.length [node] b.writeNode data =
      .ok ([{ m with stop := node.stop + data.length }], b.writeNode, []) := by
    by_cases hdata : data = []
    · subst hdata
      rw [store_nil (by omega)] at hstore
      injection hstore with hstore
      rw [writeLoop_nil, ← hstore]
      rfl
    · have hlength : data.length ≠ 0 := fun hzero => hdata (List.length_eq_zero_iff.mp hzero)
      rw [writeLoop_cons _ _ _ (n := data.length) (m := m) hlength (by omega) (by omega)
        (by rwa [List.take_length]), List.drop_length, writeLoop_nil, if_neg (by omega)]
      rfl
  have hset : (b.nodes.set b.writeNode m).drop b.writeNode = [m] := by
    rw [List.drop_set, if_neg (lt_irrefl _), Nat.sub_self, hdrop, List.set_cons_zero]
  rw [hreceive, adjustByteArray, if_neg (by change ¬ b.availableSizeToWrite ≤ _; omega), advance,
    ByteArray.writeRaw, if_neg (by omega)]
  simp only [bind, Except.bind, hdrop, hwrite, hset, List.length_set,
    List.take_set_of_le (le_refl b.writeNode), List.length_nil]
  rw [adjustLoop_singleton hlast (by omega), hmstop, Word64.sub_zero_of_lt (by omega)]

/-! ## Several nodes -/

/-- The walk moves the write node to the last node. -/
theorem adjustLoop_writeNode {count writeNode size : Nat} {nodes : List BufferNode}
    (hcount : writeNode + nodes.length = count) (hne : nodes ≠ []) :
    (adjustLoop count nodes writeNode size).2 = count - 1 := by
  induction nodes generalizing writeNode size with
  | nil => exact absurd rfl hne
  | cons node rest ih =>
      rw [List.length_cons] at hcount
      cases rest with
      | nil =>
          rw [List.length_nil] at hcount
          have hstay : (if writeNode + 1 < count then writeNode + 1 else writeNode) = writeNode :=
            if_neg (by omega)
          rw [adjustLoop, hstay, adjustLoop]
          omega
      | cons node' rest =>
          rw [List.length_cons] at hcount
          have hmove : (if writeNode + 1 < count then writeNode + 1 else writeNode) =
              writeNode + 1 := if_pos (by omega)
          rw [adjustLoop, hmove]
          exact ih (by rw [List.length_cons]; omega) (List.cons_ne_nil _ _)

theorem adjustLoop_length (count writeNode size : Nat) (nodes : List BufferNode) :
    (adjustLoop count nodes writeNode size).1.length = nodes.length := by
  induction nodes generalizing writeNode size with
  | nil => rfl
  | cons node rest ih => rw [adjustLoop, List.length_cons, ih, List.length_cons]

/-- A node that is filled up, after which the size is the same as before. -/
theorem adjustLoop_cons_of_le {count writeNode size : Nat} {node : BufferNode}
    {rest : List BufferNode} (hfill : 1024 ≤ node.stop + size) (hstop : node.stop ≤ 1024)
    (hsize : size < 2 ^ 63) :
    (adjustLoop count (node :: rest) writeNode size).1 =
      { node with stop := 1024 } ::
        (adjustLoop count rest (if writeNode + 1 < count then writeNode + 1 else writeNode)
          size).1 := by
  have hadd : Word64.add node.stop size = node.stop + size := Word64.add_of_lt (by omega)
  rw [adjustLoop, hadd, bufferNodeSize_eq, if_pos hfill, Word64.sub_self_of_lt (by decide),
    Word64.sub_zero_of_lt (by omega)]

/-- A size of a node or more fills all nodes up. -/
theorem adjustLoop_full {count writeNode size R W : Nat} {nodes : List BufferNode}
    (hmarks : Marks R W nodes) (hW : W ≤ 1024) (hsize : 1024 ≤ size) (hfit : size < 2 ^ 63) :
    Marks R (1024 * nodes.length) (adjustLoop count nodes writeNode size).1 := by
  induction nodes generalizing writeNode R W with
  | nil => trivial
  | cons node rest ih =>
      obtain ⟨hstart, hstop, hrest⟩ := hmarks
      rw [adjustLoop_cons_of_le (by omega) (by omega) hfit]
      refine ⟨hstart, ?_, ?_⟩
      · change 1024 = _
        rw [List.length_cons]
        omega
      · have hpos : 1024 * (node :: rest).length - 1024 = 1024 * rest.length := by
          rw [List.length_cons]
          omega
        rw [hpos]
        exact ih hrest (by omega)

/-- Once the first of several nodes is full, the nodes end up with too many
bytes. -/
theorem adjustLoop_content_lt (count writeNode size : Nat) {R W : Nat} {nodes : List BufferNode}
    (hmarks : Marks R W nodes) (hRW : R ≤ W) (hW : W < 1024) (hfill : 1024 ≤ W + size)
    (hnodes : 2 ≤ nodes.length) (hroom : W + size < 1024 * nodes.length) (hfit : size < 2 ^ 63) :
    W - R + size < (content (adjustLoop count nodes writeNode size).1).length := by
  rcases Nat.lt_or_ge size 1024 with hsize | hsize
  · -- the second node gets the whole size again
    cases nodes with
    | nil => simp at hnodes
    | cons node nodes =>
        cases nodes with
        | nil => simp at hnodes
        | cons next rest =>
            obtain ⟨hstart, hstop, hnextStart, hnextStop, -⟩ := hmarks
            have hadd : Word64.add next.stop size = size := by
              rw [Word64.add_of_lt (by omega)]
              omega
            rw [adjustLoop_cons_of_le (by omega) (by omega) hfit, adjustLoop, hadd,
              bufferNodeSize_eq, if_neg (by omega), content_cons, content_cons,
              List.length_append, List.length_append, BufferNode.unread_length (by simp),
              BufferNode.unread_length (by simp; omega)]
            change _ < 1024 - node.start + (size - next.start + _)
            omega
  · rw [(adjustLoop_full hmarks hW.le hsize hfit).content_length, adjustLoop_length]
    omega

/-- Advancing over several nodes, the first of which is filled up, leaves too
many unread bytes. -/
theorem Layout.advance_unread_lt (h : b.Layout R W) {size : Nat}
    (hsize : size < 2 ^ 63) (hroom : size < b.availableSizeToWrite)
    (hmore : b.writeNode + 1 < b.nodes.length) (hfill : 1024 ≤ W - 1024 * b.writeNode + size) :
    b.unread.length + size < (advance b size).unread.length := by
  have hread := h.readNode_le_writeNode
  have hreadLe := h.le_readNode
  have hRW := h.read_le_write
  have hwriteLe := h.writeNode_le
  have hwriteLt := h.lt_writeNode
  have htoWrite := h.toWrite
  have hmarks := h.marks.drop (k := b.writeNode) (by omega)
  have hlength : (b.nodes.drop b.writeNode).length = b.nodes.length - b.writeNode :=
    List.length_drop
  have hne : b.nodes.drop b.writeNode ≠ [] := List.ne_nil_of_length_pos (by omega)
  have hlast : (advance b size).writeNode = b.nodes.length - 1 :=
    adjustLoop_writeNode (by omega) hne
  have hlonger := adjustLoop_content_lt b.nodes.length b.writeNode size hmarks (by omega)
    (by omega) hfill (by omega) (by omega) (by omega)
  have hlengthAfter : (advance b size).nodes.length = b.nodes.length := by
    rw [advance, List.length_append, adjustLoop_length, List.length_take, hlength]
    omega
  -- the nodes before the write node are the same before and after
  have hbefore : b.unread.length =
      (content ((b.nodes.take b.writeNode).drop b.readNode)).length +
        (content (b.nodes.drop b.writeNode)).length := by
    have hsplit : b.nodes.drop b.readNode =
        (b.nodes.take b.writeNode).drop b.readNode ++ b.nodes.drop b.writeNode := by
      rw [← List.drop_append_of_le_length (by rw [List.length_take]; omega),
        List.take_append_drop]
    have hhead : content (b.nodes.take b.readNode) = [] := by
      refine (h.marks.take _).content_eq_nil (.inr ?_)
      have := h.readNode_le
      rw [List.length_take]
      omega
    rw [h.unread_eq_content, ← List.take_append_drop b.readNode b.nodes, content_append, hhead,
      List.nil_append, List.take_append_drop, hsplit, content_append, List.length_append]
  have hafter : (advance b size).unread.length =
      (content ((b.nodes.take b.writeNode).drop b.readNode)).length +
        (content
          (adjustLoop b.nodes.length (b.nodes.drop b.writeNode) b.writeNode size).1).length := by
    rw [ByteArray.unread, hlast, List.take_of_length_le (by omega)]
    change (content ((b.nodes.take b.writeNode ++ _).drop b.readNode)).length = _
    rw [List.drop_append_of_le_length (by rw [List.length_take]; omega), content_append,
      List.length_append]
  rw [hmarks.content_length, hlength] at hbefore
  omega

/-- Adjusting without room in a single last node leaves too many unread bytes,
or it moves the write node on from a node that is not full. -/
theorem Layout.adjust_unread_lt (h : b.Layout R W) {size : Nat}
    (hnodes : 1024 * b.nodes.length < 2 ^ 62) (hsize : size ≤ b.availableSizeToWrite)
    (hfits : ¬ (b.writeNode + 1 = b.nodes.length ∧ size < b.availableSizeToWrite))
    {b' : ByteArray} (hok : adjustByteArray b size = .ok b') :
    b.unread.length + size < b'.unread.length ∨
      W + size < 1024 * (b.writeNode + 1) ∧ b.writeNode + 1 < b.nodes.length ∧
        b'.writeNode + 1 = b.nodes.length := by
  have hr := h.readNode_le_writeNode
  have hw := h.writeNode_lt
  have hRW := h.read_le_write
  have hreadLe := h.readNode_le
  have hwriteLe := h.writeNode_le
  have hwriteLt := h.lt_writeNode
  have htoWrite := h.toWrite
  have hreadable : b.readableBytes = W - R := h.toRead
  rcases Nat.lt_or_ge size b.availableSizeToWrite with hroom | hfull
  · rw [adjustByteArray, if_neg (by omega)] at hok
    injection hok with hok
    rcases Nat.lt_or_ge (W + size) (1024 * (b.writeNode + 1)) with hfill | hfill
    · right
      refine ⟨hfill, by omega, ?_⟩
      have hlast : b'.writeNode = b.nodes.length - 1 := by
        rw [← hok]
        refine adjustLoop_writeNode ?_ (List.ne_nil_of_length_pos ?_)
        · rw [List.length_drop]
          omega
        · rw [List.length_drop]
          omega
      omega
    · left
      rw [← hok]
      exact h.advance_unread_lt (by omega) hroom (by omega) (by omega)
  · -- the free space is used up, and nodes are added before the walk
    left
    obtain ⟨k, halloc, hgrown, -⟩ := h.alloc size (by omega) (by omega) hfull
    rw [adjustByteArray, if_pos hfull, halloc] at hok
    injection hok with hok
    have hlayout := h.grown k
    have hgrownLength : (b.grown k).nodes.length = b.nodes.length + k := b.grown_length (by omega)
    have hgrownWrite : (b.grown k).writeNode = b.writeNode - b.readNode := rfl
    have hgrownToWrite : (b.grown k).availableSizeToWrite =
        b.availableSizeToWrite + 1024 * b.readNode + 1024 * k := rfl
    rw [← hok, ← h.grown_unread k]
    refine hlayout.advance_unread_lt (by omega) (by omega) (by omega) ?_
    rw [hgrownWrite]
    omega

/-! ## Every state -/

/-- `b'` is `b` with `data` appended: the array that `writeRaw` leaves, and
further writes append behind it and lose nothing. -/
structure Appends (b : ByteArray) (data : List UInt8) (b' : ByteArray) : Prop where
  unread : b'.unread = b.unread ++ data
  readableBytes : b'.readableBytes = b.readableBytes + data.length
  writeableBytes : b'.writeableBytes + data.length = b.writeableBytes
  writeRaw : b.writeRaw data = .ok b'
  later : ∀ more : List (List UInt8),
    (b.unread ++ data ++ more.flatten).length < memoryLimit →
      ∃ b'', Run.final ByteArray.writeRaw b' more = .ok b'' ∧
        b''.unread = b.unread ++ data ++ more.flatten

/-- The walk has one node to visit, and room remains in it. -/
def FitsLastNode (b : ByteArray) (data : List UInt8) : Prop :=
  b.writeNode + 1 = b.nodes.length ∧ data.length < b.writeableBytes

instance (b : ByteArray) (data : List UInt8) : Decidable (b.FitsLastNode data) :=
  inferInstanceAs (Decidable (_ ∧ _))

/-- A reception that fits is an append. -/
theorem Holds.receive {q : List UInt8} (h : Holds memoryLimit b q) {data : List UInt8}
    (hfits : b.FitsLastNode data) :
    ∃ b', receive b data = .ok b' ∧ b.Appends data b' ∧ Holds memoryLimit b' (q ++ data) := by
  have hnodesLt := h.nodes_lt memoryLimit_le
  obtain ⟨rfl, hnodes, R, W, hlayout⟩ := h
  obtain ⟨b', hok, hlayout', hunread, hlength⟩ := hlayout.writeRaw_of_lt data hnodesLt hfits.2
  have hholds : Holds memoryLimit b' (b.unread ++ data) :=
    ⟨hunread, by omega, R, _, hlayout'⟩
  refine ⟨b', by rw [hlayout.receive_eq_writeRaw hfits.1 hfits.2, hok], ?_, hholds⟩
  constructor
  · exact hunread
  · rw [hlayout'.readableBytes_eq, hlayout.readableBytes_eq, hunread, List.length_append]
  · have htoWrite : b.writeableBytes = 1024 * b.nodes.length - W := hlayout.toWrite
    have htoWrite' : b'.writeableBytes = 1024 * b'.nodes.length - (W + data.length) :=
      hlayout'.toWrite
    have hroom := hfits.2
    omega
  · exact hok
  · intro more hmore
    rw [List.length_append] at hmore
    obtain ⟨b'', hfinal, hholds'⟩ := hholds.writeRaw_all memoryLimit_le hmore
    exact ⟨b'', hfinal, hholds'.1⟩

/-- A reception that does not fit is no append. -/
theorem Layout.not_appends (h : b.Layout R W) {data : List UInt8}
    (hnodes : 1024 * b.nodes.length < 2 ^ 62) (hfits : ¬ b.FitsLastNode data) {b' : ByteArray}
    (hok : receive b data = .ok b') : ¬ b.Appends data b' := by
  intro happends
  obtain ⟨hcapacity, placed, hplaced, hlength, hwriteNode, hadjust⟩ := h.receive_ok hok
  have hunread := congrArg List.length happends.unread
  rw [List.length_append, h.unread_length, ← hplaced.unread_length] at hunread
  have htoWrite : b.writeableBytes = placed.availableSizeToWrite := by
    rw [hplaced.toWrite, hlength]
    exact h.toWrite
  rcases hplaced.adjust_unread_lt (by omega) (by omega) (fun hfit =>
    hfits ⟨by omega, by omega⟩) hadjust with hlonger | ⟨hroom, hmore, hlast⟩
  · omega
  · -- `writeRaw` leaves the write node where it is
    have hfree := hplaced.toWrite
    obtain ⟨b'', hwrite, hlayout, -, -⟩ := h.writeRaw_of_lt data (by omega)
      (by change data.length < b.writeableBytes; omega)
    obtain rfl : b'' = b' := by
      have hsame := happends.writeRaw
      rw [hwrite] at hsame
      injection hsame
    have hle := hlayout.writeNode_le
    omega

/-- A reception of no more bytes than there is room for is an append. -/
def AppendsReceived (b : ByteArray) : Op (List UInt8) → Prop
  | .call _ => True
  | .adjust data => data.length ≤ b.writeableBytes →
      ∃ b', receive b data = .ok b' ∧ b.Appends data b'

/-- A reception of no more bytes than there is room for fits into the last node. -/
def ReceivesInLastNode (b : ByteArray) : Op (List UInt8) → Prop
  | .call _ => True
  | .adjust data => data.length ≤ b.writeableBytes → b.FitsLastNode data

/-- Step lemma: at an array that holds some bytes, a reception appends exactly if
it fits. -/
theorem Holds.appendsReceived_iff {q : List UInt8} (h : Holds memoryLimit b q)
    (op : Op (List UInt8)) : b.AppendsReceived op ↔ b.ReceivesInLastNode op := by
  cases op with
  | call c => exact Iff.rfl
  | adjust data =>
      constructor
      · intro happends hsize
        obtain ⟨b', hok, hb'⟩ := happends hsize
        obtain ⟨-, hnodes, R, W, hlayout⟩ := h
        rw [memoryLimit] at hnodes
        by_contra hfits
        exact hlayout.not_appends (by omega) hfits hok hb'
      · intro hfits hsize
        obtain ⟨b', hok, happends, -⟩ := h.receive (hfits hsize)
        exact ⟨b', hok, happends⟩

/-- Along every run of writes, retrievals and receptions, each reception appends
what it receives exactly if each one fits into the last node. -/
theorem appendsReceived_iff_inLastNode (ops : List (Op (List UInt8))) :
    Run.Always (step receive) AppendsReceived new ops ↔
      Run.Always (step receive) ReceivesInLastNode new ops := by
  apply Run.always_iff_always (J := fun b => ∃ q, Holds memoryLimit b q)
  · rintro b op b' ⟨q, hholds⟩ hfits hok
    cases op with
    | call c => exact ⟨_, hholds.step_call hok⟩
    | adjust data =>
        change ByteArrayWriterWithLock.receive b data = _ at hok
        have hsize : data.length ≤ b.writeableBytes := by
          obtain ⟨-, -, R, W, hlayout⟩ := hholds
          exact (hlayout.receive_ok hok).1
        obtain ⟨b'', hok', -, hholds'⟩ := hholds.receive (hfits hsize)
        obtain rfl : b'' = b' := by
          rw [hok'] at hok
          injection hok
        exact ⟨_, hholds'⟩
  · rintro b op ⟨q, hholds⟩
    exact hholds.appendsReceived_iff op
  · exact ⟨[], new_holds _⟩

/-- A fresh array that receives the 1024 bytes it has room for ends up with 2048
unread bytes. -/
theorem appendsReceived_fails : ¬ Run.Always (step receive) AppendsReceived new
    [.adjust (List.replicate 1024 0)] := by
  intro h
  have hrun : (receive new (List.replicate 1024 0)).map (fun b => b.unread.length) = .ok 2048 := by
    decide +kernel
  obtain ⟨b, hb, hlong⟩ := Except.exists_of_map_eq_ok hrun
  obtain ⟨b', hok, happends⟩ := h.1 (List.length_replicate.trans_le (le_refl 1024))
  obtain rfl : b = b' := by
    rw [hb] at hok
    injection hok
  have hlength := congrArg List.length happends.unread
  rw [List.length_append, List.length_replicate (n := 1024), hlong] at hlength
  have hempty : new.unread.length = 0 := by decide +kernel
  omega

end ByteArray

end Netpp
