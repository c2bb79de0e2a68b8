import Netpp.Socket.Reader

/-!
# What the reader offers

The stretches of `ByteArrayReaderWithLock` are the unread bytes of the array:
gathering them gives these bytes in order, and they hold as many bytes as
`readableBytes` says. From this follow the effects of `SocketIO::read` and
`SocketIO::write` on an array behind a reader, as far as the connection needs
them: a send takes a prefix of the unread bytes, and a reception of no bytes
leaves the array as it is.
-/

namespace Netpp

namespace ByteArray

open ByteArrayReaderWithLock

variable {limit : Nat} {b b' : ByteArray} {R W : Nat} {q : List UInt8}

/-- The stretches of some nodes of a list, of which the first has index `i`. -/
theorem gather_iovecLoop {nodes : List BufferNode} {i : Nat} {segment : List BufferNode}
    (hsegment : segment <+: nodes.drop i)
    (h : ∀ n ∈ segment, n.start ≤ n.stop ∧ n.stop ≤ 1024) :
    gather nodes (iovecLoop i segment) = .ok (content segment) ∧
      capacity (iovecLoop i segment) = (content segment).length := by
  induction segment generalizing i with
  | nil => exact ⟨rfl, rfl⟩
  | cons node rest ih =>
      obtain ⟨hstart, hstop⟩ := h node (List.mem_cons_self ..)
      obtain ⟨tail, htail⟩ := hsegment
      have hi : i < nodes.length := by
        have hlength := congrArg List.length htail
        rw [List.length_append, List.length_cons, List.length_drop] at hlength
        omega
      rw [List.drop_eq_getElem_cons hi, List.cons_append] at htail
      injection htail with hnode hrest
      obtain ⟨hgather, hcapacity⟩ := ih ⟨tail, hrest⟩ fun n hn => h n (List.mem_cons_of_mem _ hn)
      have hfilled : Word64.sub node.stop node.start = node.stop - node.start :=
        Word64.sub_of_le hstart (by omega)
      have hlength : node.unread.length = node.stop - node.start := BufferNode.unread_length hstop
      by_cases hempty : node.stop - node.start = 0
      · have hunread : node.unread = [] := List.length_eq_zero_iff.mp (by omega)
        rw [iovecLoop, hfilled, if_neg (not_not.mpr hempty), content_cons, hunread,
          List.nil_append]
        exact ⟨hgather, hcapacity⟩
      · have hload : nodes[i].load node.start (node.stop - node.start) = .ok node.unread := by
          rw [← hnode, BufferNode.load_of_le (by omega), BufferNode.unread,
            Nat.add_sub_cancel' hstart]
        rw [iovecLoop, hfilled, if_pos hempty]
        constructor
        · simp only [gather, nodeAt_of_lt hi, hload, hgather, bind, Except.bind, content_cons]
        · rw [content_cons, List.length_append, hlength, ← hcapacity]
          rfl

theorem reader_iovecLoop_length (i : Nat) (nodes : List BufferNode) :
    (iovecLoop i nodes).length ≤ nodes.length := by
  induction nodes generalizing i with
  | nil => exact le_rfl
  | cons node rest ih =>
      rw [iovecLoop]
      have := ih (i + 1)
      split
      · exact Nat.succ_le_succ this
      · exact Nat.le_succ_of_le this

/-- A stretch is what one of the nodes holds, and it is not empty. -/
theorem mem_iovecLoop {nodes : List BufferNode} {i : Nat} {segment : List BufferNode}
    (hsegment : segment <+: nodes.drop i)
    (h : ∀ n ∈ segment, n.start ≤ n.stop ∧ n.stop ≤ 1024) {v : IOVec}
    (hv : v ∈ iovecLoop i segment) :
    v.len ≠ 0 ∧ ∃ node, nodes[v.node]? = some node ∧ v.base = node.start ∧
      v.base + v.len = node.stop ∧ node.stop ≤ 1024 := by
  induction segment generalizing i with
  | nil => cases hv
  | cons node rest ih =>
      obtain ⟨hstart, hstop⟩ := h node (List.mem_cons_self ..)
      obtain ⟨tail, htail⟩ := hsegment
      obtain ⟨hnode, hdrop⟩ := Segment.getElem?_of_drop_eq_cons htail.symm
      have hfilled : Word64.sub node.stop node.start = node.stop - node.start :=
        Word64.sub_of_le hstart (by omega)
      have hrest := @ih (i + 1) ⟨tail, hdrop.symm⟩ fun n hn => h n (List.mem_cons_of_mem _ hn)
      rw [iovecLoop, hfilled] at hv
      by_cases hempty : node.stop - node.start = 0
      · rw [if_neg (not_not.mpr hempty)] at hv
        exact hrest hv
      · rw [if_pos hempty] at hv
        rcases List.mem_cons.mp hv with rfl | hv
        · exact ⟨hempty, node, hnode, rfl, Nat.add_sub_cancel' hstart, hstop⟩
        · exact hrest hv

/-- The stretches are those of the nodes up to `endOfReadNode`. -/
theorem iovec_of_endOfReadNode {stop : Nat} (hend : b.endOfReadNode = .ok stop)
    (hstop : stop ≤ b.nodes.length) :
    iovec b = .ok (iovecLoop b.readNode ((b.nodes.take stop).drop b.readNode)) := by
  rw [iovec, hend]
  simp only [bind, Except.bind]
  rw [if_neg (Nat.not_lt.mpr hstop)]

theorem visited_prefix (b : ByteArray) (stop : Nat) :
    (b.nodes.take stop).drop b.readNode <+: b.nodes.drop b.readNode := by
  rw [List.drop_take]
  exact List.take_prefix _ _

theorem Layout.visited_offsets (h : b.Layout R W) {stop i : Nat} {n : BufferNode}
    (hn : n ∈ (b.nodes.take stop).drop i) : n.start ≤ n.stop ∧ n.stop ≤ 1024 :=
  h.marks.offsets_le h.read_le_write (List.mem_of_mem_take (List.mem_of_mem_drop hn))

/-- The stretches of the reader are the unread bytes. -/
theorem Layout.reader_iovec (h : b.Layout R W) :
    ∃ vec, iovec b = .ok vec ∧ gather b.nodes vec = .ok b.unread ∧
      capacity vec = b.readableBytes := by
  have hw := h.writeNode_lt
  obtain ⟨stop, hend, hread, hstop, hreach⟩ := h.endOfReadNode
  have hvisited := h.unread_eq_visited hread.le (by omega) hreach
  obtain ⟨hgather, hcapacity⟩ := gather_iovecLoop (b.visited_prefix stop) fun _ => h.visited_offsets
  refine ⟨_, iovec_of_endOfReadNode hend (by omega), ?_, ?_⟩
  · rw [hvisited]
    exact hgather
  · rw [h.readableBytes_eq, hvisited, hcapacity]

theorem Holds.reader_iovec (h : Holds limit b q) :
    ∃ vec, iovec b = .ok vec ∧ gather b.nodes vec = .ok q ∧ capacity vec = q.length := by
  have hreadable := h.readableBytes
  obtain ⟨rfl, -, R, W, hlayout⟩ := h
  obtain ⟨vec, hvec, hgather, hcapacity⟩ := hlayout.reader_iovec
  exact ⟨vec, hvec, hgather, by rw [hcapacity, hreadable]⟩

theorem Holds.consumesExactly_zero (h : Holds limit b q) : b.ConsumesExactly 0 := by
  obtain ⟨-, -, R, W, hlayout⟩ := h
  have hle := hlayout.le_readNode
  refine .inr (.inl ⟨by decide, ?_⟩)
  rw [hlayout.readStart_eq, bufferNodeSize_eq]
  omega

/-- Consuming nothing changes nothing to see. -/
theorem Holds.adjustByteArray_zero (h : Holds memoryLimit b q) :
    ∃ b', ByteArrayReaderWithLock.adjustByteArray b 0 = .ok b' ∧ Holds memoryLimit b' q :=
  h.adjustByteArray fun _ => h.consumesExactly_zero

/-- Placing no bytes leaves the nodes alone. -/
theorem scatter_nil {nodes nodes' : List BufferNode} {vec : List IOVec}
    (h : scatter nodes vec [] = .ok nodes') : nodes' = nodes := by
  induction vec generalizing nodes with
  | nil =>
      cases h
      rfl
  | cons v vs ih =>
      obtain ⟨hv, m, hstore, hrest⟩ := scatter_cons_ok h
      have hsame : m = nodes[v.node] := by
        rw [List.take_nil, BufferNode.store] at hstore
        split at hstore
        · injection hstore with hstore
          rw [← hstore]
          simp
        · cases hstore
      rw [List.drop_nil, hsame, List.set_getElem_self] at hrest
      exact ih hrest

/-! ## The view -/

/-- The stretches fit into the array that is allocated for them, each is what one node holds
and is not empty, and together they are the unread bytes. -/
structure GathersExactly (b : ByteArray) (vec : List IOVec) : Prop where
  allocated : ∃ endOfRead, b.endOfReadNode = .ok endOfRead ∧
    vec.length ≤ Word64.sub endOfRead b.readNode
  nonempty : ∀ v ∈ vec, v.len ≠ 0
  inside : ∀ v ∈ vec, ∃ node, b.nodes[v.node]? = some node ∧ v.base = node.start ∧
    v.base + v.len = node.stop ∧ v.base + v.len ≤ bufferNodeSize
  gathered : gather b.nodes vec = .ok b.unread
  total : capacity vec = availableBytes b

theorem Layout.gathersExactly (h : b.Layout R W) (hnodes : 1024 * b.nodes.length < 2 ^ 64) :
    ∃ vec, iovec b = .ok vec ∧ b.GathersExactly vec := by
  have hw := h.writeNode_lt
  obtain ⟨stop, hend, hread, hstop, -⟩ := h.endOfReadNode
  obtain ⟨vec, hvec, hgather, hcapacity⟩ := h.reader_iovec
  have hloop : vec = iovecLoop b.readNode ((b.nodes.take stop).drop b.readNode) :=
    Except.ok.inj (hvec.symm.trans (iovec_of_endOfReadNode hend (by omega)))
  have hmem {v : IOVec} (hv : v ∈ vec) :=
    mem_iovecLoop (b.visited_prefix stop) (fun _ => h.visited_offsets) (hloop ▸ hv)
  refine ⟨vec, hvec, ⟨stop, hend, ?_⟩, fun v hv => (hmem hv).1, fun v hv => ?_, hgather, hcapacity⟩
  · have hlength := reader_iovecLoop_length b.readNode ((b.nodes.take stop).drop b.readNode)
    rw [← hloop, List.length_drop, List.length_take] at hlength
    rw [Word64.sub_of_le hread.le (by omega)]
    omega
  · obtain ⟨-, node, hnode, hbase, hstop, hle⟩ := hmem hv
    exact ⟨node, hnode, hbase, hstop, hstop ▸ hle⟩

/-- Whatever has been written and retrieved, the reader offers the unread bytes. -/
theorem reader_gathersExactly (h : b.ReachableWithin (2 ^ 62)) :
    ∃ vec, iovec b = .ok vec ∧ b.GathersExactly vec := by
  obtain ⟨-, hnodes, R, W, hlayout⟩ := h.holds le_rfl
  exact hlayout.gathersExactly (by omega)

/-- The first node is full, and the write node has no unread byte yet. -/
theorem reader_gathersExactly_full : ∃ b, Run.final (callWithin (2 ^ 62)) new
    [.put (List.replicate 1024 7), .get 1] = .ok b ∧ b.readableBytes = 1023 ∧
      ∃ vec, iovec b = .ok vec ∧ b.GathersExactly vec := by
  have hrun : (Run.final (callWithin (2 ^ 62)) new
      [.put (List.replicate 1024 7), .get 1]).map readableBytes = .ok 1023 := by
    decide +kernel
  obtain ⟨b, hb, hreadable⟩ := Except.exists_of_map_eq_ok hrun
  exact ⟨b, hb, hreadable, reader_gathersExactly ⟨_, hb⟩⟩

/-! ## Sending -/

/-- Sending from an array without unread bytes sends nothing. -/
theorem Holds.write_nil (h : Holds memoryLimit b []) {answer : Answer Nat} {sent : List UInt8}
    {writeCompleted : Bool}
    (hwrite : SocketIO.write .reader b answer = .ok (.ok (b', sent, writeCompleted))) :
    sent = [] ∧ Holds memoryLimit b' [] ∧
      if writeCompleted then ∃ room, Stub.sendmsg answer = .ok (some room)
      else Stub.sendmsg answer = .ok none := by
  unfold SocketIO.write at hwrite
  cases hstub : Stub.sendmsg answer with
  | error e =>
      rw [hstub] at hwrite
      cases hwrite
  | ok room =>
      rw [hstub] at hwrite
      cases room with
      | none =>
          cases hwrite
          exact ⟨rfl, h, rfl⟩
      | some room =>
          obtain ⟨vec, hvec, hgather, -⟩ := h.reader_iovec
          obtain ⟨b'', hadjust, hholds⟩ := h.adjustByteArray_zero
          simp only [ByteArray2IOVec.iovec, ByteArray2IOVec.adjustByteArray, hvec, hgather, bind,
            Except.bind, List.take_nil, List.length_nil, hadjust] at hwrite
          cases hwrite
          exact ⟨rfl, hholds, by simp⟩

/-! ## Receiving into a reader's stretches -/

/-- Bytes are taken if some arrive and there are unread bytes to put them over. -/
theorem Holds.read_taken (h : Holds limit b q) {answer : Answer (List UInt8)}
    {taken : List UInt8} (hread : SocketIO.read .reader b answer = .ok (.ok (b', taken))) :
    taken = [] ↔ ∀ arrived, Stub.recvmsg answer = .ok (some arrived) → arrived = [] ∨ q = [] := by
  obtain ⟨vec, hvec, -, hcapacity⟩ := h.reader_iovec
  unfold SocketIO.read at hread
  cases hstub : Stub.recvmsg answer with
  | error e =>
      rw [hstub] at hread
      cases hread
  | ok arrived =>
      rw [hstub] at hread
      cases arrived with
      | none =>
          cases hread
          simp
      | some arrived =>
          obtain ⟨vec', hvec', hread⟩ := Except.exists_of_bind_eq_ok hread
          obtain ⟨nodes, -, hread⟩ := Except.exists_of_bind_eq_ok hread
          obtain ⟨b'', -, hread⟩ := Except.exists_of_bind_eq_ok hread
          have hsame : vec' = vec := by
            change ByteArrayReaderWithLock.iovec b = _ at hvec'
            rw [hvec] at hvec'
            injection hvec' with hvec'
            exact hvec'.symm
          cases hread
          rw [hsame, hcapacity]
          simp [List.take_eq_nil_iff, or_comm]

/-- A reception without bytes leaves the unread bytes as they are. -/
theorem Holds.read_nil (h : Holds memoryLimit b q) {answer : Answer (List UInt8)}
    (hread : SocketIO.read .reader b answer = .ok (.ok (b', []))) : Holds memoryLimit b' q := by
  unfold SocketIO.read at hread
  cases hstub : Stub.recvmsg answer with
  | error e =>
      rw [hstub] at hread
      cases hread
  | ok arrived =>
      rw [hstub] at hread
      cases arrived with
      | none =>
          cases hread
          exact h
      | some arrived =>
          obtain ⟨vec, hvec, hread⟩ := Except.exists_of_bind_eq_ok hread
          obtain ⟨nodes, hscatter, hread⟩ := Except.exists_of_bind_eq_ok hread
          obtain ⟨b'', hadjust, hread⟩ := Except.exists_of_bind_eq_ok hread
          injection hread with hread
          injection hread with hread
          obtain ⟨rfl, htaken⟩ := Prod.ext_iff.mp hread
          change arrived.take (capacity vec) = [] at htaken
          rw [htaken] at hscatter hadjust
          rw [scatter_nil hscatter] at hadjust
          obtain ⟨b₁, hok, hholds⟩ := h.adjustByteArray_zero
          change ByteArrayReaderWithLock.adjustByteArray b 0 = .ok b'' at hadjust
          rw [hok] at hadjust
          injection hadjust with hadjust
          rwa [hadjust] at hholds

/-- Consuming from an array without unread bytes leaves none. -/
theorem adjustByteArray_readableBytes {size : Nat}
    (h : ByteArrayReaderWithLock.adjustByteArray b size = .ok b') (hempty : b.readableBytes = 0) :
    b'.readableBytes = 0 := by
  have hle : b.availableSizeToRead ≤ size := le_of_eq_of_le hempty (Nat.zero_le size)
  rw [ByteArrayReaderWithLock.adjustByteArray, if_pos hle] at h
  obtain ⟨node, -, h⟩ := Except.exists_of_bind_eq_ok h
  injection h with h
  rw [← h, unlockedMoveBufferHead_readableBytes]
  rfl

/-- A reception into an array without unread bytes leaves none. -/
theorem read_readableBytes {answer : Answer (List UInt8)} {taken : List UInt8}
    (hread : SocketIO.read .reader b answer = .ok (.ok (b', taken)))
    (hempty : b.readableBytes = 0) : b'.readableBytes = 0 := by
  unfold SocketIO.read at hread
  cases hstub : Stub.recvmsg answer with
  | error e =>
      rw [hstub] at hread
      cases hread
  | ok arrived =>
      rw [hstub] at hread
      cases arrived with
      | none =>
          cases hread
          exact hempty
      | some arrived =>
          obtain ⟨vec, -, hread⟩ := Except.exists_of_bind_eq_ok hread
          obtain ⟨nodes, -, hread⟩ := Except.exists_of_bind_eq_ok hread
          obtain ⟨b'', hadjust, hread⟩ := Except.exists_of_bind_eq_ok hread
          cases hread
          exact adjustByteArray_readableBytes hadjust hempty

end ByteArray

end Netpp
