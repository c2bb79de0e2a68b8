import Netpp.Copy.Loops
import Netpp.Socket.Reader
import Netpp.Socket.Writer

/-!
# Operations on spared nodes

`Becomes a b a'` says that an array has changed to the value `b` unseen by the other
arrays. An operation of `ByteArray` on the value is an operation on the array, as long
as the nodes that its iterators get to and those that `moveToTail` resets are spared.
In a layout the nodes after the write node are empty, so they always are.
-/

namespace Netpp

namespace CowArray

open CowLink

variable {a a' : CowArray} {b : ByteArray} {R W : Nat}

/-- `a'` has the value `b`, and for the other links `a` has not changed. -/
structure Becomes (a : CowArray) (b : ByteArray) (a' : CowArray) : Prop where
  value : a'.value = b
  proper : a'.link.Proper
  frame : Frame a.link a'.link

theorem Becomes.trans {b' : ByteArray} {a'' : CowArray} (h : Becomes a b a')
    (h' : Becomes a' b' a'') : Becomes a b' a'' :=
  ⟨h'.value, h'.proper, h.frame.trans h'.frame⟩

theorem value_nodes_length (a : CowArray) : a.value.nodes.length = a.link.size :=
  values_length a.link

/-- The nodes after the write node are empty. -/
theorem spared_of_layout (h : a.value.Layout R W) {j : Nat} (hj : a.writeNode < j) :
    a.link.Spared j := by
  intro ptr hptr
  right
  have hvalue : a.value.nodes[j]? = some (a.link.heap ptr) := by
    change a.link.values[j]? = _
    rw [values_getElem?, hptr]
    rfl
  obtain ⟨hlt, hget⟩ := List.getElem?_eq_some_iff.mp hvalue
  obtain ⟨hstart, hstop⟩ := h.nodeInvariant.empty j hlt hj
  rw [← hget, BufferNode.offsets, hstart, hstop]

/-! ## Growing -/

/-- The head is moved; the write node is spared if it was. -/
theorem unlockedMoveBufferHead_becomes (h : a.link.Proper) (hread : a.readNode ≤ a.link.size)
    (hhead : ∀ j < a.readNode, a.link.Spared j) :
    ∃ a', a.unlockedMoveBufferHead = .ok a' ∧ Becomes a a.value.unlockedMoveBufferHead a' ∧
      (a.readNode ≤ a.writeNode → a.writeNode < a.link.size → a.link.size < 2 ^ 64 →
        a.link.Spared a.writeNode → a'.link.Spared a'.writeNode) := by
  by_cases hzero : a.readNode = 0
  · have hvalue : a.value.unlockedMoveBufferHead = a.value := if_pos hzero
    refine ⟨a, if_pos hzero, ?_, fun _ _ _ hspared => hspared⟩
    rw [hvalue]
    exact ⟨rfl, h, .refl _⟩
  · obtain ⟨link, hmove, hproper, hframe, hvalues, hspares⟩ := h.moveToTail_reset hread hhead
    have hvalue : a.value.unlockedMoveBufferHead = { a.value with
        nodes := moveToTail a.link.values a.readNode BufferNode.reset
        availableSizeToWrite :=
          Word64.add a.availableSizeToWrite (Word64.mul a.readNode bufferNodeSize)
        writeNode := Word64.sub a.writeNode a.readNode
        readNode := 0 } := if_neg hzero
    refine ⟨{ a with
        link := link
        availableSizeToWrite :=
          Word64.add a.availableSizeToWrite (Word64.mul a.readNode bufferNodeSize)
        writeNode := Word64.sub a.writeNode a.readNode
        readNode := 0 }, ?_, ?_, fun hle hwrite hsize hspared => ?_⟩
    · rw [unlockedMoveBufferHead, if_neg hzero, hmove]
      rfl
    · rw [hvalue, ← hvalues]
      exact ⟨rfl, hproper, hframe⟩
    · have hback : a.readNode + (a.writeNode - a.readNode) = a.writeNode :=
        Nat.add_sub_cancel' hle
      change link.Spared (Word64.sub a.writeNode a.readNode)
      rw [Word64.sub_of_le hle (hwrite.trans hsize)]
      apply hspares
      · rwa [hback]
      · rwa [hback]

theorem unlockedAllocIfNotEnough_becomes (h : a.link.Proper) {size : Nat}
    (hhead : ∀ j < a.readNode, a.link.Spared j) (hread : a.readNode ≤ a.writeNode)
    (hwrite : a.writeNode < a.link.size) (hsize : a.link.size < 2 ^ 64)
    (hspared : a.link.Spared a.writeNode)
    (hok : a.value.unlockedAllocIfNotEnough size = .ok b) :
    ∃ a', a.unlockedAllocIfNotEnough size = .ok a' ∧ Becomes a b a' ∧
      a'.link.Spared a'.writeNode := by
  unfold ByteArray.unlockedAllocIfNotEnough at hok
  unfold unlockedAllocIfNotEnough
  obtain ⟨moved, hmove, hmoved, hmovedSpared⟩ :=
    unlockedMoveBufferHead_becomes h (hread.trans hwrite.le) hhead
  have hmovedSpared := hmovedSpared hread hwrite hsize hspared
  have havailable : a.value.unlockedMoveBufferHead.availableSizeToWrite =
      moved.availableSizeToWrite := by
    rw [← hmoved.value]
    rfl
  change (if a.availableSizeToWrite ≤ size then _ else _) = _ at hok
  by_cases hneed : a.availableSizeToWrite ≤ size
  · rw [if_pos hneed] at hok ⊢
    simp only [hmove, havailable, bind, Except.bind] at hok ⊢
    by_cases hmore : moved.availableSizeToWrite ≤ size
    · rw [if_pos hmore] at hok ⊢
      obtain ⟨idleNodeCount, hloop, hok⟩ := Except.exists_of_bind_eq_ok hok
      cases hok
      rw [← hmoved.value, value_nodes_length] at hloop
      obtain ⟨hproper, hframe, hvalues, hspares⟩ := hmoved.proper.allocMore_new idleNodeCount
      refine ⟨{ moved with
        link := moved.link.allocMore idleNodeCount
        availableSizeToWrite := moved.value.newWriteable idleNodeCount }, ?_, ?_,
        hspares _ hmovedSpared⟩
      · simp only [hloop]
      refine ⟨?_, hproper, hmoved.frame.trans hframe⟩
      rw [← hmoved.value]
      change (⟨_, _, _, _, (moved.link.allocMore idleNodeCount).values⟩ : ByteArray) = _
      rw [hvalues]
      rfl
    · rw [if_neg hmore] at hok ⊢
      cases hok
      exact ⟨moved, rfl, hmoved, hmovedSpared⟩
  · rw [if_neg hneed] at hok ⊢
    cases hok
    exact ⟨a, rfl, ⟨rfl, h, .refl _⟩, hspared⟩

/-! ## Writing -/

/-- The nodes that a write gets to are spared: those before the read node if it
grows the array, and the write node. -/
structure WriteSpared (a : CowArray) (size : Nat) : Prop where
  head : a.availableSizeToWrite ≤ size → ∀ j < a.readNode, a.link.Spared j
  writeNode : a.link.Spared a.writeNode

instance (a : CowArray) (size : Nat) : Decidable (a.WriteSpared size) :=
  decidable_of_iff ((a.availableSizeToWrite ≤ size → ∀ j < a.readNode, a.link.Spared j) ∧
    a.link.Spared a.writeNode) ⟨fun h => ⟨h.1, h.2⟩, fun h => ⟨h.head, h.writeNode⟩⟩

/-- Where there is room, or room has been made. -/
theorem writeRaw_becomes_of_lt (h : a.link.Proper) (hlayout : a.value.Layout R W)
    (hspared : a.link.Spared a.writeNode) {data : List UInt8}
    (hroom : data.length < a.availableSizeToWrite) (hok : a.value.writeRaw data = .ok b) :
    ∃ a', a.writeRaw data = .ok a' ∧ Becomes a b a' := by
  have hwrite : a.writeNode < a.link.size := by
    rw [← value_nodes_length]
    exact hlayout.writeNode_lt
  have hfits : ¬a.availableSizeToWrite ≤ data.length := Nat.not_le.mpr hroom
  have hvisit := h.visited hspared
  have hsize := hvisit.size
  rw [ByteArray.writeRaw, if_neg (show ¬a.value.availableSizeToWrite ≤ _ from hfits)] at hok
  obtain ⟨_, hvalue, hok⟩ := Except.exists_of_bind_eq_ok hok
  cases hvalue
  obtain ⟨⟨nodes', writeNode', left⟩, hloop, hok⟩ := Except.exists_of_bind_eq_ok hok
  cases hok
  rw [value_nodes_length] at hloop
  change ByteArray.writeLoop _ (a.link.values.drop a.writeNode) a.writeNode data = _ at hloop
  rw [← hvisit.drop] at hloop
  obtain ⟨l', hloop', hlooped⟩ := writeLoop_looped hvisit.proper hvisit.own
    (fun j hj => hvisit.spares j (spared_of_layout hlayout hj)) (by omega) hloop
  have hvalues := hlooped.values_of_visited hvisit hwrite
  refine ⟨{ a with
    link := l'
    writeNode := writeNode'
    availableSizeToRead := Word64.add a.availableSizeToRead (Word64.sub data.length left.length)
    availableSizeToWrite :=
      Word64.sub a.availableSizeToWrite (Word64.sub data.length left.length) }, ?_, ?_⟩
  · rw [writeRaw, if_neg hfits]
    simp only [hloop', bind, Except.bind]
  · refine ⟨?_, hlooped.proper, hvisit.frame.trans hlooped.frame⟩
    change (⟨_, _, _, _, l'.values⟩ : ByteArray) = _
    rw [hvalues]
    rfl

theorem writeRaw_of_alloc {c : CowArray} {data : List UInt8}
    (hneed : a.availableSizeToWrite ≤ data.length)
    (halloc : a.unlockedAllocIfNotEnough data.length = .ok c)
    (hroom : data.length < c.availableSizeToWrite) : a.writeRaw data = c.writeRaw data := by
  have hfits : ¬c.availableSizeToWrite ≤ data.length := Nat.not_le.mpr hroom
  rw [writeRaw, writeRaw, if_pos hneed, if_neg hfits, halloc]

theorem writeRaw_becomes (h : a.link.Proper) (hlayout : a.value.Layout R W)
    (hnodes : 1024 * a.link.size < 2 ^ 64) {data : List UInt8}
    (hsize : a.availableSizeToRead + data.length < 2 ^ 62) (hspared : a.WriteSpared data.length)
    (hok : a.value.writeRaw data = .ok b) :
    ∃ a', a.writeRaw data = .ok a' ∧ Becomes a b a' := by
  rcases Nat.lt_or_ge data.length a.availableSizeToWrite with hroom | hneed
  · exact writeRaw_becomes_of_lt h hlayout hspared.writeNode hroom hok
  · have hwrite : a.writeNode < a.link.size := by
      rw [← value_nodes_length]
      exact hlayout.writeNode_lt
    rw [← value_nodes_length] at hnodes
    obtain ⟨k, halloc, hroom, -⟩ := hlayout.alloc data.length hnodes hsize hneed
    rw [value_nodes_length] at hnodes
    obtain ⟨c, halloc', hbecomes, hcSpared⟩ := unlockedAllocIfNotEnough_becomes h
      (hspared.head hneed) hlayout.readNode_le_writeNode hwrite (by omega) hspared.writeNode halloc
    have hcLayout := hlayout.grown k
    rw [ByteArray.writeRaw_of_alloc hneed halloc hroom, ← hbecomes.value] at hok
    rw [← hbecomes.value] at hcLayout
    have hcRoom : data.length < c.availableSizeToWrite := by
      change _ < c.value.availableSizeToWrite
      rw [hbecomes.value]
      exact hroom
    obtain ⟨a', hok', hbecomes'⟩ :=
      writeRaw_becomes_of_lt hbecomes.proper hcLayout hcSpared hcRoom hok
    exact ⟨a', by rw [writeRaw_of_alloc hneed halloc' hcRoom, hok'], hbecomes.trans hbecomes'⟩

/-! ## Reading -/

/-- The nodes that a retrieval gets to are spared: those it takes bytes from and the
next one. -/
def RetrievalSpared (a : CowArray) (length : Nat) : Prop :=
  length ≤ a.availableSizeToRead →
    ∀ j ≤ retrieveRounds (a.link.values.drop a.readNode) length, a.link.Spared (a.readNode + j)

instance (a : CowArray) (length : Nat) : Decidable (a.RetrievalSpared length) :=
  inferInstanceAs (Decidable (_ → ∀ j ≤ _, _))

theorem retrieveRaw_becomes (h : a.link.Proper) (hlayout : a.value.Layout R W) {length n : Nat}
    {copied : List UInt8} (hspared : a.RetrievalSpared length)
    (hok : a.value.retrieveRaw length = .ok (b, n, copied)) :
    ∃ a', a.retrieveRaw length = .ok (a', n, copied) ∧ Becomes a b a' := by
  by_cases hlength : length ≤ a.availableSizeToRead
  · obtain ⟨stop, hend, hstopLt, hstopLe, -⟩ := hlayout.endOfReadNode
    have hwrite : a.writeNode < a.link.size := by
      rw [← value_nodes_length]
      exact hlayout.writeNode_lt
    have hread : a.value.readNode = a.readNode := rfl
    have hwriteNode : a.value.writeNode = a.writeNode := rfl
    change stop ≤ a.writeNode + 1 at hstopLe
    have hvisit : Visited a.link a.readNode _ := h.visited (hspared hlength 0 (Nat.zero_le _))
    have hsize := hvisit.size
    have hvisited : (a.value.nodes.take stop).drop a.readNode =
        ((a.link.cowThisNode a.readNode).values.drop a.readNode).take (stop - a.readNode) := by
      rw [hvisit.values, List.drop_take]
      rfl
    have hvalue : length ≤ a.value.availableSizeToRead := hlength
    rw [ByteArray.retrieveRaw, if_pos hvalue] at hok
    obtain ⟨_, hstop, hok⟩ := Except.exists_of_bind_eq_ok hok
    rw [hend] at hstop
    cases hstop
    obtain ⟨r, hloop, hok⟩ := Except.exists_of_bind_eq_ok hok
    cases hok
    rw [value_nodes_length, hread, hwriteNode, hvisited] at hloop
    obtain ⟨l', hloop', hlooped⟩ := retrieveLoop_looped hvisit.proper hvisit.own
      (fun j hj => by
        rw [hvisit.values] at hj
        exact hvisit.spares _ (hspared hlength (j + 1) hj)) (by omega) hloop
    have hlengthVisited :
        ((a.value.nodes.take stop).drop a.readNode).length = stop - a.readNode := by
      rw [List.length_drop, List.length_take, value_nodes_length]
      omega
    refine ⟨{ a with
      link := l'
      readNode := r.readNode
      writeNode := r.writeNode
      availableSizeToRead := Word64.sub a.availableSizeToRead (length - r.left) }, ?_, ?_⟩
    · rw [retrieveRaw, if_pos hlength, hend]
      simp only [hloop', bind, Except.bind]
    · refine ⟨?_, hlooped.proper, hvisit.frame.trans hlooped.frame⟩
      change (⟨_, _, _, _, l'.values⟩ : ByteArray) = _
      rw [hlooped.values, hvisit.values, ← hlengthVisited]
      rfl
  · have hvalue : a.value.retrieveRaw length = .ok (a.value, 0, []) := if_neg hlength
    rw [hvalue] at hok
    cases hok
    exact ⟨a, if_neg hlength, rfl, h, .refl _⟩

/-! ## Consuming -/

/-- The iterators of a reader get to the nodes from the read node to the write node,
and then `moveToTail` resets the nodes before the new read node. -/
def ConsumptionSpared (a : CowArray) : Prop := ∀ j ≤ a.writeNode, a.link.Spared j

instance (a : CowArray) : Decidable a.ConsumptionSpared :=
  inferInstanceAs (Decidable (∀ j ≤ _, _))

theorem ConsumptionSpared.all (h : a.ConsumptionSpared) (hlayout : a.value.Layout R W) (j : Nat) :
    a.link.Spared j := by
  rcases Nat.lt_or_ge a.writeNode j with hj | hj
  · exact spared_of_layout hlayout hj
  · exact h j hj

/-- The node that becomes the read node is changed, and the head is moved. -/
theorem aim_becomes (h : a.link.Proper) (hspared : ∀ j, a.link.Spared j) {r : Nat}
    (hr : r < a.link.size) (toRead : Nat) (node : BufferNode) :
    ∃ link a', (a.link.cowThisNode r).write r (fun _ => node) = .ok link ∧
      ({ a with
        readNode := r
        availableSizeToRead := toRead
        link := link } : CowArray).unlockedMoveBufferHead = .ok a' ∧
      Becomes a
        ({ a.value with
          readNode := r
          availableSizeToRead := toRead
          nodes := a.value.nodes.set r node } : ByteArray).unlockedMoveBufferHead a' := by
  have hvisit := h.visited (hspared r)
  obtain ⟨link, hwrite, hwritten⟩ :=
    hvisit.proper.written hvisit.own (by rwa [hvisit.size]) node
  obtain ⟨aimed, haimed⟩ : ∃ aimed : CowArray, aimed = { a with
    readNode := r
    availableSizeToRead := toRead
    link := link } := ⟨_, rfl⟩
  have hvalue : aimed.value = { a.value with
      readNode := r
      availableSizeToRead := toRead
      nodes := a.value.nodes.set r node } := by
    rw [haimed]
    change (⟨_, _, _, _, link.values⟩ : ByteArray) = _
    rw [hwritten.values, hvisit.values]
    rfl
  have hlink : aimed.link = link := by rw [haimed]
  have hread : aimed.readNode = r := by rw [haimed]
  have hsize : link.size = a.link.size := by
    rw [← values_length, hwritten.values, List.length_set, values_length, hvisit.size]
  obtain ⟨a', hmove, hmoved, -⟩ := unlockedMoveBufferHead_becomes (a := aimed)
    (by rw [hlink]; exact hwritten.proper) (by rw [hlink, hread, hsize]; exact hr.le)
    fun j _ => by
      rw [hlink]
      exact hwritten.spares j (hvisit.spares j (hspared j))
  rw [hvalue] at hmoved
  refine ⟨link, a', hwrite, haimed ▸ hmove, hmoved.value, hmoved.proper,
    Frame.trans ?_ hmoved.frame⟩
  rw [hlink]
  exact hvisit.frame.trans hwritten.frame

theorem readerAdjust_becomes (h : a.link.Proper) (hspared : ∀ j, a.link.Spared j) {size : Nat}
    (hok : ByteArrayReaderWithLock.adjustByteArray a.value size = .ok b) :
    ∃ a', a.readerAdjust size = .ok a' ∧ Becomes a b a' := by
  have hvalues : ∀ r, (a.link.cowThisNode r).values = a.value.nodes := fun r =>
    (h.visited (hspared r)).values
  have hlt : ∀ {r node}, nodeAt a.value.nodes r = .ok node → r < a.link.size := fun hnode => by
    rw [← value_nodes_length]
    exact lt_of_nodeAt hnode
  unfold ByteArrayReaderWithLock.adjustByteArray at hok
  by_cases hall : a.availableSizeToRead ≤ size
  · have hvalue : a.value.availableSizeToRead ≤ size := hall
    rw [if_pos hvalue] at hok
    obtain ⟨node, hnode, hok⟩ := Except.exists_of_bind_eq_ok hok
    cases hok
    change nodeAt a.value.nodes a.writeNode = _ at hnode
    obtain ⟨link, a', hwrite, hmove, haim⟩ :=
      aim_becomes h hspared (hlt hnode) 0 { node with start := node.stop }
    refine ⟨a', ?_, haim⟩
    rw [readerAdjust, if_pos hall]
    simp only [hvalues, hnode, hwrite, bind, Except.bind]
    exact hmove
  · have hvalue : ¬a.value.availableSizeToRead ≤ size := hall
    rw [if_neg hvalue] at hok
    obtain ⟨node, hnode, hok⟩ := Except.exists_of_bind_eq_ok hok
    cases hok
    change nodeAt a.value.nodes (Word64.add a.readNode _) = _ at hnode
    obtain ⟨link, a', hwrite, hmove, haim⟩ := aim_becomes h hspared (hlt hnode)
      (Word64.sub a.availableSizeToRead size)
      { node with start := Word64.add node.start (size % bufferNodeSize) }
    refine ⟨a', ?_, haim⟩
    rw [readerAdjust, if_neg hall]
    simp only [hvalues, hnode, hwrite, bind, Except.bind]
    exact hmove

theorem consume_becomes (h : a.link.Proper) (hlayout : a.value.Layout R W)
    (hspared : a.ConsumptionSpared) {size : Nat}
    (hok : ByteArrayReaderWithLock.adjustByteArray a.value size = .ok b) :
    ∃ a', a.consume size = .ok a' ∧ Becomes a b a' := by
  have hall := hspared.all hlayout
  obtain ⟨stop, hend, -, hstopLe, -⟩ := hlayout.endOfReadNode
  have hwrite : a.writeNode < a.link.size := by
    rw [← value_nodes_length]
    exact hlayout.writeNode_lt
  obtain ⟨hiterated, -⟩ :=
    h.cowNodes a.readNode (stop - a.readNode + 1) fun j _ _ => hall j
  obtain ⟨c, hc⟩ : ∃ c : CowArray, c = { a with
    link := a.link.cowNodes a.readNode (stop - a.readNode + 1) } := ⟨_, rfl⟩
  have hvalue : c.value = a.value := by
    rw [hc]
    change (⟨_, _, _, _, (a.link.cowNodes a.readNode (stop - a.readNode + 1)).values⟩ :
      ByteArray) = _
    rw [hiterated.values]
    rfl
  have hreader : a.reader = .ok c := by
    change stop ≤ a.writeNode + 1 at hstopLe
    rw [reader, hend]
    simp only [bind, Except.bind]
    rw [if_neg (by omega), hc]
  rw [← hvalue] at hok
  obtain ⟨a', hok', hbecomes⟩ := readerAdjust_becomes (a := c)
    (by rw [hc]; exact hiterated.proper)
    (fun j => by rw [hc]; exact hiterated.spares j (hall j)) hok
  refine ⟨a', by rw [consume, hreader]; exact hok', hbecomes.value, hbecomes.proper,
    Frame.trans ?_ hbecomes.frame⟩
  rw [hc]
  exact hiterated.frame

/-! ## Receiving -/

theorem mem_iovecLoop {i : Nat} {nodes : List BufferNode} {v : IOVec}
    (h : v ∈ ByteArrayWriterWithLock.iovecLoop i nodes) :
    i ≤ v.node ∧ v.node < i + nodes.length := by
  induction nodes generalizing i with
  | nil => cases h
  | cons node rest ih =>
      rw [List.length_cons]
      rcases List.mem_cons.mp h with hhead | hrest
      · rw [hhead]
        exact ⟨le_refl i, Nat.lt_add_of_pos_right (Nat.succ_pos _)⟩
      · have hbounds := ih hrest
        omega

/-- A writer gets to all nodes from the write node on. -/
theorem writer_becomes (h : a.link.Proper) (hlayout : a.value.Layout R W)
    (hspared : a.link.Spared a.writeNode) :
    ∃ c, a.writer = .ok (c, ByteArrayWriterWithLock.iovecLoop a.writeNode
        (a.value.nodes.drop a.writeNode)) ∧
      Becomes a a.value c ∧ ∀ j, a.writeNode ≤ j → c.link.Own j := by
  have hwrite : a.writeNode < a.link.size := by
    rw [← value_nodes_length]
    exact hlayout.writeNode_lt
  have hafter : ∀ j, a.writeNode ≤ j → a.link.Spared j := by
    intro j hj
    rcases Nat.lt_or_eq_of_le hj with hlt | heq
    · exact spared_of_layout hlayout hlt
    · rwa [← heq]
  have hvecLen : ByteArrayWriterWithLock.vecLen a.value = a.link.size - a.writeNode := by
    rw [hlayout.vecLen, value_nodes_length]
    rfl
  obtain ⟨hiterated, hown⟩ :=
    h.cowNodes a.writeNode (a.link.size - a.writeNode + 1) fun j hj _ => hafter j hj
  obtain ⟨link, hlink⟩ : ∃ link, link =
    a.link.cowNodes a.writeNode (a.link.size - a.writeNode + 1) := ⟨_, rfl⟩
  rw [← hlink] at hiterated hown
  have hnodes : link.values.drop a.writeNode = a.value.nodes.drop a.writeNode := by
    rw [hiterated.values]
    rfl
  refine ⟨{ a with link := link }, ?_, ⟨?_, hiterated.proper, hiterated.frame⟩, ?_⟩
  · rw [writer, if_neg (by omega)]
    simp only [← hlink]
    rw [hnodes, List.length_drop, value_nodes_length, hvecLen, if_neg (by simp)]
  · change (⟨_, _, _, _, link.values⟩ : ByteArray) = _
    rw [hiterated.values]
    rfl
  · intro j hj
    rcases Nat.lt_or_ge j (a.writeNode + (a.link.size - a.writeNode + 1)) with hlt | hge
    · exact hown j hj hlt
    · intro ptr hptr
      have hsize : link.size = a.link.size := hiterated.size
      have hlt := (List.getElem?_eq_some_iff.mp hptr).1
      change j < link.size at hlt
      omega

theorem writerAdjust_becomes (h : a.link.Proper) (hown : ∀ j, a.writeNode ≤ j → a.link.Own j)
    (hwrite : a.writeNode < a.link.size) {size : Nat} (hroom : size < a.availableSizeToWrite) :
    ∃ a', a.writerAdjust size = .ok a' ∧
      Becomes a (ByteArrayWriterWithLock.advance a.value size) a' := by
  have hfits : ¬a.availableSizeToWrite ≤ size := Nat.not_le.mpr hroom
  have hvisit := h.visited (hown a.writeNode (le_refl _)).spared
  have hsize := hvisit.size
  obtain ⟨l', hloop, hlooped⟩ := @adjustLoop_looped _ a.writeNode hvisit.proper a.link.size
    (a.link.size - a.writeNode) a.writeNode size hvisit.own
    (fun j hj => (hvisit.keeps j (hown j hj.le)).spared) (by omega)
  rw [hvisit.drop] at hloop hlooped
  have hvalues := hlooped.values_of_visited hvisit hwrite
  refine ⟨{ a with
    link := l'
    writeNode := (ByteArrayWriterWithLock.adjustLoop a.link.size
      (a.link.values.drop a.writeNode) a.writeNode size).2
    availableSizeToWrite := Word64.sub a.availableSizeToWrite size
    availableSizeToRead := Word64.add a.availableSizeToRead size }, ?_, ?_⟩
  · rw [writerAdjust, if_neg hfits]
    simp only [hloop, bind, Except.bind]
  · refine ⟨?_, hlooped.proper, hvisit.frame.trans hlooped.frame⟩
    change (⟨_, _, _, _, l'.values⟩ : ByteArray) = _
    rw [hvalues, ByteArrayWriterWithLock.advance, value_nodes_length]
    rfl

/-- A reception gets to the nodes that a write gets to. -/
theorem receive_becomes (h : a.link.Proper) (hlayout : a.value.Layout R W) {data : List UInt8}
    (hspared : a.link.Spared a.writeNode) (hroom : data.length < a.availableSizeToWrite)
    (hok : ByteArrayWriterWithLock.receive a.value data = .ok b) :
    ∃ a', a.receive data = .ok a' ∧ Becomes a b a' := by
  have hwrite : a.writeNode < a.link.size := by
    rw [← value_nodes_length]
    exact hlayout.writeNode_lt
  obtain ⟨c, hwriter, hbecomes, hown⟩ := writer_becomes h hlayout hspared
  rw [ByteArrayWriterWithLock.receive, hlayout.iovec.1] at hok
  obtain ⟨_, hvec, hok⟩ := Except.exists_of_bind_eq_ok hok
  cases hvec
  obtain ⟨nodes, hscatter, hok⟩ := Except.exists_of_bind_eq_ok hok
  have hnone : ¬a.value.availableSizeToWrite ≤ data.length := Nat.not_le.mpr hroom
  rw [ByteArrayWriterWithLock.adjustByteArray, if_neg hnone] at hok
  cases hok
  have hvalues : c.link.values = a.value.nodes := congrArg ByteArray.nodes hbecomes.value
  rw [← hvalues] at hscatter
  obtain ⟨l', hscatter', hproper, hframe, hvalues', hkeeps⟩ := scatter_spec hbecomes.proper
    (fun v hv => hown v.node (mem_iovecLoop hv).1) hscatter
  rw [hvalues] at hscatter'
  change scatter c.link (ByteArrayWriterWithLock.iovecLoop a.writeNode
    (a.value.nodes.drop a.writeNode)) data = _ at hscatter'
  obtain ⟨placed, hplaced⟩ : ∃ placed : CowArray, placed = { c with link := l' } := ⟨_, rfl⟩
  have hlink : placed.link = l' := by rw [hplaced]
  have hvalue : placed.value = { a.value with nodes := nodes } := by
    rw [hplaced, ← hvalues', ← hbecomes.value]
    rfl
  have hplacedWrite : placed.writeNode = a.writeNode := congrArg ByteArray.writeNode hvalue
  have hplacedRoom : placed.availableSizeToWrite = a.availableSizeToWrite :=
    congrArg ByteArray.availableSizeToWrite hvalue
  have hsize : placed.link.size = a.link.size := by
    have hlength := congrArg List.length (scatter_ok_offsets hscatter)
    rw [List.length_map, List.length_map, hvalues, value_nodes_length] at hlength
    rw [hlink, ← values_length, hvalues', hlength]
  obtain ⟨a', hadjust, hbecomes'⟩ := writerAdjust_becomes (a := placed) (by rwa [hlink])
    (fun j hj => by
      rw [hlink]
      rw [hplacedWrite] at hj
      exact hkeeps j (hown j hj))
    (by rwa [hplacedWrite, hsize]) (by rwa [hplacedRoom])
  rw [hvalue] at hbecomes'
  refine ⟨a', ?_, hbecomes'.value, hbecomes'.proper, Frame.trans ?_ hbecomes'.frame⟩
  · rw [receive, hwriter]
    simp only [hscatter', bind, Except.bind]
    rw [← hplaced, hadjust]
  · rw [hlink]
    exact hbecomes.frame.trans hframe

end CowArray

end Netpp
