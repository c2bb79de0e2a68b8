import Netpp.Copy.CowArray
import Netpp.Copy.SparedNodes
import Netpp.Library.Except

/-!
# Loops over spared nodes

A round of a loop changes the node of the iterator and goes on to the next node. If
the iterator only gets to nodes that are spared, the loop does to the values what the
loop of `ByteArray` does, and the other links see none of it. Each loop is compared
with its counterpart on the values from the iterator on, by induction on the nodes
that are left.
-/

namespace Netpp

namespace CowLink

variable {l l' : CowLink BufferNode} {index : Nat} {node : BufferNode}

/-- One round of a loop. -/
structure Round (l : CowLink BufferNode) (index : Nat) (node : BufferNode)
    (l' : CowLink BufferNode) : Prop where
  proper : l'.Proper
  frame : Frame l l'
  values : l'.values = l.values.set index node
  own : l'.Own (index + 1)
  spares : ∀ j, l.Spared j → l'.Spared j

theorem Proper.round (h : l.Proper) (hown : l.Own index) (hindex : index < l.size)
    (node : BufferNode) (hnext : l.Spared (index + 1)) :
    ∃ l', l.write index (fun _ => node) = .ok l' ∧
      Round l index node (l'.cowThisNode (index + 1)) := by
  obtain ⟨l', hok, hwritten⟩ := h.written hown hindex node
  have hvisit := hwritten.proper.visited (hwritten.spares _ hnext)
  exact ⟨l', hok, hvisit.proper, hwritten.frame.trans hvisit.frame,
    hvisit.values.trans hwritten.values, hvisit.own,
    fun j hj => hvisit.spares j (hwritten.spares j hj)⟩

/-- The nodes before the iterator after a round. -/
theorem Round.take (h : Round l index node l') (hindex : index < l.size) :
    l'.values.take (index + 1) = l.values.take index ++ [node] := by
  have hlt : index < (l.values.set index node).length := by
    rw [List.length_set, values_length]
    exact hindex
  rw [h.values, List.take_add_one, List.getElem?_eq_getElem hlt, List.getElem_set_self hlt,
    List.take_set_of_le (le_refl index)]
  rfl

/-- The nodes after the iterator are as they were. -/
theorem Round.drop (h : Round l index node l') (count : Nat) :
    l'.values.drop (index + 1 + count) = l.values.drop (index + 1 + count) := by
  rw [h.values, List.drop_set_of_lt (by omega)]

theorem Round.size (h : Round l index node l') : l'.size = l.size := by
  rw [← values_length, h.values, List.length_set, values_length]

/-- The nodes from the iterator on. -/
theorem Visited.drop (h : Visited l index l') :
    (l'.values.drop index).take (l.size - index) = l.values.drop index := by
  rw [h.values]
  apply List.take_of_length_le
  rw [List.length_drop, values_length]

end CowLink

namespace CowArray

open CowLink

variable {l l' l'' : CowLink BufferNode} {index : Nat}

/-- A loop has done to the values what its counterpart did to those from the iterator
on, up to `stop`. -/
structure Looped (l : CowLink BufferNode) (index stop : Nat) (nodes : List BufferNode)
    (l' : CowLink BufferNode) : Prop where
  proper : l'.Proper
  frame : Frame l l'
  values : l'.values = l.values.take index ++ nodes ++ l.values.drop stop

theorem Looped.refl (h : l.Proper) {stop : Nat} (hle : index ≤ stop) :
    Looped l index stop ((l.values.drop index).take (stop - index)) l := by
  refine ⟨h, .refl l, ?_⟩
  have hdrop : l.values.drop stop = (l.values.drop index).drop (stop - index) := by
    rw [List.drop_drop, Nat.add_sub_cancel' hle]
  rw [hdrop, List.append_assoc, List.take_append_drop, List.take_append_drop]

/-- A round, and then the rest of the loop. -/
theorem Looped.cons {node : BufferNode} {count : Nat} {nodes : List BufferNode}
    (hindex : index < l.size) (hround : Round l index node l')
    (h : Looped l' (index + 1) (index + 1 + count) nodes l'') :
    Looped l index (index + (count + 1)) (node :: nodes) l'' := by
  refine ⟨h.proper, hround.frame.trans h.frame, ?_⟩
  have hstop : index + (count + 1) = index + 1 + count := by omega
  rw [h.values, hround.take hindex, hround.drop, hstop]
  simp

/-- A loop to the last node, from a node the iterator has gone to. -/
theorem Looped.values_of_visited {nodes : List BufferNode}
    (h : Looped l' index (index + (l.size - index)) nodes l'') (hvisit : Visited l index l')
    (hindex : index < l.size) : l''.values = l.values.take index ++ nodes := by
  rw [h.values, hvisit.values, Nat.add_sub_cancel' hindex.le,
    List.drop_of_length_le (values_length l).le, List.append_nil]

/-- The node of the iterator is the first one of those that are left. -/
theorem nodeAt_of_size (hindex : index < l.size) :
    ∃ node, nodeAt l.values index = .ok node ∧
      l.values.drop index = node :: l.values.drop (index + 1) := by
  have hlt : index < l.values.length := by
    rw [values_length]
    exact hindex
  exact ⟨l.values[index], nodeAt_of_lt hlt, List.drop_eq_getElem_cons hlt⟩

/-! ## Writing -/

theorem writeLoop_looped (h : l.Proper) {size count writeNode writeNode' : Nat}
    {data left : List UInt8} {nodes : List BufferNode} (hown : l.Own index)
    (hspared : ∀ j, index < j → l.Spared j) (hfit : index + count ≤ l.size)
    (hok : ByteArray.writeLoop size ((l.values.drop index).take count) writeNode data =
      .ok (nodes, writeNode', left)) :
    ∃ l', writeLoop size count index l writeNode data = .ok (l', writeNode', left) ∧
      Looped l index (index + count) nodes l' := by
  induction count generalizing l index writeNode data nodes with
  | zero =>
      rw [List.take_zero] at hok
      cases hok
      exact ⟨l, rfl, by simpa using Looped.refl h (Nat.le_refl index)⟩
  | succ count ih =>
      have hindex : index < l.size := by omega
      obtain ⟨node, hnode, hdrop⟩ := nodeAt_of_size hindex
      by_cases hdata : data.length = 0
      · rw [hdrop, List.take_succ_cons, ByteArray.writeLoop, if_pos hdata, ← List.take_succ_cons,
          ← hdrop] at hok
        cases hok
        refine ⟨l, by rw [writeLoop, if_pos hdata], ?_⟩
        have hlooped := Looped.refl h (Nat.le_add_right index (count + 1))
        rwa [Nat.add_sub_cancel_left] at hlooped
      · rw [hdrop, List.take_succ_cons, ByteArray.writeLoop, if_neg hdata] at hok
        obtain ⟨stored, hstored, hok⟩ := Except.exists_of_bind_eq_ok hok
        obtain ⟨⟨rest, last, left'⟩, hrest, hok⟩ := Except.exists_of_bind_eq_ok hok
        cases hok
        obtain ⟨node', hnode'⟩ : ∃ node' : BufferNode, node' = { stored with
            stop := Word64.add node.stop
              (if Word64.sub bufferNodeSize node.stop < data.length
                then Word64.sub bufferNodeSize node.stop else data.length) } := ⟨_, rfl⟩
        obtain ⟨written, hwrite, hround⟩ :=
          h.round hown hindex node' (hspared _ (Nat.lt_succ_self index))
        rw [← hround.drop 0] at hrest
        obtain ⟨l', hloop, hlooped⟩ := ih hround.proper hround.own
          (fun j hj => hround.spares j (hspared j (by omega)))
          (by rw [hround.size]; omega) hrest
        subst hnode'
        refine ⟨l', ?_, hlooped.cons hindex hround⟩
        rw [writeLoop, if_neg hdata]
        simp only [hnode, hstored, hwrite, bind, Except.bind]
        exact hloop

/-! ## Reading -/

/-- The rounds of the loop of `retrieveRaw`: the nodes it takes bytes from. -/
def retrieveRounds : List BufferNode → Nat → Nat
  | [], _ => 0
  | node :: rest, length =>
      if length = 0 then 0
      else
        let filled := Word64.sub node.stop node.start
        retrieveRounds rest (length - if filled < length then filled else length) + 1

theorem retrieveLoop_looped (h : l.Proper) {size count readNode writeNode length : Nat}
    {r : ByteArray.Retrieved} (hown : l.Own index)
    (hspared : ∀ j < retrieveRounds (l.values.drop index) length, l.Spared (index + (j + 1)))
    (hfit : index + count ≤ l.size)
    (hok : ByteArray.retrieveLoop size ((l.values.drop index).take count) readNode writeNode
      length = .ok r) :
    ∃ l', retrieveLoop size count index l readNode writeNode length =
        .ok ⟨l', r.readNode, r.writeNode, r.left, r.copied⟩ ∧
      Looped l index (index + count) r.nodes l' := by
  induction count generalizing l index readNode writeNode length r with
  | zero =>
      rw [List.take_zero] at hok
      cases hok
      exact ⟨l, rfl, by simpa using Looped.refl h (Nat.le_refl index)⟩
  | succ count ih =>
      have hindex : index < l.size := by omega
      obtain ⟨node, hnode, hdrop⟩ := nodeAt_of_size hindex
      by_cases hlength : length = 0
      · rw [hdrop, List.take_succ_cons, ByteArray.retrieveLoop, if_pos hlength,
          ← List.take_succ_cons, ← hdrop] at hok
        cases hok
        refine ⟨l, by rw [retrieveLoop, if_pos hlength], ?_⟩
        have hlooped := Looped.refl h (Nat.le_add_right index (count + 1))
        rwa [Nat.add_sub_cancel_left] at hlooped
      · rw [hdrop, List.take_succ_cons, ByteArray.retrieveLoop, if_neg hlength] at hok
        obtain ⟨copied, hcopied, hok⟩ := Except.exists_of_bind_eq_ok hok
        obtain ⟨r', hrest, hok⟩ := Except.exists_of_bind_eq_ok hok
        cases hok
        rw [hdrop, retrieveRounds, if_neg hlength] at hspared
        obtain ⟨bytesToCopy, hbytes⟩ : ∃ n, n = if Word64.sub node.stop node.start < length
          then Word64.sub node.stop node.start else length := ⟨_, rfl⟩
        rw [← hbytes] at hcopied hrest ⊢
        simp only [← hbytes] at hspared
        obtain ⟨node', hnode'⟩ : ∃ node' : BufferNode, node' =
          { node with start := Word64.add node.start bytesToCopy } := ⟨_, rfl⟩
        obtain ⟨written, hwrite, hround⟩ := h.round hown hindex node' (hspared 0 (Nat.succ_pos _))
        have hnext : (written.cowThisNode (index + 1)).values.drop (index + 1) =
            l.values.drop (index + 1) := hround.drop 0
        rw [← hnext] at hrest
        obtain ⟨l', hloop, hlooped⟩ := ih hround.proper hround.own
          (fun j hj => by
            rw [hnext] at hj
            have hj' := hround.spares _ (hspared (j + 1) (Nat.succ_lt_succ hj))
            rwa [Nat.add_right_comm index 1 (j + 1)])
          (by rw [hround.size]; omega) hrest
        subst hnode'
        refine ⟨l', ?_, hlooped.cons hindex hround⟩
        rw [retrieveLoop, if_neg hlength]
        simp only [hnode, ← hbytes, hcopied, hwrite, bind, Except.bind]
        rw [hloop]

/-! ## Receiving -/

/-- What is scattered goes to nodes that are not shared. -/
theorem scatter_spec (h : l.Proper) {vec : List IOVec} {data : List UInt8}
    {nodes : List BufferNode} (hown : ∀ v ∈ vec, l.Own v.node)
    (hok : Netpp.scatter l.values vec data = .ok nodes) :
    ∃ l', scatter l vec data = .ok l' ∧ l'.Proper ∧ Frame l l' ∧ l'.values = nodes ∧
      ∀ j, l.Own j → l'.Own j := by
  induction vec generalizing l data with
  | nil =>
      cases data with
      | nil =>
          cases hok
          exact ⟨l, rfl, h, .refl l, rfl, fun _ h => h⟩
      | cons x xs => cases hok
  | cons v vs ih =>
      obtain ⟨hv, stored, hstored, hrest⟩ := scatter_cons_ok hok
      obtain ⟨l₁, hwrite, hwritten⟩ := h.written (hown v List.mem_cons_self)
        (values_length l ▸ hv) stored
      rw [← hwritten.values] at hrest
      obtain ⟨l', hscatter, hproper, hframe, hvalues, hkeeps⟩ := ih hwritten.proper
        (fun u hu => hwritten.keeps _ (hown u (List.mem_cons_of_mem v hu))) hrest
      refine ⟨l', ?_, hproper, hwritten.frame.trans hframe, hvalues,
        fun j hj => hkeeps j (hwritten.keeps j hj)⟩
      rw [scatter, nodeAt_of_lt hv]
      simp only [hstored, hwrite, bind, Except.bind]
      exact hscatter

theorem adjustLoop_looped (h : l.Proper) {size count writeNode bytes : Nat} (hown : l.Own index)
    (hspared : ∀ j, index < j → l.Spared j) (hfit : index + count ≤ l.size) :
    ∃ l', adjustLoop size count index l writeNode bytes = .ok (l',
        (ByteArrayWriterWithLock.adjustLoop size ((l.values.drop index).take count) writeNode
          bytes).2) ∧
      Looped l index (index + count) (ByteArrayWriterWithLock.adjustLoop size
        ((l.values.drop index).take count) writeNode bytes).1 l' := by
  induction count generalizing l index writeNode bytes with
  | zero =>
      rw [List.take_zero, ByteArrayWriterWithLock.adjustLoop]
      exact ⟨l, rfl, by simpa using Looped.refl h (Nat.le_refl index)⟩
  | succ count ih =>
      have hindex : index < l.size := by omega
      obtain ⟨node, hnode, hdrop⟩ := nodeAt_of_size hindex
      obtain ⟨stop, hstop⟩ : ∃ stop, stop =
        if bufferNodeSize ≤ Word64.add node.stop bytes then bufferNodeSize
        else Word64.add node.stop bytes := ⟨_, rfl⟩
      obtain ⟨written, hwrite, hround⟩ := h.round hown hindex { node with stop := stop }
        (hspared _ (Nat.lt_succ_self index))
      obtain ⟨l', hloop, hlooped⟩ := @ih _ (index + 1) hround.proper
        (if writeNode + 1 < size then writeNode + 1 else writeNode)
        (Word64.sub bytes (Word64.sub bufferNodeSize stop)) hround.own
        (fun j hj => hround.spares j (hspared j (by omega))) (by rw [hround.size]; omega)
      rw [hround.drop 0] at hloop hlooped
      rw [hdrop, List.take_succ_cons, ByteArrayWriterWithLock.adjustLoop, ← hstop]
      refine ⟨l', ?_, hlooped.cons hindex hround⟩
      rw [adjustLoop]
      simp only [hnode, ← hstop, hwrite, bind, Except.bind]
      exact hloop

end CowArray

end Netpp
