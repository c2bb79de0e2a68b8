import Netpp.Buffer.ByteArray
import Netpp.Buffer.CowLink

/-!
# Spared nodes

The links of the byte arrays are links of buffer nodes. A buffer node need not be equal to
its copy, which has no offsets. It is spared if no other link has it or if it has no offsets
itself. An iterator that gets to spared nodes changes no value, and the other links see
nothing of that, of a write to a node that they do not have and of a reset of spared nodes.
-/

namespace Netpp

namespace CowLink

variable {l l' : CowLink BufferNode} {index : Nat}

/-- No other link has the node. -/
def Own (l : CowLink BufferNode) (index : Nat) : Prop :=
  ∀ ptr, l.nodes[index]? = some ptr → ptr ∉ l.others

/-- No other link has the node, or its copy is the same. -/
def Spared (l : CowLink BufferNode) (index : Nat) : Prop :=
  ∀ ptr, l.nodes[index]? = some ptr → ptr ∉ l.others ∨ (l.heap ptr).offsets = (0, 0)

instance (l : CowLink BufferNode) (index : Nat) : Decidable (l.Spared index) :=
  match h : l.nodes[index]? with
  | none => isTrue fun ptr hptr => by simp [h] at hptr
  | some ptr => decidable_of_iff (ptr ∉ l.others ∨ (l.heap ptr).offsets = (0, 0))
      (by simp [Spared, h])

/-- Nothing changes for the other links. -/
structure Frame (l l' : CowLink BufferNode) : Prop where
  others : l'.others = l.others
  heap : ∀ ptr ∈ l.others, l'.heap ptr = l.heap ptr

theorem Own.spared (h : l.Own index) : l.Spared index := fun ptr hptr => .inl (h ptr hptr)

theorem copy_of_blank {n : BufferNode} (h : n.offsets = (0, 0)) : n.copy = n := by
  obtain ⟨start, stop, buffer, hbuffer⟩ := n
  cases h
  rfl

theorem reset_of_blank {n : BufferNode} (h : n.offsets = (0, 0)) : n.reset = n := copy_of_blank h

theorem Frame.refl (l : CowLink BufferNode) : Frame l l := ⟨rfl, fun _ _ => rfl⟩

theorem Frame.trans {l'' : CowLink BufferNode} (h : Frame l l') (h' : Frame l' l'') :
    Frame l l'' := by
  refine ⟨h'.others.trans h.others, fun ptr hptr => ?_⟩
  rw [h'.heap ptr (by rwa [h.others]), h.heap ptr hptr]

/-- What all nodes hold is kept. -/
theorem Proper.frame (h : l.Proper) (hevolves : l.Evolves l')
    (hkept : ∀ ptr < l.next, l'.heap ptr = l.heap ptr) : Frame l l' :=
  ⟨hevolves.others, fun ptr hptr => hkept ptr (h.bound ptr (List.mem_append_right _ hptr))⟩

/-- The node has been at a spared place and is as it was, or no other link has it. -/
theorem Spared.congr {j : Nat} (h : l.Spared index) (hothers : l'.others = l.others)
    (hnodes : ∀ ptr, l'.nodes[j]? = some ptr → l.nodes[index]? = some ptr ∨ ptr ∉ l.others)
    (hheap : ∀ ptr, l.nodes[index]? = some ptr → l'.heap ptr = l.heap ptr) : l'.Spared j := by
  intro ptr hptr
  rw [hothers]
  rcases hnodes ptr hptr with hold | hnew
  · rw [hheap ptr hold]
    exact h ptr hold
  · exact .inl hnew

/-! ## Iterating -/

/-- What an iteration over nodes that are spared leaves as it was. -/
structure Iterated (l l' : CowLink BufferNode) : Prop where
  proper : l'.Proper
  frame : Frame l l'
  values : l'.values = l.values
  keeps : ∀ j, l.Own j → l'.Own j
  spares : ∀ j, l.Spared j → l'.Spared j

/-- The iterator is on a node that no other link has. -/
structure Visited (l : CowLink BufferNode) (index : Nat) (l' : CowLink BufferNode) : Prop
    extends Iterated l l' where
  own : l'.Own index

theorem Proper.iterated_self (h : l.Proper) : Iterated l l :=
  ⟨h, .refl l, rfl, fun _ h => h, fun _ h => h⟩

theorem Iterated.trans {l'' : CowLink BufferNode} (h : Iterated l l') (h' : Iterated l' l'') :
    Iterated l l'' where
  proper := h'.proper
  frame := h.frame.trans h'.frame
  values := h'.values.trans h.values
  keeps j hj := h'.keeps j (h.keeps j hj)
  spares j hj := h'.spares j (h.spares j hj)

theorem Iterated.size (h : Iterated l l') : l'.size = l.size := by
  rw [← values_length, h.values, values_length]

theorem Proper.visited (h : l.Proper) (hspared : l.Spared index) :
    Visited l index (l.cowThisNode index) := by
  obtain ⟨hevolves, hvalues, hkept⟩ := h.cowThisNode index fun ptr hptr hmem =>
    copy_of_blank ((hspared ptr hptr).resolve_left (not_not.mpr hmem))
  have hnodes : ∀ j ptr, (l.cowThisNode index).nodes[j]? = some ptr →
      l.nodes[j]? = some ptr ∨ ptr ∉ l.others := fun j ptr hptr =>
    (h.cowThisNode_own hptr).imp_left And.right
  refine ⟨⟨hevolves.proper, h.frame hevolves hkept, hvalues, fun j hown ptr hptr => ?_,
    fun j hj => ?_⟩, fun ptr hptr => ?_⟩
  · rw [hevolves.others]
    exact (hnodes j ptr hptr).elim (hown ptr) id
  · exact hj.congr hevolves.others (hnodes j) fun ptr hptr => hkept ptr (h.lt_next hptr)
  · rw [hevolves.others]
    exact (h.cowThisNode_own hptr).resolve_left fun hold => hold.1 rfl

/-- The iterator goes over nodes that are spared. -/
theorem Proper.cowNodes (h : l.Proper) (index count : Nat)
    (hspared : ∀ j, index ≤ j → j < index + count → l.Spared j) :
    Iterated l (l.cowNodes index count) ∧
      ∀ j, index ≤ j → j < index + count → (l.cowNodes index count).Own j := by
  induction count generalizing l index with
  | zero =>
      refine ⟨h.iterated_self, fun j hle hlt => ?_⟩
      omega
  | succ count ih =>
      have hvisit := h.visited (hspared index (Nat.le_refl _) (by omega))
      obtain ⟨hrest, hown⟩ := ih hvisit.proper (index + 1) fun j hle hlt =>
        hvisit.spares j (hspared j (by omega) (by omega))
      refine ⟨hvisit.toIterated.trans hrest, fun j hle hlt => ?_⟩
      rcases Nat.eq_or_lt_of_le hle with rfl | hlater
      · exact hrest.keeps _ hvisit.own
      · exact hown j hlater (by omega)

/-! ## Writing, moving and adding nodes -/

/-- A node that no other link has is another one now. -/
structure Written (l : CowLink BufferNode) (index : Nat) (node : BufferNode)
    (l' : CowLink BufferNode) : Prop where
  proper : l'.Proper
  frame : Frame l l'
  values : l'.values = l.values.set index node
  keeps : ∀ j, l.Own j → l'.Own j
  spares : ∀ j, l.Spared j → l'.Spared j

theorem Proper.written (h : l.Proper) (hown : l.Own index) (hindex : index < l.size)
    (node : BufferNode) :
    ∃ l', l.write index (fun _ => node) = .ok l' ∧ Written l index node l' := by
  obtain ⟨l', hok⟩ := exists_write hindex fun _ => node
  obtain ⟨ptr, hptr, hevolves, hvalues, hheap⟩ := h.write hok
  have hnodes : l'.nodes = l.nodes := nodes_of_write hok
  have hkept : ∀ ptr' ≠ ptr, l'.heap ptr' = l.heap ptr' := fun ptr' hne => by
    rw [hheap, Function.update_of_ne hne]
  refine ⟨l', hok, hevolves.proper, ⟨hevolves.others, fun ptr' hmem => hkept ptr' ?_⟩, ?_,
    fun j hj ptr' hptr' => ?_, fun j hj ptr' hptr' => ?_⟩
  · rintro rfl
    exact hown ptr' hptr hmem
  · rw [hvalues, List.set_eq_modify]
  · rw [hnodes] at hptr'
    rw [hevolves.others]
    exact hj ptr' hptr'
  · rw [hnodes] at hptr'
    rw [hevolves.others]
    by_cases heq : ptr' = ptr
    · exact .inl (heq ▸ hown ptr hptr)
    · rw [hkept ptr' heq]
      exact hj ptr' hptr'

/-- Spared nodes are moved to the tail, where they are reset. -/
theorem Proper.moveToTail_reset (h : l.Proper) {stop : Nat} (hstop : stop ≤ l.size)
    (hspared : ∀ j < stop, l.Spared j) :
    ∃ l', l.moveToTail stop (fun _ => BufferNode.reset) = .ok l' ∧ l'.Proper ∧ Frame l l' ∧
      l'.values = Netpp.moveToTail l.values stop BufferNode.reset ∧
        ∀ j, stop + j < l.size → l.Spared (stop + j) → l'.Spared j := by
  obtain ⟨l', hl'⟩ : ∃ l' : CowLink BufferNode, l' = { l with
    heap := callEach (fun _ => BufferNode.reset) [] l.heap (l.nodes.take stop)
    nodes := l.nodes.drop stop ++ l.nodes.take stop } := ⟨_, rfl⟩
  have hok : l.moveToTail stop (fun _ => BufferNode.reset) = .ok l' := by
    rw [CowLink.moveToTail, if_pos hstop, hl']
  obtain ⟨-, hevolves, hvalues, hheap⟩ := h.moveToTail hok
  have htake : (l.nodes.take stop).Nodup := h.nodup.sublist (List.take_sublist ..)
  have hkept : ∀ ptr, ptr ∉ l.nodes.take stop → l'.heap ptr = l.heap ptr := fun ptr hptr => by
    rw [hheap, callEach_of_notMem hptr]
  refine ⟨l', hok, hevolves.proper, ⟨hevolves.others, fun ptr hmem => ?_⟩, ?_,
    fun j hj hspared' => ?_⟩
  · by_cases hmoved : ptr ∈ l.nodes.take stop
    · obtain ⟨j, hj, hget⟩ := List.mem_take_iff_getElem.mp hmoved
      have hptr : l.nodes[j]? = some ptr := by rw [List.getElem?_eq_getElem (by omega), hget]
      have hblank := (hspared j (by omega) ptr hptr).resolve_left (not_not.mpr hmem)
      have htaken : (l.nodes.take stop)[j]? = some ptr := by
        rw [List.getElem?_take_of_lt (by omega), hptr]
      rw [hheap, callEach_getElem? htake htaken, reset_of_blank hblank]
    · exact hkept ptr hmoved
  · rw [hvalues, callOn_const]
    rfl
  · have hget : l'.nodes[j]? = l.nodes[stop + j]? := by
      rw [hl', List.getElem?_append_left, List.getElem?_drop]
      rw [List.length_drop]
      unfold size at hj
      omega
    refine hspared'.congr hevolves.others (fun ptr hptr => .inl (hget ▸ hptr)) fun ptr hptr => ?_
    refine hkept ptr fun hmoved => ?_
    obtain ⟨i, hi, hget'⟩ := List.mem_take_iff_getElem.mp hmoved
    have hptr' : l.nodes[i]? = some ptr := by rw [List.getElem?_eq_getElem (by omega), hget']
    have heq := (List.getElem?_inj (by omega) h.nodup).mp (hptr'.trans hptr.symm)
    omega

/-- New nodes are not shared. -/
theorem Proper.allocMore_new (h : l.Proper) (length : Nat) :
    (l.allocMore length).Proper ∧ Frame l (l.allocMore length) ∧
      (l.allocMore length).values = Netpp.allocMore l.values length ∧
        ∀ j, l.Spared j → (l.allocMore length).Spared j := by
  obtain ⟨hevolves, hvalues, hkept⟩ := h.allocMore length
  refine ⟨hevolves.proper, h.frame hevolves hkept, ?_, fun j hj => ?_⟩
  · rw [hvalues, Netpp.allocMore, values_length]
    rfl
  · exact hj.congr hevolves.others (fun ptr hptr => h.allocMore_own hptr) fun ptr hptr =>
      hkept ptr (h.lt_next hptr)

end CowLink

end Netpp
