import Mathlib.Data.List.Nodup
import Mathlib.Logic.Function.Iterate
import Netpp.Buffer.BufferNode

/-!
# Links that share nodes

A `CowLink` holds shared pointers to its nodes, and a copy of it holds the same pointers.
Its iterator copies a node that is not unique before it is used. The definitions follow
`CowLink.hpp`, for every element that can be default constructed and copy constructed, with
the memory the nodes live in as a part of the link: `heap` has the node at each address, and
`others` are the pointers that other links hold.

`values` are the nodes as a list. As long as the nodes that are copied are equal to their
copies, an operation on a link is an operation on the list of its values. What the others
hold is changed by a write to a node that is shared and by a callback of `moveToTail` on one.
-/

namespace Netpp

open Function (update update_self update_of_ne)

/-- What a node must have: a default constructor and a copy constructor. -/
class CowNodeRequire (α : Type*) where
  new : α
  copy : α → α

/-- The copy constructor: the bytes are copied, the offsets are not. -/
def BufferNode.copy (n : BufferNode) : BufferNode := { n with start := 0, stop := 0 }

instance : CowNodeRequire BufferNode := ⟨BufferNode.new, BufferNode.copy⟩

structure CowLink (α : Type*) where
  heap : Nat → α
  /-- Where the next node will be allocated. -/
  next : Nat
  /-- The pointers that other links hold. -/
  others : List Nat
  /-- `m_nodes`. -/
  nodes : List Nat

namespace CowLink

variable {α : Type*}

def size (l : CowLink α) : Nat := l.nodes.length

def values (l : CowLink α) : List α := l.nodes.map l.heap

/-- `std::shared_ptr::unique`. -/
def unique (l : CowLink α) (ptr : Nat) : Bool := (l.nodes ++ l.others).count ptr == 1

/-- If the node of the iterator is not unique, it is copied. -/
def cowThisNode [CowNodeRequire α] (l : CowLink α) (index : Nat) : CowLink α :=
  match l.nodes[index]? with
  | none => l
  | some ptr =>
      if l.unique ptr then l
      else { l with
        heap := update l.heap l.next (CowNodeRequire.copy (l.heap ptr))
        next := l.next + 1
        nodes := l.nodes.set index l.next }

/-- The iterator goes over the `count` nodes from `index` on. -/
def cowNodes [CowNodeRequire α] (l : CowLink α) : Nat → Nat → CowLink α
  | _, 0 => l
  | index, count + 1 => cowNodes (l.cowThisNode index) (index + 1) count

/-- A change through the reference that an iterator gives. -/
def write (l : CowLink α) (index : Nat) (change : α → α) : Except Fault (CowLink α) :=
  match l.nodes[index]? with
  | none => .error .outOfRange
  | some ptr => .ok { l with heap := update l.heap ptr (change (l.heap ptr)) }

/-- The calls of `moveCallback`, which may remember the elements it has been called on. -/
def callEach (moveCallback : List α → α → α) : List α → (Nat → α) → List Nat → Nat → α
  | _, heap, [] => heap
  | seen, heap, ptr :: ptrs =>
      callEach moveCallback (seen ++ [heap ptr])
        (update heap ptr (moveCallback seen (heap ptr))) ptrs

def moveToTail (l : CowLink α) (stop : Nat) (moveCallback : List α → α → α) :
    Except Fault (CowLink α) :=
  if stop ≤ l.size then
    .ok { l with
      heap := callEach moveCallback [] l.heap (l.nodes.take stop)
      nodes := l.nodes.drop stop ++ l.nodes.take stop }
  else .error .outOfRange

/-- `m_nodes.emplace_back`, with a new node. -/
def emplaceBack [CowNodeRequire α] (l : CowLink α) : CowLink α :=
  { l with
    heap := update l.heap l.next CowNodeRequire.new
    next := l.next + 1
    nodes := l.nodes ++ [l.next] }

def allocMore [CowNodeRequire α] (l : CowLink α) (length : Nat) : CowLink α :=
  if length < l.size then l else emplaceBack^[length - l.size] l

/-! ## Operations on values -/

variable {l l' : CowLink α} {index ptr : Nat}

/-- The pointers have been handed out, and the link has no node twice. -/
structure Proper (l : CowLink α) : Prop where
  nodup : l.nodes.Nodup
  bound : ∀ ptr ∈ l.nodes ++ l.others, ptr < l.next

/-- The link is proper again, and the pointers of the others are what they were. -/
structure Evolves (l l' : CowLink α) : Prop where
  proper : l'.Proper
  others : l'.others = l.others
  next : l.next ≤ l'.next

theorem Proper.evolves_self (h : l.Proper) : l.Evolves l := ⟨h, rfl, Nat.le_refl _⟩

theorem Evolves.trans {l'' : CowLink α} (h : l.Evolves l') (h' : l'.Evolves l'') :
    l.Evolves l'' :=
  ⟨h'.proper, h'.others.trans h.others, Nat.le_trans h.next h'.next⟩

theorem values_length (l : CowLink α) : l.values.length = l.size := List.length_map _

theorem values_getElem? (l : CowLink α) (index : Nat) :
    l.values[index]? = l.nodes[index]?.map l.heap := List.getElem?_map

theorem Proper.lt_next (h : l.Proper) (hptr : l.nodes[index]? = some ptr) : ptr < l.next :=
  h.bound ptr (List.mem_append_left _ (List.mem_of_getElem? hptr))

theorem Proper.ne_next (h : l.Proper) (hptr : ptr ∈ l.nodes) : ptr ≠ l.next :=
  Nat.ne_of_lt (h.bound ptr (List.mem_append_left _ hptr))

theorem map_update_of_notMem {ptrs : List Nat} (h : ptr ∉ ptrs) (heap : Nat → α) (x : α) :
    ptrs.map (update heap ptr x) = ptrs.map heap :=
  List.map_congr_left fun ptr' hmem => update_of_ne (fun heq => h (by rwa [← heq])) ..

/-- The bound of a link that has one more node. -/
theorem Proper.bound_succ (h : l.Proper) {nodes : List Nat}
    (hnodes : ∀ ptr ∈ nodes, ptr ∈ l.nodes ∨ ptr = l.next) :
    ∀ ptr ∈ nodes ++ l.others, ptr < l.next + 1 := by
  intro ptr hmem
  rcases List.mem_append.mp hmem with hmem | hmem
  · rcases hnodes ptr hmem with hold | rfl
    · exact Nat.lt_succ_of_lt (h.bound ptr (List.mem_append_left _ hold))
    · exact Nat.lt_succ_self _
  · exact Nat.lt_succ_of_lt (h.bound ptr (List.mem_append_right _ hmem))

theorem Proper.unique_iff (h : l.Proper) (hptr : l.nodes[index]? = some ptr) :
    l.unique ptr = true ↔ ptr ∉ l.others := by
  have hcount : l.nodes.count ptr = 1 :=
    List.count_eq_one_of_mem h.nodup (List.mem_of_getElem? hptr)
  rw [unique, List.count_append, hcount, beq_iff_eq, ← List.count_eq_zero]
  omega

/-- Going to a node leaves the values, and all nodes that were there. -/
theorem Proper.cowThisNode [CowNodeRequire α] (h : l.Proper) (index : Nat)
    (hcopy : ∀ ptr, l.nodes[index]? = some ptr → ptr ∈ l.others →
      CowNodeRequire.copy (l.heap ptr) = l.heap ptr) :
    l.Evolves (l.cowThisNode index) ∧ (l.cowThisNode index).values = l.values ∧
      ∀ ptr < l.next, (l.cowThisNode index).heap ptr = l.heap ptr := by
  have hsame := h.evolves_self
  cases hptr : l.nodes[index]? with
  | none =>
      rw [CowLink.cowThisNode, hptr]
      exact ⟨hsame, rfl, fun _ _ => rfl⟩
  | some ptr =>
      rw [CowLink.cowThisNode, hptr]
      simp only
      split
      next => exact ⟨hsame, rfl, fun _ _ => rfl⟩
      next hunique =>
        rw [h.unique_iff hptr, not_not] at hunique
        rw [hcopy ptr hptr hunique]
        have hnew : l.next ∉ l.nodes := fun hmem => h.ne_next hmem rfl
        refine ⟨⟨⟨h.nodup.set hnew, h.bound_succ ?_⟩, rfl, Nat.le_succ _⟩, ?_,
          fun ptr' hlt => update_of_ne (Nat.ne_of_lt hlt) ..⟩
        · intro ptr' hmem
          exact List.mem_or_eq_of_mem_set hmem
        · have hvalue : l.values[index]? = some (l.heap ptr) := by rw [values_getElem?, hptr]; rfl
          obtain ⟨hlength, hget⟩ := List.getElem?_eq_some_iff.mp hvalue
          change (l.nodes.set index l.next).map (update l.heap l.next (l.heap ptr)) = _
          rw [List.map_set, map_update_of_notMem hnew, update_self, ← hget]
          exact List.set_getElem_self hlength

theorem exists_write (hindex : index < l.size) (change : α → α) :
    ∃ l', l.write index change = .ok l' := by
  rw [CowLink.write, List.getElem?_eq_getElem hindex]
  exact ⟨_, rfl⟩

theorem nodes_of_write {change : α → α} (hok : l.write index change = .ok l') :
    l'.nodes = l.nodes := by
  rw [CowLink.write] at hok
  split at hok
  next => cases hok
  next =>
    cases hok
    rfl

/-- A write changes one value, and its node. -/
theorem Proper.write (h : l.Proper) {change : α → α} (hok : l.write index change = .ok l') :
    ∃ ptr, l.nodes[index]? = some ptr ∧ l.Evolves l' ∧
      l'.values = l.values.modify index change ∧
        l'.heap = update l.heap ptr (change (l.heap ptr)) := by
  rw [CowLink.write] at hok
  split at hok
  next => cases hok
  next ptr hptr =>
    cases hok
    refine ⟨ptr, hptr, ⟨⟨h.nodup, h.bound⟩, rfl, Nat.le_refl _⟩, List.ext_getElem? fun j => ?_, rfl⟩
    rw [values_getElem?, List.getElem?_modify, values_getElem?]
    by_cases hj : index = j
    · subst hj
      simp [hptr]
    · cases hptr' : l.nodes[j]? with
      | none => rfl
      | some ptr' =>
          have hne : ptr' ≠ ptr := by
            rintro rfl
            exact hj ((List.getElem?_inj (List.getElem?_eq_some_iff.mp hptr).1 h.nodup).mp
              (hptr.trans hptr'.symm))
          simp [hj, update_of_ne hne]

/-! ### The callbacks of `moveToTail` -/

/-- The calls of `moveCallback`, on values. -/
def callOn (moveCallback : List α → α → α) : List α → List α → List α
  | _, [] => []
  | seen, x :: xs => moveCallback seen x :: callOn moveCallback (seen ++ [x]) xs

/-- A callback that remembers nothing. -/
theorem callOn_const (change : α → α) (seen xs : List α) :
    callOn (fun _ => change) seen xs = xs.map change := by
  induction xs generalizing seen with
  | nil => rfl
  | cons x xs ih => rw [callOn, ih, List.map_cons]

variable {moveCallback : List α → α → α} {seen : List α} {heap : Nat → α} {ptrs : List Nat}

theorem callEach_of_notMem (h : ptr ∉ ptrs) :
    callEach moveCallback seen heap ptrs ptr = heap ptr := by
  induction ptrs generalizing seen heap with
  | nil => rfl
  | cons head ptrs ih =>
      rw [List.mem_cons, not_or] at h
      rw [callEach, ih h.2, update_of_ne h.1]

theorem map_callEach (h : ptrs.Nodup) :
    ptrs.map (callEach moveCallback seen heap ptrs) = callOn moveCallback seen (ptrs.map heap) := by
  induction ptrs generalizing seen heap with
  | nil => rfl
  | cons head ptrs ih =>
      obtain ⟨hhead, hrest⟩ := List.nodup_cons.mp h
      rw [callEach, List.map_cons, List.map_cons, callOn, callEach_of_notMem hhead, update_self,
        ih hrest, map_update_of_notMem hhead]

/-- What becomes of one of the nodes. -/
theorem callEach_getElem? (h : ptrs.Nodup) {j : Nat} (hj : ptrs[j]? = some ptr) :
    callEach moveCallback seen heap ptrs ptr =
      moveCallback (seen ++ (ptrs.map heap).take j) (heap ptr) := by
  induction ptrs generalizing seen heap j with
  | nil => cases hj
  | cons head ptrs ih =>
      obtain ⟨hhead, hrest⟩ := List.nodup_cons.mp h
      rw [callEach]
      cases j with
      | zero =>
          obtain rfl : head = ptr := Option.some.inj hj
          rw [callEach_of_notMem hhead, update_self, List.take_zero, List.append_nil]
      | succ j =>
          have hj' : ptrs[j]? = some ptr := hj
          have hne : ptr ≠ head := fun heq => hhead (heq ▸ List.mem_of_getElem? hj')
          rw [ih hrest hj', map_update_of_notMem hhead, update_of_ne hne, List.map_cons,
            List.take_succ_cons, List.append_assoc, List.singleton_append]

theorem Proper.moveToTail (h : l.Proper) {stop : Nat}
    (hok : l.moveToTail stop moveCallback = .ok l') :
    stop ≤ l.size ∧ l.Evolves l' ∧
      l'.values = l.values.drop stop ++ callOn moveCallback [] (l.values.take stop) ∧
        l'.heap = callEach moveCallback [] l.heap (l.nodes.take stop) := by
  rw [CowLink.moveToTail] at hok
  split at hok
  next hstop =>
    cases hok
    have hperm : (l.nodes.drop stop ++ l.nodes.take stop).Perm l.nodes := by
      have hcomm : (l.nodes.drop stop ++ l.nodes.take stop).Perm
          (l.nodes.take stop ++ l.nodes.drop stop) := List.perm_append_comm
      rwa [List.take_append_drop] at hcomm
    have hnodup : (l.nodes.drop stop ++ l.nodes.take stop).Nodup := hperm.nodup_iff.mpr h.nodup
    obtain ⟨-, htake, hdisjoint⟩ := List.nodup_append.mp hnodup
    refine ⟨hstop, ⟨⟨hnodup, fun ptr hmem => h.bound ptr ?_⟩, rfl, Nat.le_refl _⟩, ?_, rfl⟩
    · rcases List.mem_append.mp hmem with hmem | hmem
      · exact List.mem_append_left _ (hperm.mem_iff.mp hmem)
      · exact List.mem_append_right _ hmem
    · have hdrop : (l.nodes.drop stop).map (callEach moveCallback [] l.heap (l.nodes.take stop)) =
          (l.nodes.drop stop).map l.heap :=
        List.map_congr_left fun ptr hmem =>
          callEach_of_notMem fun hmem' => hdisjoint ptr hmem ptr hmem' rfl
      rw [values, List.map_append, hdrop, map_callEach htake, List.map_drop, List.map_take]
      rfl
  next => cases hok

/-! ### New nodes -/

theorem Proper.emplaceBack [CowNodeRequire α] (h : l.Proper) :
    l.Evolves l.emplaceBack ∧ l.emplaceBack.values = l.values ++ [CowNodeRequire.new] ∧
      ∀ ptr < l.next, l.emplaceBack.heap ptr = l.heap ptr := by
  have hnew : l.next ∉ l.nodes := fun hmem => h.ne_next hmem rfl
  refine ⟨⟨⟨?_, h.bound_succ ?_⟩, rfl, Nat.le_succ _⟩, ?_,
    fun ptr hlt => update_of_ne (Nat.ne_of_lt hlt) ..⟩
  · refine List.nodup_append.mpr ⟨h.nodup, List.nodup_singleton _, fun ptr hmem ptr' hlast => ?_⟩
    rw [List.mem_singleton.mp hlast]
    exact h.ne_next hmem
  · intro ptr hmem
    rcases List.mem_append.mp hmem with hmem | hlast
    · exact .inl hmem
    · exact .inr (List.mem_singleton.mp hlast)
  · change (l.nodes ++ [l.next]).map (update l.heap l.next CowNodeRequire.new) = _
    rw [List.map_append, map_update_of_notMem hnew, List.map_singleton, update_self]
    rfl

theorem Proper.emplaceBacks [CowNodeRequire α] (h : l.Proper) (count : Nat) :
    l.Evolves (CowLink.emplaceBack^[count] l) ∧
      (CowLink.emplaceBack^[count] l).values =
        l.values ++ List.replicate count CowNodeRequire.new ∧
      ∀ ptr < l.next, (CowLink.emplaceBack^[count] l).heap ptr = l.heap ptr := by
  induction count generalizing l with
  | zero => exact ⟨h.evolves_self, (List.append_nil _).symm, fun _ _ => rfl⟩
  | succ count ih =>
      obtain ⟨hevolves, hvalues, hheap⟩ := h.emplaceBack
      obtain ⟨hevolves', hvalues', hheap'⟩ := ih hevolves.proper
      rw [Function.iterate_succ_apply]
      refine ⟨hevolves.trans hevolves', ?_, fun ptr hlt => ?_⟩
      · rw [hvalues', hvalues, List.append_assoc, List.replicate_succ]
        rfl
      · rw [hheap' ptr (Nat.lt_of_lt_of_le hlt hevolves.next), hheap ptr hlt]

theorem Proper.allocMore [CowNodeRequire α] (h : l.Proper) (length : Nat) :
    l.Evolves (l.allocMore length) ∧
      (l.allocMore length).values =
        (if length < l.size then l.values
        else l.values ++ List.replicate (length - l.size) CowNodeRequire.new) ∧
      ∀ ptr < l.next, (l.allocMore length).heap ptr = l.heap ptr := by
  rw [CowLink.allocMore]
  by_cases hlength : length < l.size
  · rw [if_pos hlength, if_pos hlength]
    exact ⟨h.evolves_self, rfl, fun _ _ => rfl⟩
  · rw [if_neg hlength, if_neg hlength]
    exact h.emplaceBacks _

/-! ## Whose the nodes are -/

theorem Proper.notMem_others (h : l.Proper) (hlt : l.next ≤ ptr) : ptr ∉ l.others := fun hmem =>
  Nat.not_lt.mpr hlt (h.bound ptr (List.mem_append_right _ hmem))

/-- The iterator is on a node that no other link has, and the other nodes are not touched. -/
theorem Proper.cowThisNode_own [CowNodeRequire α] (h : l.Proper) {j : Nat}
    (hptr : (l.cowThisNode index).nodes[j]? = some ptr) :
    j ≠ index ∧ l.nodes[j]? = some ptr ∨ ptr ∉ l.others := by
  rw [CowLink.cowThisNode] at hptr
  split at hptr
  next hnone =>
    left
    refine ⟨?_, hptr⟩
    rintro rfl
    rw [hnone] at hptr
    cases hptr
  next ptr' hptr' =>
    by_cases hj : j = index
    · subst hj
      right
      split at hptr
      next hunique =>
        rw [hptr'] at hptr
        cases hptr
        exact (h.unique_iff hptr').mp hunique
      next =>
        rw [List.getElem?_set_self (List.getElem?_eq_some_iff.mp hptr').1] at hptr
        cases hptr
        exact h.notMem_others (Nat.le_refl _)
    · left
      split at hptr
      next => exact ⟨hj, hptr⟩
      next =>
        rw [List.getElem?_set_ne (Ne.symm hj)] at hptr
        exact ⟨hj, hptr⟩

theorem Proper.emplaceBack_own [CowNodeRequire α] (h : l.Proper) {j : Nat}
    (hptr : l.emplaceBack.nodes[j]? = some ptr) : l.nodes[j]? = some ptr ∨ ptr ∉ l.others := by
  change (l.nodes ++ [l.next])[j]? = some ptr at hptr
  rcases Nat.lt_or_ge j l.nodes.length with hj | hj
  · rw [List.getElem?_append_left hj] at hptr
    exact .inl hptr
  · rw [List.getElem?_append_right hj] at hptr
    rw [List.mem_singleton.mp (List.mem_of_getElem? hptr)]
    exact .inr (h.notMem_others (Nat.le_refl _))

theorem Proper.allocMore_own [CowNodeRequire α] (h : l.Proper) {length j : Nat}
    (hptr : (l.allocMore length).nodes[j]? = some ptr) :
    l.nodes[j]? = some ptr ∨ ptr ∉ l.others := by
  rw [CowLink.allocMore] at hptr
  split at hptr
  next => exact .inl hptr
  next hlength =>
    clear hlength
    generalize length - l.size = count at hptr
    induction count generalizing l with
    | zero => exact .inl hptr
    | succ count ih =>
        rw [Function.iterate_succ_apply] at hptr
        obtain ⟨hevolves, -, -⟩ := h.emplaceBack
        rcases ih hevolves.proper hptr with hold | hother
        · exact h.emplaceBack_own hold
        · exact .inr (hevolves.others ▸ hother)

end CowLink

end Netpp
