import Netpp.Buffer.CowLink
import Netpp.Library.Run
import Netpp.Library.Word

/-!
# Copies of a link

Links are made, copied and destroyed, and what they hold is changed through their iterators
and by `moveToTail`. On one link these operations do what they do on a list. A copy of the
link is isolated from them as long as nothing that the copy holds is changed: neither by a
callback of `moveToTail`, which gets the nodes as they are, nor through an iterator that
stands on a node which has come to be shared.
-/

namespace Netpp

/-- The links of a program, with the memory that their nodes live in. -/
structure Links (α : Type) where
  heap : Nat → α
  next : Nat
  /-- `m_nodes` of the links that have been made, `none` for one that is destroyed. -/
  links : List (Option (List Nat))
  /-- The link and the position of each iterator. -/
  iterators : List (Nat × Nat)

/-- A list with its iterators. -/
structure Unshared (α : Type) where
  values : List α
  iterators : List (Nat × Nat)

namespace Links

variable {α : Type}

/-- What is done on one link. -/
inductive Operation (α : Type) where
  | cowBegin (index : Nat)
  /-- `operator++` of an iterator. -/
  | increment (it : Nat)
  /-- A change through `operator*` of an iterator. -/
  | write (it : Nat) (change : α → α)
  | moveToTail (stop : Nat) (moveCallback : List α → α → α)
  | allocMore (length : Nat)

inductive Event (α : Type) where
  | construct
  | copy (a : Nat)
  | destroy (a : Nat)
  | operate (a : Nat) (operation : Operation α)

def nodesOf (w : Links α) (a : Nat) : List Nat := w.links[a]?.join.getD []

/-- What iterating over the link shows. -/
def observed (w : Links α) (a : Nat) : List α := (w.nodesOf a).map w.heap

/-- A link, with the pointers of all others. -/
def link (w : Links α) (a : Nat) : Option (CowLink α) :=
  w.links[a]?.join.map fun nodes =>
    ⟨w.heap, w.next, (w.links.set a none).flatMap (·.getD []), nodes⟩

def put (w : Links α) (a : Nat) (l : CowLink α) : Links α :=
  { w with heap := l.heap, next := l.next, links := w.links.set a (some l.nodes) }

/-- Where an iterator of the link stands. -/
def position (iterators : List (Nat × Nat)) (a it : Nat) : Except Fault Nat :=
  match iterators[it]? with
  | none => .error .badIterator
  | some (b, index) => if b = a then .ok index else .error .badIterator

def operate [CowNodeRequire α] (a : Nat) (w : Links α) (operation : Operation α) :
    Except Fault (Links α) :=
  match w.link a with
  | none => .error .outOfRange
  | some l =>
      match operation with
      | .cowBegin index =>
          .ok { w.put a (l.cowThisNode index) with iterators := w.iterators ++ [(a, index)] }
      | .increment it => do
          let index ← position w.iterators a it
          .ok { w.put a (l.cowThisNode (Word64.add index 1)) with
            iterators := w.iterators.set it (a, Word64.add index 1) }
      | .write it change => do
          let index ← position w.iterators a it
          (l.write index change).map (w.put a)
      | .moveToTail stop moveCallback => (l.moveToTail stop moveCallback).map (w.put a)
      | .allocMore length => .ok (w.put a (l.allocMore length))

def defaultNodeSize : Nat := 1

def step [CowNodeRequire α] (w : Links α) : Event α → Except Fault (Links α)
  | .construct =>
      let l := CowLink.emplaceBack^[defaultNodeSize]
        ⟨w.heap, w.next, w.links.flatMap (·.getD []), []⟩
      .ok { w with heap := l.heap, next := l.next, links := w.links ++ [some l.nodes] }
  | .copy a =>
      match w.links[a]?.join with
      | none => .error .outOfRange
      | some nodes => .ok { w with links := w.links ++ [some nodes] }
  | .destroy a => .ok { w with links := w.links.set a none }
  | .operate a operation => w.operate a operation

/-- Before the first link is made. -/
def empty [CowNodeRequire α] : Links α := ⟨fun _ => CowNodeRequire.new, 0, [], []⟩

end Links

namespace Unshared

open Links

variable {α : Type}

/-- The operations of the link `a`, on a list. -/
def operate [CowNodeRequire α] (a : Nat) (u : Unshared α) :
    Operation α → Except Fault (Unshared α)
  | .cowBegin index => .ok { u with iterators := u.iterators ++ [(a, index)] }
  | .increment it => do
      let index ← position u.iterators a it
      .ok { u with iterators := u.iterators.set it (a, Word64.add index 1) }
  | .write it change => do
      let index ← position u.iterators a it
      if index < u.values.length then .ok { u with values := u.values.modify index change }
      else .error .outOfRange
  | .moveToTail stop moveCallback =>
      if stop ≤ u.values.length then
        .ok { u with
          values := u.values.drop stop ++ CowLink.callOn moveCallback [] (u.values.take stop) }
      else .error .outOfRange
  | .allocMore length =>
      .ok { u with
        values := if length < u.values.length then u.values
          else u.values ++ List.replicate (length - u.values.length) CowNodeRequire.new }

end Unshared

namespace Links

variable {α : Type}

/-- On a list with the values of the link the operations do what they do on the link, and the
copy shows what it showed before. -/
def Isolated [CowNodeRequire α] (a b : Nat) (w : Links α) (operations : List (Operation α)) :
    Prop :=
  ∀ w', Run.final (operate a) w operations = .ok w' →
    w'.observed b = w.observed b ∧
      Run.final (Unshared.operate a) ⟨w.observed a, w.iterators⟩ operations =
        .ok ⟨w'.observed a, w'.iterators⟩

/-- Nothing that the copy holds is changed. -/
def Spares (a b : Nat) (w : Links α) : Operation α → Prop
  | .write it change => ∀ index ptr, position w.iterators a it = .ok index →
      (w.nodesOf a)[index]? = some ptr → ptr ∈ w.nodesOf b →
        change (w.heap ptr) = w.heap ptr
  | .moveToTail stop moveCallback => ∀ j ptr, j < stop →
      (w.nodesOf a)[j]? = some ptr → ptr ∈ w.nodesOf b →
        moveCallback ((w.observed a).take j) (w.heap ptr) = w.heap ptr
  | _ => True

variable {w w' : Links α} {a b : Nat} {l l' : CowLink α}

/-- No link has a node twice, and all pointers have been handed out. -/
def Proper (w : Links α) : Prop :=
  ∀ nodes, some nodes ∈ w.links → nodes.Nodup ∧ ∀ ptr ∈ nodes, ptr < w.next

theorem link_eq_some (h : w.link a = some l) : w.links[a]? = some (some l.nodes) ∧
    l = ⟨w.heap, w.next, (w.links.set a none).flatMap (·.getD []), l.nodes⟩ := by
  obtain ⟨nodes, hnodes, rfl⟩ := Option.map_eq_some_iff.mp h
  exact ⟨Option.join_eq_some_iff.mp hnodes, rfl⟩

theorem nodesOf_of_link (h : w.link a = some l) : w.nodesOf a = l.nodes := by
  rw [nodesOf, (link_eq_some h).1]
  rfl

theorem observed_of_link (h : w.link a = some l) : w.observed a = l.values := by
  rw [observed, nodesOf_of_link h, (link_eq_some h).2]
  rfl

theorem Proper.link (h : w.Proper) (hl : w.link a = some l) : l.Proper := by
  obtain ⟨hnodes, heq⟩ := link_eq_some hl
  obtain ⟨hnodup, hbound⟩ := h _ (List.mem_of_getElem? hnodes)
  rw [heq]
  refine ⟨hnodup, fun ptr hmem => ?_⟩
  rcases List.mem_append.mp hmem with hmem | hmem
  · exact hbound ptr hmem
  · obtain ⟨other, hother, hptr⟩ := List.mem_flatMap.mp hmem
    cases other with
    | none => cases hptr
    | some nodes =>
        rcases List.mem_or_eq_of_mem_set hother with hin | hnone
        · exact (h nodes hin).2 ptr hptr
        · cases hnone

theorem Proper.put (h : w.Proper) (hl : w.link a = some l) (hevolves : l.Evolves l') :
    (w.put a l').Proper := by
  have hnext : w.next ≤ l'.next := by
    have hle := hevolves.next
    rwa [(link_eq_some hl).2] at hle
  intro nodes hmem
  rcases List.mem_or_eq_of_mem_set hmem with hin | hnew
  · obtain ⟨hnodup, hbound⟩ := h nodes hin
    exact ⟨hnodup, fun ptr hptr => Nat.lt_of_lt_of_le (hbound ptr hptr) hnext⟩
  · cases hnew
    exact ⟨hevolves.proper.nodup, fun ptr hptr =>
      hevolves.proper.bound ptr (List.mem_append_left _ hptr)⟩

theorem nodesOf_put (h : w.link a = some l) : (w.put a l').nodesOf a = l'.nodes := by
  have hlt := (List.getElem?_eq_some_iff.mp (link_eq_some h).1).1
  rw [nodesOf, put, List.getElem?_set_self hlt]
  rfl

theorem nodesOf_put_of_ne (hne : b ≠ a) : (w.put a l').nodesOf b = w.nodesOf b := by
  rw [nodesOf, put, List.getElem?_set_ne hne.symm, nodesOf]

theorem observed_put (h : w.link a = some l) : (w.put a l').observed a = l'.values := by
  rw [observed, nodesOf_put h]
  rfl

theorem Proper.lt_next (h : w.Proper) {ptr : Nat} (hptr : ptr ∈ w.nodesOf b) : ptr < w.next := by
  rw [nodesOf] at hptr
  cases hlink : w.links[b]?.join with
  | none =>
      rw [hlink] at hptr
      cases hptr
  | some nodes =>
      rw [hlink] at hptr
      exact (h nodes (List.mem_of_getElem? (Option.join_eq_some_iff.mp hlink))).2 ptr hptr

/-! ## A step -/

/-- What an operation on `a` does. -/
structure Operated [CowNodeRequire α] (a : Nat) (w : Links α) (operation : Operation α)
    (w' : Links α) : Prop where
  proper : w'.Proper
  unshared : Unshared.operate a ⟨w.observed a, w.iterators⟩ operation =
    .ok ⟨w'.observed a, w'.iterators⟩
  others : ∀ b ≠ a, w'.nodesOf b = w.nodesOf b
  spares : ∀ b ≠ a, w'.observed b = w.observed b ↔ Spares a b w operation

theorem observed_eq_iff (hsame : w'.nodesOf b = w.nodesOf b) : w'.observed b = w.observed b ↔
    ∀ ptr ∈ w.nodesOf b, w'.heap ptr = w.heap ptr := by
  rw [observed, hsame, observed]
  exact List.map_inj_left

theorem heap_of_link (h : w.link a = some l) : l.heap = w.heap := by rw [(link_eq_some h).2]

theorem next_of_link (h : w.link a = some l) : l.next = w.next := by rw [(link_eq_some h).2]

/-- An operation that keeps what all nodes hold. -/
theorem Proper.operated_of_kept [CowNodeRequire α] (h : w.Proper) (hl : w.link a = some l)
    (hevolves : l.Evolves l') (hkept : ∀ ptr < l.next, l'.heap ptr = l.heap ptr)
    {operation : Operation α} {iterators : List (Nat × Nat)}
    (hunshared : Unshared.operate a ⟨l.values, w.iterators⟩ operation =
      .ok ⟨l'.values, iterators⟩) (hspares : ∀ b, Spares a b w operation) :
    Operated a w operation { w.put a l' with iterators := iterators } where
  proper := h.put hl hevolves
  unshared := by
    rw [observed_of_link hl, hunshared]
    exact congrArg (fun values => Except.ok (Unshared.mk values iterators)) (observed_put hl).symm
  others b hne := nodesOf_put_of_ne hne
  spares b hne := by
    refine iff_of_true ((observed_eq_iff (nodesOf_put_of_ne hne)).mpr fun ptr hptr => ?_)
      (hspares b)
    rw [next_of_link hl, heap_of_link hl] at hkept
    exact hkept ptr (h.lt_next hptr)

theorem Proper.write [CowNodeRequire α] (h : w.Proper) (hl : w.link a = some l) {it index : Nat}
    (hposition : position w.iterators a it = .ok index) {change : α → α}
    (hok : l.write index change = .ok l') : Operated a w (.write it change) (w.put a l') := by
  have hnodes := nodesOf_of_link hl
  obtain ⟨ptr, hptr, hevolves, hvalues, hheap⟩ := (h.link hl).write hok
  rw [heap_of_link hl] at hheap
  have hlt : index < l.values.length := by
    rw [CowLink.values_length]
    exact (List.getElem?_eq_some_iff.mp hptr).1
  refine ⟨h.put hl hevolves, ?_, fun b hne => nodesOf_put_of_ne hne, fun b hne => ?_⟩
  · rw [observed_of_link hl, observed_put hl, hvalues, Unshared.operate, hposition]
    exact if_pos hlt
  · rw [observed_eq_iff (nodesOf_put_of_ne hne)]
    change (∀ ptr ∈ w.nodesOf b, l'.heap ptr = w.heap ptr) ↔ _
    rw [hheap]
    constructor
    · intro hsame index' ptr' hposition' hptr' hmem
      rw [hposition] at hposition'
      cases hposition'
      rw [hnodes, hptr] at hptr'
      cases hptr'
      have hwritten := hsame ptr hmem
      rwa [Function.update_self] at hwritten
    · intro hspares ptr' hmem
      by_cases heq : ptr' = ptr
      · subst heq
        rw [Function.update_self]
        exact hspares index ptr' hposition (by rw [hnodes, hptr]) hmem
      · exact Function.update_of_ne heq ..

theorem Proper.moveToTail [CowNodeRequire α] (h : w.Proper) (hl : w.link a = some l)
    {stop : Nat} {moveCallback : List α → α → α} (hok : l.moveToTail stop moveCallback = .ok l') :
    Operated a w (.moveToTail stop moveCallback) (w.put a l') := by
  have hnodes := nodesOf_of_link hl
  have hobserved := observed_of_link hl
  obtain ⟨hstop, hevolves, hvalues, hheap⟩ := (h.link hl).moveToTail hok
  have htake : (l.nodes.take stop).Nodup := (h.link hl).nodup.sublist (List.take_sublist ..)
  -- what the callback makes of the node at `j`
  have hcalled {j ptr : Nat} (hj : j < stop) (hptr : l.nodes[j]? = some ptr) :
      l'.heap ptr = moveCallback ((w.observed a).take j) (w.heap ptr) := by
    rw [hheap, CowLink.callEach_getElem? htake (by rwa [List.getElem?_take_of_lt hj]),
      List.nil_append, ← List.map_take, List.take_take, Nat.min_eq_left (Nat.le_of_lt hj),
      hobserved, CowLink.values, List.map_take, heap_of_link hl]
  refine ⟨h.put hl hevolves, ?_, fun b hne => nodesOf_put_of_ne hne, fun b hne => ?_⟩
  · rw [hobserved, observed_put hl, hvalues, Unshared.operate]
    exact if_pos (by rwa [CowLink.values_length])
  · rw [observed_eq_iff (nodesOf_put_of_ne hne)]
    change (∀ ptr ∈ w.nodesOf b, l'.heap ptr = w.heap ptr) ↔ _
    constructor
    · intro hsame j ptr hj hptr hmem
      rw [hnodes] at hptr
      rw [← hcalled hj hptr]
      exact hsame ptr hmem
    · intro hspares ptr hmem
      by_cases hin : ptr ∈ l.nodes.take stop
      · obtain ⟨j, hj, hget⟩ := List.mem_take_iff_getElem.mp hin
        have hptr : l.nodes[j]? = some ptr := by rw [List.getElem?_eq_getElem (by omega), hget]
        rw [hcalled (by omega) hptr]
        exact hspares j ptr (by omega) (by rw [hnodes, hptr]) hmem
      · rw [hheap, CowLink.callEach_of_notMem hin, heap_of_link hl]

/-- Step lemma: an operation on a link does what it does on a list, and another link shows what
it showed if and only if the operation spares what it holds. -/
theorem Proper.operate [CowNodeRequire α] (hcopy : ∀ x : α, CowNodeRequire.copy x = x)
    (h : w.Proper) {operation : Operation α} (hok : w.operate a operation = .ok w') :
    Operated a w operation w' := by
  rw [Links.operate] at hok
  cases hl : w.link a with
  | none =>
      rw [hl] at hok
      cases hok
  | some l =>
      rw [hl] at hok
      cases operation with
      | cowBegin index =>
          cases hok
          obtain ⟨hevolves, hsame, hkept⟩ := (h.link hl).cowThisNode index fun _ _ _ => hcopy _
          refine h.operated_of_kept hl hevolves hkept ?_ fun _ => trivial
          rw [hsame]
          rfl
      | increment it =>
          obtain ⟨index, hposition, hok⟩ := Except.exists_of_bind_eq_ok hok
          cases hok
          obtain ⟨hevolves, hsame, hkept⟩ :=
            (h.link hl).cowThisNode (Word64.add index 1) fun _ _ _ => hcopy _
          refine h.operated_of_kept hl hevolves hkept ?_ fun _ => trivial
          rw [hsame, Unshared.operate, hposition]
          rfl
      | write it change =>
          obtain ⟨index, hposition, hok⟩ := Except.exists_of_bind_eq_ok hok
          obtain ⟨l', hwrite, rfl⟩ := Except.exists_of_map_eq_ok hok
          exact h.write hl hposition hwrite
      | moveToTail stop moveCallback =>
          obtain ⟨l', hmove, rfl⟩ := Except.exists_of_map_eq_ok hok
          exact h.moveToTail hl hmove
      | allocMore length =>
          cases hok
          obtain ⟨hevolves, hvalues, hkept⟩ := (h.link hl).allocMore length
          change Operated a w _ { w.put a (l.allocMore length) with iterators := w.iterators }
          refine h.operated_of_kept hl hevolves hkept ?_ fun _ => trivial
          rw [hvalues, Unshared.operate, CowLink.values_length]

/-! ## Runs -/

variable {nodes : List Nat}

/-- One more link. -/
theorem Proper.append (h : w.Proper) (hlinks : w'.links = w.links ++ [some nodes])
    (hnext : w.next ≤ w'.next) (hnodes : nodes.Nodup) (hbound : ∀ ptr ∈ nodes, ptr < w'.next) :
    w'.Proper := by
  intro nodes' hmem
  rw [hlinks] at hmem
  rcases List.mem_append.mp hmem with hin | hlast
  · obtain ⟨hnodup, hlt⟩ := h nodes' hin
    exact ⟨hnodup, fun ptr hptr => Nat.lt_of_lt_of_le (hlt ptr hptr) hnext⟩
  · cases List.mem_singleton.mp hlast
    exact ⟨hnodes, hbound⟩

theorem copy_ok [CowNodeRequire α] (h : w.step (.copy a) = .ok w') :
    w.links[a]? = some (some (w.nodesOf a)) ∧
      w' = { w with links := w.links ++ [some (w.nodesOf a)] } := by
  rw [step.eq_def] at h
  simp only at h
  split at h
  next => cases h
  next nodes hnodes =>
    cases h
    rw [nodesOf, hnodes]
    exact ⟨Option.join_eq_some_iff.mp hnodes, rfl⟩

/-- A copy shows what the link shows. -/
theorem observed_copy [CowNodeRequire α] (h : w.step (.copy a) = .ok w') :
    w'.observed w.links.length = w.observed a := by
  obtain ⟨-, rfl⟩ := copy_ok h
  have hnodes : ({ w with links := w.links ++ [some (w.nodesOf a)] } : Links α).nodesOf
      w.links.length = w.nodesOf a := by
    rw [nodesOf, List.getElem?_append_right (Nat.le_refl _), Nat.sub_self]
    rfl
  rw [observed, hnodes]
  rfl

theorem Proper.step [CowNodeRequire α] (hcopy : ∀ x : α, CowNodeRequire.copy x = x)
    (h : w.Proper) {e : Event α} (hok : w.step e = .ok w') : w'.Proper := by
  cases e with
  | construct =>
      cases hok
      have hnone : (⟨w.heap, w.next, w.links.flatMap (·.getD []), []⟩ : CowLink α).Proper := by
        refine ⟨List.nodup_nil, fun ptr hmem => ?_⟩
        obtain ⟨other, hother, hptr⟩ := List.mem_flatMap.mp hmem
        cases other with
        | none => cases hptr
        | some nodes => exact (h nodes hother).2 ptr hptr
      obtain ⟨hevolves, -, -⟩ := hnone.emplaceBacks defaultNodeSize
      exact h.append rfl hevolves.next hevolves.proper.nodup fun ptr hptr =>
        hevolves.proper.bound ptr (List.mem_append_left _ hptr)
  | copy a =>
      obtain ⟨hnodes, rfl⟩ := copy_ok hok
      obtain ⟨hnodup, hbound⟩ := h _ (List.mem_of_getElem? hnodes)
      exact h.append rfl (Nat.le_refl _) hnodup hbound
  | destroy a =>
      cases hok
      intro nodes hmem
      rcases List.mem_or_eq_of_mem_set hmem with hin | hnone
      · exact h nodes hin
      · cases hnone
  | operate a operation => exact (h.operate hcopy hok).proper

theorem proper_of_reached [CowNodeRequire α] (hcopy : ∀ x : α, CowNodeRequire.copy x = x)
    {events : List (Event α)} (h : Run.final step empty events = .ok w) : w.Proper :=
  Run.final_invariant (fun _ _ _ hproper hok => hproper.step hcopy hok)
    (fun _ hmem => absurd hmem List.not_mem_nil) h

/-- On a link the operations do what they do on a list with its values. -/
theorem Proper.unshared [CowNodeRequire α] (hcopy : ∀ x : α, CowNodeRequire.copy x = x)
    (h : w.Proper) {operations : List (Operation α)}
    (hfinal : Run.final (Links.operate a) w operations = .ok w') :
    Run.final (Unshared.operate a) ⟨w.observed a, w.iterators⟩ operations =
      .ok ⟨w'.observed a, w'.iterators⟩ := by
  refine Run.final_of_simulation (J := Proper) (fun w => Unshared.mk (w.observed a) w.iterators)
    (fun w operation w' hproper hok => ?_) h hfinal
  have hoperated := hproper.operate hcopy hok
  exact ⟨hoperated.proper, hoperated.unshared⟩

/-- A copy shows the same after each operation if and only if each spares what it holds. -/
theorem Proper.kept_iff [CowNodeRequire α] (hcopy : ∀ x : α, CowNodeRequire.copy x = x)
    (h : w.Proper) (hne : b ≠ a) (operations : List (Operation α)) :
    Run.Always (Links.operate a)
        (Run.After (Links.operate a) fun w' => w'.observed b = w.observed b) w operations ↔
      Run.Always (Links.operate a)
        (Run.Each (Links.operate a) fun w' operation _ => Spares a b w' operation)
        w operations := by
  refine Run.always_each_iff (J := fun w' => w'.Proper ∧ w'.observed b = w.observed b) ?_ ?_
    ⟨h, rfl⟩ operations
  · rintro s operation s' ⟨hs, hsame⟩ hspares hok
    have hoperated := hs.operate hcopy hok
    exact ⟨hoperated.proper, ((hoperated.spares b hne).mpr hspares).trans hsame⟩
  · rintro s operation s' ⟨hs, hsame⟩ hok
    rw [← hsame]
    exact (hs.operate hcopy hok).spares b hne

theorem ne_of_copied [CowNodeRequire α] (h : w.step (.copy a) = .ok w') : w.links.length ≠ a :=
  Nat.ne_of_gt (List.getElem?_eq_some_iff.mp (copy_ok h).1).1

/-- A copy of a link is isolated from the operations on the link, after each of them, if and
only if each of them spares what the copy holds. -/
theorem isolated_iff [CowNodeRequire α] (hcopy : ∀ x : α, CowNodeRequire.copy x = x)
    {events : List (Event α)} {w w' : Links α} {a : Nat}
    (hreached : Run.final step empty events = .ok w) (hcopied : w.step (.copy a) = .ok w')
    (operations : List (Operation α)) :
    (∀ done, done <+: operations → Isolated a w.links.length w' done) ↔
      Run.Always (operate a)
        (Run.Each (operate a) fun w'' operation _ => Spares a w.links.length w'' operation)
        w' operations := by
  have hproper := (proper_of_reached hcopy hreached).step hcopy hcopied
  have hkept : (∀ done, done <+: operations → Isolated a w.links.length w' done) ↔
      ∀ done, done <+: operations → ∀ w'', Run.final (operate a) w' done = .ok w'' →
        w''.observed w.links.length = w'.observed w.links.length :=
    forall₂_congr fun done _ => forall₂_congr fun w'' hfinal =>
      and_iff_left (hproper.unshared hcopy hfinal)
  have hafter : Run.Always (operate a) _ w' operations ↔ _ := Run.always_after_iff
    (P := fun w'' => w''.observed w.links.length = w'.observed w.links.length) rfl operations
  exact (hkept.trans hafter.symm).trans (hproper.kept_iff hcopy (ne_of_copied hcopied) operations)

instance : CowNodeRequire Nat := ⟨0, id⟩

/-- A callback adds one to the only node. -/
theorem isolated_iff_add :
    (∀ done, done <+: [Operation.moveToTail 1 fun _ x => x + 1] →
      Isolated 0 1 (⟨fun _ => 0, 1, [some [0], some [0]], []⟩ : Links Nat) done) ↔
      Run.Always (operate 0)
        (Run.Each (operate 0) fun w operation _ => Spares 0 1 w operation)
        (⟨fun _ => 0, 1, [some [0], some [0]], []⟩ : Links Nat)
        [.moveToTail 1 fun _ x => x + 1] := by
  have hreached : Run.final step (empty : Links Nat) [.construct] =
      .ok ⟨fun _ => 0, 1, [some [0]], []⟩ := by
    have hheap : Function.update (fun _ : Nat => 0) 0 0 = fun _ => 0 := Function.update_eq_self ..
    change Except.ok (Links.mk (Function.update (fun _ : Nat => 0) 0 0) 1 [some [0]] []) = _
    rw [hheap]
  exact isolated_iff (fun _ => rfl) hreached rfl [.moveToTail 1 fun _ x => x + 1]

/-- The callback is called on the node that the copy has too. -/
theorem isolated_fails : ¬∀ (α : Type) [CowNodeRequire α],
    (∀ x : α, CowNodeRequire.copy x = x) → ∀ (events : List (Event α)) (w w' : Links α) (a : Nat),
      Run.final step empty events = .ok w → w.step (.copy a) = .ok w' →
        ∀ operations, Isolated a w.links.length w' operations := by
  intro h
  have hisolated := h Nat (fun _ => rfl) [.construct] _ _ 0 rfl rfl
    [.moveToTail 1 fun _ x => x + 1] _ rfl
  exact absurd hisolated.1 (by decide)

/-! ## Iterations

The iterators alone do isolate: an iterator that is made when the copy is there stands on a
node of the link alone, until nodes are moved. -/

/-- No node is moved, and only iterators from the `n`-th on are used. -/
def Iterates (n : Nat) : Operation α → Prop
  | .increment it => n ≤ it
  | .write it _ => n ≤ it
  | .moveToTail _ _ => False
  | _ => True

/-- The iterators from the `n`-th on stand on nodes that the copy does not have. -/
structure Standing (a b n : Nat) (w : Links α) : Prop where
  proper : w.Proper
  own : ∀ it index ptr, n ≤ it → w.iterators[it]? = some (a, index) →
    (w.nodesOf a)[index]? = some ptr → ptr ∉ w.nodesOf b

theorem mem_others (hl : w.link a = some l) (hne : b ≠ a) {ptr : Nat}
    (hptr : ptr ∈ w.nodesOf b) : ptr ∈ l.others := by
  rw [(link_eq_some hl).2]
  rw [nodesOf] at hptr
  cases hnodes : w.links[b]? with
  | none =>
      rw [hnodes] at hptr
      cases hptr
  | some other =>
      rw [hnodes] at hptr
      refine List.mem_flatMap.mpr ⟨other, List.mem_of_getElem? (i := b) ?_, hptr⟩
      rw [List.getElem?_set_ne hne.symm, hnodes]

theorem position_eq_ok {iterators : List (Nat × Nat)} {it index : Nat} :
    position iterators a it = .ok index ↔ iterators[it]? = some (a, index) := by
  rw [position]
  cases iterators[it]? with
  | none => exact iff_of_false nofun nofun
  | some at' =>
      obtain ⟨c, index'⟩ := at'
      by_cases hc : c = a
      · simp [hc]
      · simp [hc]

/-- Going to a node puts an iterator on a node of the link alone. -/
theorem Standing.cow [CowNodeRequire α] {n index : Nat} (h : Standing a b n w) (hne : b ≠ a)
    (hl : w.link a = some l) {iterators : List (Nat × Nat)}
    (hiterators : ∀ it index' : Nat, iterators[it]? = some (a, index') →
      w.iterators[it]? = some (a, index') ∨ index' = index)
    (hproper : (w.put a (l.cowThisNode index)).Proper) :
    Standing a b n { w.put a (l.cowThisNode index) with iterators := iterators } where
  proper := hproper
  own := by
    intro it index' ptr hn hit hptr
    change ((w.put a (l.cowThisNode index)).nodesOf a)[index']? = some ptr at hptr
    change ptr ∉ (w.put a (l.cowThisNode index)).nodesOf b
    rw [nodesOf_put hl] at hptr
    rw [nodesOf_put_of_ne hne]
    rcases (h.proper.link hl).cowThisNode_own hptr with ⟨hindex, hold⟩ | hother
    · refine h.own it index' ptr hn ((hiterators it index' hit).resolve_right hindex) ?_
      rwa [nodesOf_of_link hl]
    · exact fun hmem => hother (mem_others hl hne hmem)

theorem Standing.operate [CowNodeRequire α] (hcopy : ∀ x : α, CowNodeRequire.copy x = x) {n : Nat}
    (h : Standing a b n w) (hne : b ≠ a) {operation : Operation α}
    (hiterates : Iterates n operation) (hok : w.operate a operation = .ok w') :
    Standing a b n w' := by
  have hproper := (h.proper.operate hcopy hok).proper
  rw [Links.operate] at hok
  cases hl : w.link a with
  | none =>
      rw [hl] at hok
      cases hok
  | some l =>
      rw [hl] at hok
      cases operation with
      | cowBegin index =>
          cases hok
          refine h.cow hne hl (fun it index' hit => ?_) hproper
          rcases Nat.lt_or_ge it w.iterators.length with hlt | hge
          · rw [List.getElem?_append_left hlt] at hit
            exact .inl hit
          · rw [List.getElem?_append_right hge] at hit
            cases List.mem_singleton.mp (List.mem_of_getElem? hit)
            exact .inr rfl
      | increment it =>
          obtain ⟨index, hposition, hok⟩ := Except.exists_of_bind_eq_ok hok
          cases hok
          refine h.cow hne hl (fun it' index' hit => ?_) hproper
          by_cases heq : it = it'
          · subst heq
            have hlt := (List.getElem?_eq_some_iff.mp (position_eq_ok.mp hposition)).1
            rw [List.getElem?_set_self hlt] at hit
            cases hit
            exact .inr rfl
          · rw [List.getElem?_set_ne heq] at hit
            exact .inl hit
      | write it change =>
          obtain ⟨index, hposition, hok⟩ := Except.exists_of_bind_eq_ok hok
          obtain ⟨l', hwrite, rfl⟩ := Except.exists_of_map_eq_ok hok
          refine ⟨hproper, fun it' index' ptr hn hit hptr => ?_⟩
          rw [nodesOf_put hl, CowLink.nodes_of_write hwrite, ← nodesOf_of_link hl] at hptr
          rw [nodesOf_put_of_ne hne]
          exact h.own it' index' ptr hn hit hptr
      | moveToTail stop moveCallback => exact hiterates.elim
      | allocMore length =>
          cases hok
          refine ⟨hproper, fun it' index' ptr hn hit hptr => ?_⟩
          rw [nodesOf_put hl] at hptr
          rw [nodesOf_put_of_ne hne]
          rcases (h.proper.link hl).allocMore_own hptr with hold | hother
          · exact h.own it' index' ptr hn hit (by rwa [nodesOf_of_link hl])
          · exact fun hmem => hother (mem_others hl hne hmem)

/-- Iterations on a link that begin when a copy has been made do not change what the copy
shows. -/
theorem kept_of_iterates [CowNodeRequire α] (hcopy : ∀ x : α, CowNodeRequire.copy x = x)
    {events : List (Event α)} (hreached : Run.final step empty events = .ok w)
    (hcopied : w.step (.copy a) = .ok w') {operations : List (Operation α)}
    (hiterates : ∀ operation ∈ operations, Iterates w'.iterators.length operation) :
    Run.Always (Links.operate a)
      (Run.After (Links.operate a) fun w'' =>
        w''.observed w.links.length = w'.observed w.links.length) w' operations := by
  have hproper := (proper_of_reached hcopy hreached).step hcopy hcopied
  have hne := ne_of_copied hcopied
  rw [hproper.kept_iff hcopy hne]
  have hstanding : Standing a w.links.length w'.iterators.length w' := by
    refine ⟨hproper, fun it index ptr hn hit => ?_⟩
    rw [List.getElem?_eq_none hn] at hit
    cases hit
  generalize w'.iterators.length = n at hstanding hiterates
  generalize w.links.length = b at hstanding hne
  clear hreached hcopied hproper
  induction operations generalizing w' with
  | nil => trivial
  | cons operation operations ih =>
      obtain ⟨hhead, hrest⟩ := List.forall_mem_cons.mp hiterates
      refine ⟨fun s' _ => ?_, fun s' hok => ih hrest (hstanding.operate hcopy hne hhead hok)⟩
      cases operation with
      | write it change =>
          intro index ptr hposition hptr hmem
          exact absurd hmem (hstanding.own it index ptr hhead (position_eq_ok.mp hposition) hptr)
      | moveToTail stop moveCallback => exact hhead.elim
      | _ => trivial

end Links

end Netpp
