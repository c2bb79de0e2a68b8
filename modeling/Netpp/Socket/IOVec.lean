import Netpp.Buffer.ByteArray

/-!
# Gathering and scattering

`sendmsg` and `recvmsg` do not know byte arrays: they get a list of `iovec`s,
stretches of memory that they read or fill in order. Here a stretch lies in the
buffer of one node. `gather` is what a send reads from the stretches and
`scatter` what a receive leaves in them.
-/

namespace Netpp

/-- `::iovec`: `len` bytes of the buffer of node `node`, from offset `base` on. -/
structure IOVec where
  node : Nat
  base : Nat
  len : Nat
  deriving DecidableEq

/-- The node an iterator with index `i` points to. -/
def nodeAt (nodes : List BufferNode) (i : Nat) : Except Fault BufferNode :=
  match nodes[i]? with
  | none => .error .outOfRange
  | some node => .ok node

/-- The bytes of the stretches, in order. -/
def gather (nodes : List BufferNode) : List IOVec → Except Fault (List UInt8)
  | [] => .ok []
  | v :: vs => do
      let node ← nodeAt nodes v.node
      let bytes ← node.load v.base v.len
      let rest ← gather nodes vs
      .ok (bytes ++ rest)

/-- The nodes after `data` has been placed into the stretches, in order; no more
data is ever delivered than the stretches hold. -/
def scatter : List BufferNode → List IOVec → List UInt8 → Except Fault (List BufferNode)
  | nodes, [], [] => .ok nodes
  | _, [], _ :: _ => .error .outOfBounds
  | nodes, v :: vs, data => do
      let node ← nodeAt nodes v.node
      let stored ← node.store v.base (data.take v.len)
      scatter (nodes.set v.node stored) vs (data.drop v.len)

/-- The number of bytes the stretches hold. -/
def capacity (vec : List IOVec) : Nat := (vec.map IOVec.len).sum

theorem nodeAt_of_lt {nodes : List BufferNode} {i : Nat} (h : i < nodes.length) :
    nodeAt nodes i = .ok nodes[i] := by
  rw [nodeAt, List.getElem?_eq_getElem h]

theorem nodeAt_of_le {nodes : List BufferNode} {i : Nat} (h : nodes.length ≤ i) :
    nodeAt nodes i = .error .outOfRange := by
  rw [nodeAt, List.getElem?_eq_none h]

theorem lt_of_nodeAt {nodes : List BufferNode} {i : Nat} {node : BufferNode}
    (h : nodeAt nodes i = .ok node) : i < nodes.length := by
  by_contra hlt
  rw [nodeAt_of_le (Nat.not_lt.mp hlt)] at h
  cases h

/-- One round of scattering that succeeds. -/
theorem scatter_cons_ok {nodes nodes' : List BufferNode} {v : IOVec} {vs : List IOVec}
    {data : List UInt8} (h : scatter nodes (v :: vs) data = .ok nodes') :
    ∃ (hv : v.node < nodes.length) (m : BufferNode),
      nodes[v.node].store v.base (data.take v.len) = .ok m ∧
        scatter (nodes.set v.node m) vs (data.drop v.len) = .ok nodes' := by
  rcases Nat.lt_or_ge v.node nodes.length with hv | hv
  · rw [scatter, nodeAt_of_lt hv] at h
    cases hstore : nodes[v.node].store v.base (data.take v.len) with
    | error err =>
        simp only [bind, Except.bind, hstore] at h
        cases h
    | ok m =>
        simp only [bind, Except.bind, hstore] at h
        exact ⟨hv, m, hstore, h⟩
  · rw [scatter, nodeAt_of_le hv] at h
    cases h

/-- Data that has been placed fits into the stretches. -/
theorem scatter_ok_length {nodes nodes' : List BufferNode} {vec : List IOVec}
    {data : List UInt8} (h : scatter nodes vec data = .ok nodes') :
    data.length ≤ capacity vec := by
  induction vec generalizing nodes data with
  | nil =>
      cases data with
      | nil => exact Nat.zero_le _
      | cons x xs => cases h
  | cons v vs ih =>
      obtain ⟨-, m, -, hrest⟩ := scatter_cons_ok h
      have hlength := ih hrest
      rw [List.length_drop] at hlength
      rw [capacity, List.map_cons, List.sum_cons]
      change data.length ≤ v.len + capacity vs
      omega

/-- Scattering changes the bytes of the nodes, not their offsets. -/
theorem scatter_ok_offsets {nodes nodes' : List BufferNode} {vec : List IOVec}
    {data : List UInt8} (h : scatter nodes vec data = .ok nodes') :
    nodes'.map BufferNode.offsets = nodes.map BufferNode.offsets := by
  induction vec generalizing nodes data with
  | nil =>
      cases data with
      | nil =>
          cases h
          rfl
      | cons x xs => cases h
  | cons v vs ih =>
      obtain ⟨hv, m, hstore, hrest⟩ := scatter_cons_ok h
      rw [ih hrest, List.map_set, BufferNode.store_ok_offsets hstore, ← List.map_set,
        List.set_getElem_self]

end Netpp
