import Netpp.Socket.GatherView

/-!
# Several byte arrays as one message buffer

`SequentialByteArrayReaderWithLock` offers the unread bytes of several byte
arrays, one array after the other, and distributes the number of bytes that were
sent over them. Each array is cut as by a `ByteArrayReaderWithLock`, and the
condition under which the right bytes are dropped is that of the one array in
which the sent bytes end.
-/

namespace Netpp

namespace SequentialByteArrayReaderWithLock

/-- The stretches of the arrays, each with the index of its array; `j` is the
index of the first one. -/
def iovecLoop : Nat → List ByteArray → Except Fault (List (Nat × IOVec))
  | _, [] => .ok []
  | j, b :: bs => do
      let vec ← ByteArrayReaderWithLock.iovec b
      let rest ← iovecLoop (j + 1) bs
      .ok (vec.map (Prod.mk j) ++ rest)

def nodeCount (buffers : List ByteArray) : Nat := (buffers.map fun b => b.nodes.length).sum

/-- The constructor, which allocates a stretch for each node. -/
def iovec (buffers : List ByteArray) : Except Fault (List (Nat × IOVec)) :=
  if nodeCount buffers ≠ 0 then do
    let vec ← iovecLoop 0 buffers
    if nodeCount buffers < vec.length then .error .outOfBounds else .ok vec
  else .ok []

/-- The bytes of the stretches, in order. -/
def gather (buffers : List ByteArray) : List (Nat × IOVec) → Except Fault (List UInt8)
  | [] => .ok []
  | (j, v) :: vs =>
      match buffers[j]? with
      | none => .error .outOfRange
      | some b => do
          let node ← nodeAt b.nodes v.node
          let bytes ← node.load v.base v.len
          let rest ← gather buffers vs
          .ok (bytes ++ rest)

/-- The loop of the source; each array is adjusted as by its own reader. -/
def adjustByteArray : List ByteArray → Nat → Except Fault (List ByteArray)
  | [], _ => .ok []
  | b :: bs, size => do
      let b' ← ByteArrayReaderWithLock.adjustByteArray b size
      let left := if b.availableSizeToRead ≤ size then size - b.availableSizeToRead else 0
      if left = 0 then .ok (b' :: bs)
      else do
        let bs' ← adjustByteArray bs left
        .ok (b' :: bs')

def availableBytes (buffers : List ByteArray) : Nat :=
  buffers.foldl (fun length b => Word64.add length b.availableSizeToRead) 0

/-! ## What is claimed of them -/

/-- The stretches are the unread bytes of the arrays, in order. -/
def Gathers (buffers : List ByteArray) : Prop :=
  ∃ vec, iovec buffers = .ok vec ∧ gather buffers vec = .ok (buffers.flatMap ByteArray.unread)

/-- The arrays `buffers'` are `buffers` without the first `n` bytes of all of
them, and `availableBytes` counts `n` bytes less. -/
structure RemovesPrefix (buffers : List ByteArray) (n : Nat) (buffers' : List ByteArray) :
    Prop where
  unread : buffers'.map ByteArray.unread = Queue.dropFront (buffers.map ByteArray.unread) n
  availableBytes : Word64.add (availableBytes buffers') n = availableBytes buffers

/-- An adjustment by `n` removes the first `n` bytes. -/
def Consumes (buffers : List ByteArray) (n : Nat) : Prop :=
  ∃ buffers', adjustByteArray buffers n = .ok buffers' ∧ RemovesPrefix buffers n buffers'

/-- The array in which the first `n` bytes end is cut where its reader cuts
exactly. -/
def CutsExactly : List ByteArray → Nat → Prop
  | [], _ => True
  | b :: bs, n =>
      if b.readableBytes ≤ n then CutsExactly bs (n - b.readableBytes) else b.ConsumesExactly n

/-! ## Gathering -/

open Netpp.ByteArray

variable {b : ByteArray} {bs buffers : List ByteArray} {n : Nat}

/-- The bytes of the stretches of one array come before those of the others. -/
theorem gather_map_append {j : Nat} (hb : buffers[j]? = some b) {vec : List IOVec}
    {bytes rest : List UInt8} {vs : List (Nat × IOVec)}
    (hbytes : Netpp.gather b.nodes vec = .ok bytes) (hrest : gather buffers vs = .ok rest) :
    gather buffers (vec.map (Prod.mk j) ++ vs) = .ok (bytes ++ rest) := by
  induction vec generalizing bytes with
  | nil =>
      cases hbytes
      exact hrest
  | cons v vec ih =>
      obtain ⟨node, hnode, hbytes⟩ := Except.exists_of_bind_eq_ok hbytes
      obtain ⟨xs, hload, hbytes⟩ := Except.exists_of_bind_eq_ok hbytes
      obtain ⟨ys, hgather, hbytes⟩ := Except.exists_of_bind_eq_ok hbytes
      injection hbytes with hbytes
      rw [List.map_cons, List.cons_append, gather]
      simp only [hb, hnode, hload, ih hgather, bind, Except.bind]
      rw [← hbytes, List.append_assoc]

/-- A reader has no more stretches than its array has nodes. -/
theorem reader_iovec_length {vec : List IOVec} (h : ByteArrayReaderWithLock.iovec b = .ok vec) :
    vec.length ≤ b.nodes.length := by
  obtain ⟨stop, -, h⟩ := Except.exists_of_bind_eq_ok h
  split at h
  · cases h
  · injection h with h
    rw [← h]
    refine (reader_iovecLoop_length _ _).trans ?_
    rw [List.length_drop, List.length_take]
    omega

/-- The loop over the arrays from index `j` on. -/
theorem gather_iovecLoop {j : Nat} (hbs : buffers.drop j = bs)
    (hholds : ∀ b ∈ bs, Holds memoryLimit b b.unread) :
    ∃ vec, iovecLoop j bs = .ok vec ∧ gather buffers vec = .ok (bs.flatMap ByteArray.unread) ∧
      vec.length ≤ nodeCount bs := by
  induction bs generalizing j with
  | nil => exact ⟨[], rfl, rfl, Nat.zero_le _⟩
  | cons b bs ih =>
      obtain ⟨hb, hrest⟩ := Segment.getElem?_of_drop_eq_cons hbs
      obtain ⟨vec, hvec, hbytes, -⟩ := (hholds b (List.mem_cons_self ..)).reader_iovec
      obtain ⟨rest, hloop, hgather, hlength⟩ :=
        ih hrest fun b hmem => hholds b (List.mem_cons_of_mem _ hmem)
      refine ⟨vec.map (Prod.mk j) ++ rest, ?_, gather_map_append hb hbytes hgather, ?_⟩
      · simp only [iovecLoop, hvec, hloop, bind, Except.bind]
      · have hnodes := reader_iovec_length hvec
        rw [List.length_append, List.length_map, nodeCount, List.map_cons, List.sum_cons]
        exact Nat.add_le_add hnodes hlength

theorem gathers (hholds : ∀ b ∈ buffers, Holds memoryLimit b b.unread) : Gathers buffers := by
  obtain ⟨vec, hloop, hgather, hlength⟩ := gather_iovecLoop (List.drop_zero (l := buffers)) hholds
  by_cases hcount : nodeCount buffers = 0
  · have hnil : vec = [] := List.length_eq_zero_iff.mp (by omega)
    refine ⟨[], by rw [iovec, if_neg (not_not.mpr hcount)], ?_⟩
    rwa [hnil] at hgather
  · refine ⟨vec, ?_, hgather⟩
    rw [iovec, if_pos hcount]
    simp only [hloop, bind, Except.bind]
    rw [if_neg (Nat.not_lt.mpr hlength)]

/-! ## Consuming -/

/-- One round of the loop, after which the loop ends if nothing is left. -/
theorem adjustByteArray_cons {b' : ByteArray} {left : Nat}
    (hok : ByteArrayReaderWithLock.adjustByteArray b n = .ok b')
    (hleft : left = if b.readableBytes ≤ n then n - b.readableBytes else 0) :
    adjustByteArray (b :: bs) n =
      if left = 0 then .ok (b' :: bs) else (adjustByteArray bs left).map (b' :: ·) := by
  rw [readableBytes] at hleft
  rw [adjustByteArray]
  simp only [hok, bind, Except.bind, ← hleft]
  cases adjustByteArray bs left with
  | error err => rfl
  | ok bs' => rfl

theorem cutsExactly_zero (hholds : ∀ b ∈ bs, Holds memoryLimit b b.unread) :
    CutsExactly bs 0 := by
  induction bs with
  | nil => trivial
  | cons b bs ih =>
      rw [CutsExactly]
      split
      · rw [Nat.zero_sub]
        exact ih fun b hmem => hholds b (List.mem_cons_of_mem _ hmem)
      · exact (hholds b (List.mem_cons_self ..)).consumesExactly_zero

/-- Cut exactly, the arrays lose a prefix and stay well formed. -/
theorem adjustByteArray_of_cutsExactly (hholds : ∀ b ∈ bs, Holds memoryLimit b b.unread)
    (hcuts : CutsExactly bs n) :
    ∃ bs', adjustByteArray bs n = .ok bs' ∧ (∀ b ∈ bs', Holds memoryLimit b b.unread) ∧
      bs'.map ByteArray.unread = Queue.dropFront (bs.map ByteArray.unread) n := by
  induction bs generalizing n with
  | nil => exact ⟨[], rfl, hholds, rfl⟩
  | cons b bs ih =>
      have hb := hholds b (List.mem_cons_self ..)
      have hbs := fun b hmem => hholds b (List.mem_cons_of_mem _ hmem)
      have hreadable := hb.readableBytes
      rw [CutsExactly] at hcuts
      have hexact (hle : n ≤ b.readableBytes) : b.ConsumesExactly n := by
        by_cases hall : b.readableBytes ≤ n
        · exact .inl (Nat.le_antisymm hle hall)
        · rwa [if_neg hall] at hcuts
      obtain ⟨b', hok, hb'⟩ := hb.adjustByteArray hexact
      have hunread : b'.unread = b.unread.drop n := hb'.1
      rw [← hunread] at hb'
      rw [adjustByteArray_cons hok rfl, List.map_cons, Queue.dropFront_cons, ← hunread,
        ← hreadable]
      by_cases hleft : (if b.readableBytes ≤ n then n - b.readableBytes else 0) = 0
      · have hzero : n - b.readableBytes = 0 := by
          split at hleft
          · exact hleft
          · omega
        refine ⟨b' :: bs, if_pos hleft, ?_, ?_⟩
        · exact List.forall_mem_cons.mpr ⟨hb', hbs⟩
        · rw [hzero, Queue.dropFront_zero, List.map_cons]
      · have hall : b.readableBytes ≤ n := by
          by_contra hnot
          exact hleft (if_neg hnot)
        rw [if_pos hall] at hcuts
        obtain ⟨bs', hok', hbs', hunread'⟩ := ih hbs hcuts
        refine ⟨b' :: bs', ?_, List.forall_mem_cons.mpr ⟨hb', hbs'⟩, ?_⟩
        · rw [if_neg hleft, if_pos hall, hok']
          rfl
        · rw [List.map_cons, hunread']

/-- Arrays that lose a prefix have been cut exactly. -/
theorem cutsExactly_of_unread {bs' : List ByteArray}
    (hholds : ∀ b ∈ bs, Holds memoryLimit b b.unread) (hok : adjustByteArray bs n = .ok bs')
    (hunread : bs'.map ByteArray.unread = Queue.dropFront (bs.map ByteArray.unread) n) :
    CutsExactly bs n := by
  induction bs generalizing n bs' with
  | nil => trivial
  | cons b bs ih =>
      have hb := hholds b (List.mem_cons_self ..)
      have hbs := fun b hmem => hholds b (List.mem_cons_of_mem _ hmem)
      have hreadable := hb.readableBytes
      obtain ⟨b', hadjust, -⟩ := Except.exists_of_bind_eq_ok hok
      rw [adjustByteArray_cons hadjust rfl] at hok
      rw [CutsExactly]
      by_cases hall : b.readableBytes ≤ n
      · rw [if_pos hall] at hok ⊢
        by_cases hleft : n - b.readableBytes = 0
        · rw [hleft]
          exact cutsExactly_zero hbs
        · rw [if_neg hleft] at hok
          obtain ⟨rest, hrest, rfl⟩ := Except.exists_of_map_eq_ok hok
          rw [List.map_cons, List.map_cons, Queue.dropFront_cons, ← hreadable] at hunread
          exact ih hbs hrest (List.cons.inj hunread).2
      · rw [if_neg hall, if_pos rfl] at hok
        injection hok with hok
        rw [← hok, List.map_cons, List.map_cons, Queue.dropFront_cons] at hunread
        rw [if_neg hall]
        have hfit := hb.nodes_lt memoryLimit_le
        obtain ⟨-, -, R, W, hlayout⟩ := hb
        exact hlayout.consumesExactly_of_unread hfit (Nat.not_le.mp hall) hadjust
          (List.cons.inj hunread).1

/-- The loop of `availableBytes` adds the counts of the arrays. -/
theorem availableBytes_loop (bs : List ByteArray) (count : Nat) :
    bs.foldl (fun length b => Word64.add length b.availableSizeToRead) (count % 2 ^ 64) =
      (count + (bs.map readableBytes).sum) % 2 ^ 64 := by
  induction bs generalizing count with
  | nil => rfl
  | cons b bs ih =>
      rw [List.foldl_cons, Word64.add, Nat.mod_add_mod, ih, List.map_cons, List.sum_cons,
        ← Nat.add_assoc]
      rfl

theorem availableBytes_eq_sum (bs : List ByteArray) :
    availableBytes bs = (bs.map readableBytes).sum % 2 ^ 64 := by
  have hloop := availableBytes_loop bs 0
  rwa [Nat.zero_add] at hloop

theorem sum_readableBytes (hholds : ∀ b ∈ bs, Holds memoryLimit b b.unread) :
    (bs.map readableBytes).sum = (bs.map ByteArray.unread).flatten.length := by
  rw [List.length_flatten, List.map_map]
  exact congrArg List.sum (List.map_congr_left fun b hmem => (hholds b hmem).readableBytes)

/-- `availableBytes` counts the unread bytes. -/
theorem availableBytes_eq (hholds : ∀ b ∈ bs, Holds memoryLimit b b.unread) :
    availableBytes bs = (bs.map ByteArray.unread).flatten.length % 2 ^ 64 := by
  rw [availableBytes_eq_sum, sum_readableBytes hholds]

/-- The iovecs of the reader are the contents of the arrays, and an adjustment by
no more bytes than there are removes these bytes, exactly if the array in which
they end is cut exactly. -/
theorem gathers_and_consumes_iff (hreachable : ∀ b ∈ bs, b.Reachable)
    (hn : n ≤ (bs.map readableBytes).sum) :
    Gathers bs ∧ Consumes bs n ↔ CutsExactly bs n := by
  have hholds := fun b hmem => (hreachable b hmem).holds
  constructor
  · rintro ⟨-, bs', hok, hremoves⟩
    exact cutsExactly_of_unread hholds hok hremoves.unread
  · intro hcuts
    obtain ⟨bs', hok, hholds', hunread⟩ := adjustByteArray_of_cutsExactly hholds hcuts
    refine ⟨gathers hholds, bs', hok, hunread, ?_⟩
    have hsum := sum_readableBytes hholds
    rw [availableBytes_eq hholds', availableBytes_eq hholds, hunread, Queue.dropFront_flatten,
      List.length_drop, Word64.add, Nat.mod_add_mod, Nat.sub_add_cancel (hsum ▸ hn)]

/-- One byte of two arrays that hold two bytes and one. -/
theorem gathers_and_consumes_iff_two : ∃ b c, b.Reachable ∧ c.Reachable ∧
    b.readableBytes = 2 ∧ c.readableBytes = 1 ∧
      (Gathers [b, c] ∧ Consumes [b, c] 1 ↔ CutsExactly [b, c] 1) := by
  obtain ⟨b, hreachableB, htwo⟩ := exists_made [.put [1, 2]] readableBytes 2 (by decide +kernel)
  obtain ⟨c, hreachableC, hone⟩ := exists_made [.put [3]] readableBytes 1 (by decide +kernel)
  have hreachable : ∀ d ∈ [b, c], d.Reachable :=
    List.forall_mem_cons.mpr ⟨hreachableB, List.forall_mem_singleton.mpr hreachableC⟩
  refine ⟨b, c, hreachableB, hreachableC, htwo, hone, gathers_and_consumes_iff hreachable ?_⟩
  simp [htwo, hone]

/-- An array with one byte comes before one into which 1026 bytes have been written
and from which one has been retrieved. Consuming 1025 bytes leaves two bytes instead
of one. -/
theorem not_consumes_two : ¬∀ bs n, (∀ b ∈ bs, b.Reachable) → n ≤ (bs.map readableBytes).sum →
    Gathers bs ∧ Consumes bs n := by
  intro h
  have hrun : (made [.put [7]] >>= fun b =>
      (made [.put (List.replicate 1026 0), .get 1]).map fun c =>
          (b.readableBytes + c.readableBytes, b.unread.length + c.unread.length,
            (adjustByteArray [b, c] 1025).map fun bs =>
              (bs.map ByteArray.unread).flatten.length)) =
      .ok (1026, 1026, .ok 2) := by
    decide +kernel
  obtain ⟨b, hb, hrun⟩ := Except.exists_of_bind_eq_ok hrun
  obtain ⟨c, hc, hobserved⟩ := Except.exists_of_map_eq_ok hrun
  obtain ⟨hreadable, hunread, hleft⟩ : b.readableBytes + c.readableBytes = 1026 ∧
      b.unread.length + c.unread.length = 1026 ∧
      (adjustByteArray [b, c] 1025).map (fun bs =>
        (bs.map ByteArray.unread).flatten.length) = .ok 2 := by
    simpa using hobserved
  obtain ⟨bs', hok, htwo⟩ := Except.exists_of_map_eq_ok hleft
  have hreachable : ∀ d ∈ [b, c], d.Reachable :=
    List.forall_mem_cons.mpr
      ⟨⟨[.put [7]], hb⟩, List.forall_mem_singleton.mpr ⟨[.put _, .get 1], hc⟩⟩
  obtain ⟨-, bs'', hok', hremoves⟩ := h [b, c] 1025 hreachable (by simp; omega)
  obtain rfl : bs' = bs'' := by
    rw [hok] at hok'
    injection hok'
  rw [hremoves.unread, Queue.dropFront_flatten, List.length_drop] at htwo
  simp only [List.map_cons, List.map_nil, List.flatten_cons, List.flatten_nil, List.append_nil,
    List.length_append] at htwo
  omega

end SequentialByteArrayReaderWithLock

end Netpp
