import Mathlib.Algebra.Order.BigOperators.Group.List
import Netpp.Socket.Sequential

/-!
# When a write is complete

`SocketIO::write` tells its caller whether everything has been sent, and the caller
then stops waiting for `EPOLLOUT`. It compares the number of bytes sent with the
number of bytes that were readable before, but with `<=`, so it tells of a partial
send what it tells of a complete one. `Reader.reportsCompletion_iff` says for which
answers of `sendmsg` the return value is right.
-/

namespace Netpp

/-- The readers that a write may be given, each with the arrays behind it. -/
inductive Reader where
  /-- `ByteArrayReaderWithLock`. -/
  | single (buffer : ByteArray)
  /-- `SequentialByteArrayReaderWithLock`. -/
  | sequential (buffers : List ByteArray)

namespace Reader

def buffers : Reader → List ByteArray
  | single b => [b]
  | sequential bs => bs

/-- The bytes of the stretches that the constructor makes. -/
def offered : Reader → Except Fault (List UInt8)
  | single b => do
      let vec ← ByteArrayReaderWithLock.iovec b
      gather b.nodes vec
  | sequential bs => do
      let vec ← SequentialByteArrayReaderWithLock.iovec bs
      SequentialByteArrayReaderWithLock.gather bs vec

def adjustByteArray (size : Nat) : Reader → Except Fault Reader
  | single b => (ByteArrayReaderWithLock.adjustByteArray b size).map single
  | sequential bs => (SequentialByteArrayReaderWithLock.adjustByteArray bs size).map sequential

def availableBytes : Reader → Nat
  | single b => ByteArrayReaderWithLock.availableBytes b
  | sequential bs => SequentialByteArrayReaderWithLock.availableBytes bs

/-- `SocketIO::write` with any reader, as `SocketIO.write` is with a single one. -/
def write (io : Reader) (answer : Answer Nat) :
    Except Fault (Except Exception (Reader × List UInt8 × Bool)) :=
  match Stub.sendmsg answer with
  | .error e => .ok (.error e)
  | .ok none => -- error that can not recovery threw as exception
      .ok (.ok (io, [], false))
  | .ok (some room) => do
      let expectWriteSize := io.availableBytes
      let bytes ← io.offered
      let sent := bytes.take room
      let io' ← io.adjustByteArray sent.length
      .ok (.ok (io', sent, sent.length ≤ expectWriteSize))

theorem write_single (b : ByteArray) (answer : Answer Nat) :
    (single b).write answer =
      ( SocketIO.write .reader b answer).map (·.map fun r => (single r.1, r.2)) := by
  rw [write, SocketIO.write]
  cases Stub.sendmsg answer with
  | error e => rfl
  | ok room =>
      cases room with
      | none => rfl
      | some room =>
          simp only [offered, adjustByteArray, ByteArray2IOVec.iovec,
            ByteArray2IOVec.adjustByteArray, bind, Except.bind]
          cases ByteArrayReaderWithLock.iovec b with
          | error f => rfl
          | ok vec =>
              dsimp only
              cases gather b.nodes vec with
              | error f => rfl
              | ok bytes =>
                  dsimp only
                  cases ByteArrayReaderWithLock.adjustByteArray b (bytes.take room).length with
                  | error f => rfl
                  | ok b' => rfl

/-! ## What the return value should say -/

/-- The number of bytes that can be read from all the arrays. -/
def readableBytes (io : Reader) : Nat := (io.buffers.map ByteArray.readableBytes).sum

/-- The write returns, and returns true exactly if `sendmsg` has not failed and no byte
is left to read. -/
def ReportsCompletion (io : Reader) (answer : Answer Nat) : Prop :=
  ∃ io' sent writeCompleted, io.write answer = .ok (.ok (io', sent, writeCompleted)) ∧
    (writeCompleted = true ↔ Stub.sendmsg answer ≠ .ok none ∧ io'.readableBytes = 0)

/-- The reader can be made and offers `bytes`, each array has a write node, and the
readable bytes can be counted. -/
structure Offers (io : Reader) (bytes : List UInt8) : Prop where
  offered : io.offered = .ok bytes
  writeNode_lt : ∀ b ∈ io.buffers, b.writeNode < b.nodes.length
  readableBytes_lt : io.readableBytes < 2 ^ 64

open Netpp.ByteArray

variable {io io' : Reader} {b b' : ByteArray} {bs bs' : List ByteArray} {n : Nat}
variable {bytes : List UInt8}

/-- Reachable arrays offer their unread bytes. -/
theorem offers_of_reachable (hreachable : ∀ b ∈ io.buffers, b.Reachable)
    (hfits : io.readableBytes < 2 ^ 64) :
    io.Offers (io.buffers.flatMap ByteArray.unread) := by
  have hholds := fun b hmem => (hreachable b hmem).holds
  refine ⟨?_, ?_, hfits⟩
  · cases io with
    | single b =>
        obtain ⟨vec, hvec, hgather, -⟩ := (hholds b (List.mem_singleton_self b)).reader_iovec
        simp [offered, buffers, hvec, hgather, bind, Except.bind]
    | sequential bs =>
        have hgathers : SequentialByteArrayReaderWithLock.Gathers bs :=
          SequentialByteArrayReaderWithLock.gathers hholds
        obtain ⟨vec, hvec, hgather⟩ := hgathers
        simp [offered, buffers, hvec, hgather, bind, Except.bind]
  · intro b hmem
    obtain ⟨-, -, R, W, hlayout⟩ := hholds b hmem
    exact hlayout.writeNode_lt

/-! ## Counting -/

/-- Whatever becomes of the nodes, an adjustment counts the bytes. -/
theorem adjustByteArray_readableBytes (hfits : b.readableBytes < 2 ^ 64)
    (hok : ByteArrayReaderWithLock.adjustByteArray b n = .ok b') :
    b'.readableBytes = b.readableBytes - n := by
  rw [ByteArrayReaderWithLock.adjustByteArray] at hok
  by_cases hall : b.availableSizeToRead ≤ n
  · have hzero : b.readableBytes - n = 0 := Nat.sub_eq_zero_of_le hall
    rw [if_pos hall] at hok
    obtain ⟨node, -, hok⟩ := Except.exists_of_bind_eq_ok hok
    injection hok with hok
    rw [hzero, ← hok, unlockedMoveBufferHead_readableBytes]
    rfl
  · rw [if_neg hall] at hok
    obtain ⟨node, -, hok⟩ := Except.exists_of_bind_eq_ok hok
    injection hok with hok
    rw [← hok, unlockedMoveBufferHead_readableBytes]
    exact Word64.sub_of_le (Nat.le_of_not_le hall) hfits

/-- All bytes can be consumed from an array that has a write node. -/
theorem adjustByteArray_of_readableBytes_le (hnode : b.writeNode < b.nodes.length)
    (hall : b.readableBytes ≤ n) :
    ∃ b', ByteArrayReaderWithLock.adjustByteArray b n = .ok b' := by
  rw [ByteArray.readableBytes] at hall
  rw [ByteArrayReaderWithLock.adjustByteArray, if_pos hall]
  simp only [nodeAt_of_lt hnode, bind, Except.bind]
  exact ⟨_, rfl⟩

theorem sum_adjustByteArray (hfits : ∀ b ∈ bs, b.readableBytes < 2 ^ 64)
    (hok : SequentialByteArrayReaderWithLock.adjustByteArray bs n = .ok bs') :
    (bs'.map ByteArray.readableBytes).sum = (bs.map ByteArray.readableBytes).sum - n := by
  induction bs generalizing n bs' with
  | nil =>
      cases hok
      simp
  | cons b bs ih =>
      obtain ⟨b', hadjust, -⟩ := Except.exists_of_bind_eq_ok hok
      have hleft := adjustByteArray_readableBytes (hfits b (List.mem_cons_self ..)) hadjust
      rw [SequentialByteArrayReaderWithLock.adjustByteArray_cons hadjust rfl] at hok
      rw [List.map_cons, List.sum_cons]
      by_cases hall : b.readableBytes < n
      · rw [if_pos hall.le, if_neg (Nat.sub_ne_zero_of_lt hall)] at hok
        obtain ⟨rest, hrest, rfl⟩ := Except.exists_of_map_eq_ok hok
        rw [List.map_cons, List.sum_cons, hleft,
          ih (fun b hmem => hfits b (List.mem_cons_of_mem _ hmem)) hrest]
        omega
      · have hzero : (if b.readableBytes ≤ n then n - b.readableBytes else 0) = 0 := by
          split <;> omega
        rw [if_pos hzero] at hok
        injection hok with hok
        rw [← hok, List.map_cons, List.sum_cons, hleft]
        omega

theorem exists_adjustByteArray_sum (hnodes : ∀ b ∈ bs, b.writeNode < b.nodes.length) :
    ∃ bs', SequentialByteArrayReaderWithLock.adjustByteArray bs
      (bs.map ByteArray.readableBytes).sum = .ok bs' := by
  induction bs with
  | nil => exact ⟨[], rfl⟩
  | cons b bs ih =>
      obtain ⟨rest, hrest⟩ := ih fun b hmem => hnodes b (List.mem_cons_of_mem _ hmem)
      rw [List.map_cons, List.sum_cons]
      obtain ⟨b', hok⟩ := adjustByteArray_of_readableBytes_le (hnodes b (List.mem_cons_self ..))
        (Nat.le_add_right b.readableBytes (bs.map ByteArray.readableBytes).sum)
      rw [SequentialByteArrayReaderWithLock.adjustByteArray_cons hok rfl,
        if_pos (Nat.le_add_right _ _), Nat.add_sub_cancel_left]
      split
      · exact ⟨_, rfl⟩
      · rw [hrest]
        exact ⟨_, rfl⟩

theorem readableBytes_le (hmem : b ∈ io.buffers) : b.readableBytes ≤ io.readableBytes :=
  List.le_sum_of_mem (List.mem_map_of_mem hmem)

theorem Offers.readableBytes_adjustByteArray (h : io.Offers bytes)
    (hok : io.adjustByteArray n = .ok io') : io'.readableBytes = io.readableBytes - n := by
  have hfits : ∀ b ∈ io.buffers, b.readableBytes < 2 ^ 64 := fun b hmem =>
    lt_of_le_of_lt (readableBytes_le hmem) h.readableBytes_lt
  cases io with
  | single b =>
      obtain ⟨b', hadjust, rfl⟩ := Except.exists_of_map_eq_ok hok
      have hleft := adjustByteArray_readableBytes (hfits b (List.mem_singleton_self b)) hadjust
      simpa [Reader.readableBytes, buffers] using hleft
  | sequential bs =>
      obtain ⟨bs', hadjust, rfl⟩ := Except.exists_of_map_eq_ok hok
      exact sum_adjustByteArray hfits hadjust

theorem Offers.exists_adjustByteArray (h : io.Offers bytes) :
    ∃ io', io.adjustByteArray io.readableBytes = .ok io' := by
  cases io with
  | single b =>
      have hnode := h.writeNode_lt b (List.mem_singleton_self b)
      obtain ⟨b', hok⟩ := adjustByteArray_of_readableBytes_le (n := (single b).readableBytes)
        hnode (readableBytes_le (List.mem_singleton_self b))
      exact ⟨single b', by rw [adjustByteArray, hok]; rfl⟩
  | sequential bs =>
      have hnodes : ∀ b ∈ bs, b.writeNode < b.nodes.length := h.writeNode_lt
      obtain ⟨bs', hok⟩ := exists_adjustByteArray_sum hnodes
      exact ⟨sequential bs', congrArg (Except.map sequential) hok⟩

theorem Offers.availableBytes_eq (h : io.Offers bytes) : io.availableBytes = io.readableBytes := by
  cases io with
  | single b => simp [availableBytes, Reader.readableBytes, buffers,
      ByteArrayReaderWithLock.availableBytes, ByteArray.readableBytes]
  | sequential bs =>
      have hcount := SequentialByteArrayReaderWithLock.availableBytes_eq_sum bs
      exact hcount.trans (Nat.mod_eq_of_lt h.readableBytes_lt)

/-! ## The return value -/

/-- What the write returns if `count` bytes are sent. -/
theorem Offers.write (h : io.Offers bytes) {answer : Answer Nat} {count : Nat}
    (hanswer : Stub.sendmsg answer = .ok (some count)) (hcount : count ≤ bytes.length) :
    io.write answer = (io.adjustByteArray count).map fun io' =>
      .ok (io', bytes.take count, count ≤ io.readableBytes) := by
  rw [Reader.write, hanswer]
  simp only [h.offered, h.availableBytes_eq, List.length_take, Nat.min_eq_left hcount, bind,
    Except.bind]
  cases io.adjustByteArray count with
  | error f => rfl
  | ok io' => rfl

/-- The return value is right exactly if `sendmsg` fails or takes all the bytes that can
be read. -/
theorem reportsCompletion_iff (h : io.Offers bytes) {answer : Answer Nat} {result : Option Nat}
    (hanswer : Stub.sendmsg answer = .ok result)
    (hcount : ∀ count, result = some count → count ≤ bytes.length) :
    io.ReportsCompletion answer ↔ ∀ count, result = some count → count = io.readableBytes := by
  cases result with
  | none =>
      constructor
      · rintro - count ⟨⟩
      · intro _
        refine ⟨io, [], false, ?_, by simp [hanswer]⟩
        rw [Reader.write, hanswer]
  | some count =>
      have hwrite := h.write hanswer (hcount count rfl)
      constructor
      · rintro ⟨io', sent, writeCompleted, hok, hreports⟩ _ ⟨⟩
        rw [hwrite] at hok
        obtain ⟨io'', hadjust, hresult⟩ := Except.exists_of_map_eq_ok hok
        cases hresult
        have hleft := h.readableBytes_adjustByteArray hadjust
        rw [hanswer, hleft, decide_eq_true_iff] at hreports
        by_cases hall : count ≤ io.readableBytes
        · have hzero := (hreports.mp hall).2
          omega
        · exact absurd (hreports.mpr ⟨by simp, by omega⟩) hall
      · intro hall
        obtain rfl := hall count rfl
        obtain ⟨io', hadjust⟩ := h.exists_adjustByteArray
        have hleft := h.readableBytes_adjustByteArray hadjust
        refine ⟨io', _, _, by rw [hwrite, hadjust]; rfl, ?_⟩
        simp [hanswer, hleft]

/-- Two bytes of two are sent. -/
theorem reportsCompletion_iff_two : ∃ b, b.Reachable ∧ b.readableBytes = 2 ∧
    ((single b).ReportsCompletion (.done 2) ↔
      ∀ count, some 2 = some count → count = (single b).readableBytes) := by
  obtain ⟨b, hreachable, hobserved⟩ := exists_made [.put [1, 2]]
    (fun b => (b.readableBytes, b.unread.length)) (2, 2) (by decide +kernel)
  obtain ⟨hreadable, hunread⟩ := Prod.mk.inj hobserved
  have hoffers : (single b).Offers ((single b).buffers.flatMap ByteArray.unread) :=
    offers_of_reachable (List.forall_mem_singleton.mpr hreachable)
      (by simp [Reader.readableBytes, buffers, hreadable])
  refine ⟨b, hreachable, hreadable, reportsCompletion_iff hoffers rfl ?_⟩
  rintro count ⟨⟩
  simp [buffers, hunread]

/-- One byte of two is sent, and the write returns true. -/
theorem reportsCompletion_fails : ∃ b, b.Reachable ∧ b.unread.length = 2 ∧
    ¬(single b).ReportsCompletion (.done 1) := by
  obtain ⟨b, hreachable, hobserved⟩ := exists_made [.put [1, 2]]
    (fun b => (b.unread.length, ((single b).write (.done 1)).map (·.map fun r =>
      (r.1.readableBytes, r.2.2)))) (2, .ok (.ok (1, true))) (by decide +kernel)
  obtain ⟨hunread, hwrite⟩ := Prod.mk.inj hobserved
  refine ⟨b, hreachable, hunread, ?_⟩
  rintro ⟨io', sent, writeCompleted, hok, hreports⟩
  rw [hok] at hwrite
  injection hwrite with hwrite
  injection hwrite with hwrite
  obtain ⟨hleft, rfl⟩ := Prod.ext_iff.mp hwrite
  have hzero := (hreports.mp rfl).2
  rw [show io'.readableBytes = 1 from hleft] at hzero
  cases hzero

end Reader

end Netpp
