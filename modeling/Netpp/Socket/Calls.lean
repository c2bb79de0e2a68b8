import Netpp.Socket.Completion
import Netpp.Socket.Rounds

/-!
# Calls on shared byte arrays

The methods of a byte array and the readers and writers of `SocketIO` lock the mutex of
the array before they look at it, and unlock it when they are done; a
`SequentialByteArrayReaderWithLock` locks its arrays in their order. `code` gives each
call its locks and the steps it makes under them, and `alone` what the call does if no
other thread comes in between: what the functions do that the other modules are about.
-/

namespace Netpp

open Locking (Prog Op View view overwrite)

namespace SharedArrays

/-! ## Reading from and writing to a socket -/

/-- An exception unwinds the stack and leaves the state as it is. -/
def unwound {σ α : Type} (s : σ) : Except Exception (σ × α) → σ × Except Exception α
  | .ok (s', a) => (s', .ok a)
  | .error e => (s, .error e)

/-- `SocketIO::read` through a reader or a writer of one array. -/
def receiveSteps (io : ByteArray2IOVec) (answer : Answer (List UInt8)) :
    Prog Fault ByteArray (Except Exception (List UInt8)) :=
  .step (fun b => (io.iovec b).map fun vec => (b, vec)) fun vec =>
    match Stub.recvmsg answer with
    | .error e => .ret (.error e)
    | .ok none => .ret (.ok [])
    | .ok (some arrived) =>
        let taken := arrived.take (capacity vec)
        .step (fun b =>
            (scatter b.nodes vec taken).map fun nodes => ({ b with nodes := nodes }, ()))
          fun _ => .step (fun b =>
            (io.adjustByteArray b taken.length).map fun b => (b, ())) fun _ => .ret (.ok taken)

/-- `SocketIO::write` through a reader or a writer of one array. -/
def sendSteps (io : ByteArray2IOVec) (answer : Answer Nat) :
    Prog Fault ByteArray (Except Exception (List UInt8 × Bool)) :=
  .step (fun b => (io.iovec b).map fun vec => (b, vec, io.availableBytes b)) fun r =>
    match Stub.sendmsg answer with
    | .error e => .ret (.error e)
    | .ok none => .ret (.ok ([], false))
    | .ok (some room) =>
        .step (fun b => (gather b.nodes r.1).map fun bytes => (b, bytes.take room))
          fun sent => .step (fun b =>
            (io.adjustByteArray b sent.length).map fun b => (b, ()))
              fun _ => .ret (.ok (sent, sent.length ≤ r.2))

variable {ks : List Nat}

/-- The arrays of a `SequentialByteArrayReaderWithLock`. -/
def buffers (v : View ByteArray ks) : List ByteArray := ks.attach.map v

/-- The loop of `adjustByteArray` over the arrays; `r` is what is returned after it. -/
def adjustRounds {ρ : Type} (r : ρ) :
    List {k // k ∈ ks} → Nat → Prog Fault (View ByteArray ks) ρ
  | [], _ => .ret r
  | k :: l, size => .step (fun v =>
      (ByteArrayReaderWithLock.adjustByteArray (v k) size).map fun b =>
        (Function.update v k b,
          if (v k).availableSizeToRead ≤ size then size - (v k).availableSizeToRead else 0))
      fun left => if left = 0 then .ret r else adjustRounds r l left

/-- `SocketIO::write` from a `SequentialByteArrayReaderWithLock`. -/
def sendAllSteps (ks : List Nat) (answer : Answer Nat) :
    Prog Fault (View ByteArray ks) (Except Exception (List UInt8 × Bool)) :=
  .step (fun v => (SequentialByteArrayReaderWithLock.iovec (buffers v)).map fun vec =>
      (v, vec, SequentialByteArrayReaderWithLock.availableBytes (buffers v))) fun r =>
    match Stub.sendmsg answer with
    | .error e => .ret (.error e)
    | .ok none => .ret (.ok ([], false))
    | .ok (some room) =>
        .step (fun v => (SequentialByteArrayReaderWithLock.gather (buffers v) r.1).map fun bytes =>
            (v, bytes.take room))
          fun sent => adjustRounds (.ok (sent, sent.length ≤ r.2)) ks.attach sent.length

/-! ## The calls -/

inductive Call
  | writeRaw (k : Nat) (data : List UInt8)
  | retrieveRaw (k length : Nat)
  | readableBytes (k : Nat)
  | writeableBytes (k : Nat)
  /-- Into the free space of the array, or over its unread bytes as `TcpConnection::handleIn`
  does. -/
  | receive (io : ByteArray2IOVec) (k : Nat) (answer : Answer (List UInt8))
  | send (io : ByteArray2IOVec) (k : Nat) (answer : Answer Nat)
  /-- The arrays of a sequential reader are distinct. -/
  | sendAll (ks : List Nat) (nodup : ks.Nodup) (answer : Answer Nat)

inductive Reply
  | done
  | retrieved (count : Nat) (buffer : List UInt8)
  | bytes (count : Nat)
  | received (r : Except Exception (List UInt8))
  | sent (r : Except Exception (List UInt8 × Bool))

/-- The array of a view of one. -/
def sole {k : Nat} (v : View ByteArray [k]) : ByteArray := v ⟨k, List.mem_singleton_self k⟩

def setSole {k : Nat} (_ : View ByteArray [k]) (b : ByteArray) : View ByteArray [k] := fun _ => b

/-- A call on the array `k`. -/
def one {ρ : Type} (k : Nat) (p : Prog Fault ByteArray ρ) (f : ρ → Reply) :
    Op Nat ByteArray Fault Reply where
  locks := [k]
  nodup := List.nodup_singleton k
  body := (p.map f).on sole setSole

def code : Call → Op Nat ByteArray Fault Reply
  | .writeRaw k data => one k (ByteArray.writeRawSteps data) fun _ => .done
  | .retrieveRaw k length => one k (ByteArray.retrieveRawSteps length) fun r => .retrieved r.1 r.2
  | .readableBytes k => one k (.step (fun b => .ok (b, b.readableBytes)) .ret) .bytes
  | .writeableBytes k => one k (.step (fun b => .ok (b, b.writeableBytes)) .ret) .bytes
  | .receive io k answer => one k (receiveSteps io answer) .received
  | .send io k answer => one k (sendSteps io answer) .sent
  | .sendAll ks nodup answer => ⟨ks, nodup, (sendAllSteps ks answer).map .sent⟩

/-- The arrays `ks` become `bs`. -/
def updateAll (s : Nat → ByteArray) : List Nat → List ByteArray → Nat → ByteArray
  | k :: ks, b :: bs => updateAll (Function.update s k b) ks bs
  | _, _ => s

/-- What a call does alone. -/
def Call.alone (s : Nat → ByteArray) : Call → Except Fault ((Nat → ByteArray) × Reply)
  | writeRaw k data => ((s k).writeRaw data).map fun b => (Function.update s k b, .done)
  | retrieveRaw k length => ((s k).retrieveRaw length).map fun r =>
      (Function.update s k r.1, .retrieved r.2.1 r.2.2)
  | readableBytes k => .ok (s, .bytes (s k).readableBytes)
  | writeableBytes k => .ok (s, .bytes (s k).writeableBytes)
  | receive io k answer => do
      let _ ← io.iovec (s k)
      ( SocketIO.read io (s k) answer).map fun r =>
        let x := unwound (s k) r
        (Function.update s k x.1, .received x.2)
  | send io k answer => do
      let _ ← io.iovec (s k)
      ( SocketIO.write io (s k) answer).map fun r =>
        let x := unwound (s k) r
        (Function.update s k x.1, .sent x.2)
  | sendAll ks _ answer => do
      let _ ← SequentialByteArrayReaderWithLock.iovec (ks.map s)
      ((Reader.sequential (ks.map s)).write answer).map fun r =>
        let x := unwound s (r.map fun x => (updateAll s ks x.1.buffers, x.2))
        (x.1, .sent x.2)

/-! ## Without other threads -/

variable {b : ByteArray} {v : View ByteArray ks} {s : Nat → ByteArray}

theorem receiveSteps_run (io : ByteArray2IOVec) (answer : Answer (List UInt8)) (b : ByteArray) :
    (receiveSteps io answer).run b = (do
      let _ ← io.iovec b
      ( SocketIO.read io b answer).map (unwound b)) := by
  rw [receiveSteps, Prog.run, SocketIO.read]
  cases io.iovec b with
  | error err => rfl
  | ok vec =>
      simp only [Except.map, bind, Except.bind]
      cases Stub.recvmsg answer with
      | error e => rfl
      | ok arrived =>
          cases arrived with
          | none => rfl
          | some arrived =>
              simp only [Prog.run]
              cases scatter b.nodes vec (arrived.take (capacity vec)) with
              | error err => rfl
              | ok nodes =>
                  dsimp only
                  cases io.adjustByteArray { b with nodes := nodes } _ with
                  | error err => rfl
                  | ok b => rfl

theorem sendSteps_run (io : ByteArray2IOVec) (answer : Answer Nat) (b : ByteArray) :
    (sendSteps io answer).run b = (do
      let _ ← io.iovec b
      ( SocketIO.write io b answer).map (unwound b)) := by
  rw [sendSteps, Prog.run, SocketIO.write]
  cases io.iovec b with
  | error err => rfl
  | ok vec =>
      simp only [Except.map, bind, Except.bind]
      cases Stub.sendmsg answer with
      | error e => rfl
      | ok room =>
          cases room with
          | none => rfl
          | some room =>
              simp only [Prog.run]
              cases gather b.nodes vec with
              | error err => rfl
              | ok bytes =>
                  dsimp only
                  cases io.adjustByteArray b (bytes.take room).length with
                  | error err => rfl
                  | ok b => rfl

/-! ## Several arrays -/

/-- The arrays `l` of the view become `bs`. -/
def place (v : View ByteArray ks) : List {k // k ∈ ks} → List ByteArray → View ByteArray ks
  | k :: l, b :: bs => place (Function.update v k b) l bs
  | _, _ => v

theorem place_self (v : View ByteArray ks) (l : List {k // k ∈ ks}) : place v l (l.map v) = v := by
  induction l with
  | nil => rfl
  | cons k l ih =>
      rw [List.map_cons, place, Function.update_eq_self]
      exact ih

/-- The rounds are those of the loop over the list of the arrays. -/
theorem adjustRounds_run {ρ : Type} (r : ρ) {l : List {k // k ∈ ks}} (hl : l.Nodup) (size : Nat)
    (v : View ByteArray ks) : (adjustRounds r l size).run v =
      (SequentialByteArrayReaderWithLock.adjustByteArray (l.map v) size).map fun bs =>
        (place v l bs, r) := by
  induction l generalizing v size with
  | nil => rfl
  | cons k l ih =>
      obtain ⟨hk, hl⟩ := List.nodup_cons.mp hl
      rw [adjustRounds, Prog.run, List.map_cons, SequentialByteArrayReaderWithLock.adjustByteArray]
      cases ByteArrayReaderWithLock.adjustByteArray (v k) size with
      | error err => rfl
      | ok b =>
          -- the arrays behind are still as they were
          have hrest : l.map (Function.update v k b) = l.map v := by
            refine List.map_congr_left fun k' hk' => Function.update_of_ne ?_ b v
            rintro rfl
            exact hk hk'
          simp only [Except.map, bind, Except.bind]
          generalize (if (v k).availableSizeToRead ≤ size then
            size - (v k).availableSizeToRead else 0) = left
          by_cases hleft : left = 0
          · rw [if_pos hleft, if_pos hleft]
            simp only [Prog.run, place]
            rw [← hrest, place_self]
          · rw [if_neg hleft, if_neg hleft, ih hl, hrest]
            cases SequentialByteArrayReaderWithLock.adjustByteArray (l.map v) left with
            | error err => rfl
            | ok bs => rfl

theorem sendAllSteps_run (hks : ks.Nodup) (answer : Answer Nat) (v : View ByteArray ks) :
    (sendAllSteps ks answer).run v = (do
      let _ ← SequentialByteArrayReaderWithLock.iovec (buffers v)
      ((Reader.sequential (buffers v)).write answer).map fun r =>
        unwound v (r.map fun x => (place v ks.attach x.1.buffers, x.2))) := by
  rw [sendAllSteps, Prog.run, Reader.write]
  cases hvec : SequentialByteArrayReaderWithLock.iovec (buffers v) with
  | error err => rfl
  | ok vec =>
      simp only [Except.map, bind, Except.bind]
      cases Stub.sendmsg answer with
      | error e => rfl
      | ok room =>
          cases room with
          | none =>
              simp only [Prog.run, unwound, Reader.buffers, buffers, place_self]
          | some room =>
              simp only [Prog.run, Reader.offered, Reader.adjustByteArray, hvec, bind, Except.bind]
              cases SequentialByteArrayReaderWithLock.gather (buffers v) vec with
              | error err => rfl
              | ok bytes =>
                  dsimp only
                  rw [adjustRounds_run _ (List.nodup_attach.mpr hks), ← buffers]
                  cases SequentialByteArrayReaderWithLock.adjustByteArray (buffers v) _ with
                  | error err => rfl
                  | ok bs => rfl

/-! ## Calls -/

theorem one_apply {ρ : Type} (k : Nat) (p : Prog Fault ByteArray ρ) (f : ρ → Reply)
    (s : Nat → ByteArray) : (one k p f).apply s =
      (p.run (s k)).map fun x => (Function.update s k x.1, f x.2) := by
  have hsame (v : View ByteArray [k]) : setSole v (sole v) = v := by
    funext ⟨k', hk'⟩
    obtain rfl := List.mem_singleton.mp hk'
    rfl
  have hover (b : ByteArray) : overwrite s (setSole (view [k] s) b) = Function.update s k b := by
    funext k'
    by_cases hk' : k' = k
    · subst hk'
      rw [Locking.overwrite_of_mem (List.mem_singleton_self k'), Function.update_self]
      rfl
    · rw [Locking.overwrite_of_not_mem (by simpa using hk'), Function.update_of_ne hk']
  have hget (v : View ByteArray [k]) (b : ByteArray) : sole (setSole v b) = b := rfl
  have hput (v : View ByteArray [k]) (b b' : ByteArray) :
      setSole (setSole v b) b' = setSole v b' := rfl
  have hrun := Prog.run_on hget hput hsame (p.map f) (view [k] s)
  rw [Prog.run_map] at hrun
  refine (congrArg (Except.map fun x => (overwrite s x.1, x.2)) hrun).trans ?_
  rw [sole, view]
  cases p.run (s k) with
  | error err => rfl
  | ok x => exact congrArg (fun s => Except.ok (s, f x.2)) (hover x.1)

theorem overwrite_place (s : Nat → ByteArray) (v : View ByteArray ks) (l : List {k // k ∈ ks})
    (bs : List ByteArray) : overwrite s (place v l bs) =
      updateAll (overwrite s v) (l.map Subtype.val) bs := by
  induction l generalizing v bs with
  | nil => rfl
  | cons k l ih =>
      cases bs with
      | nil => rfl
      | cons b bs =>
          rw [place, ih, Locking.overwrite_update, List.map_cons, updateAll]

/-- A call without other threads does what `alone` says. -/
theorem apply_eq_alone (c : Call) (s : Nat → ByteArray) : (code c).apply s = c.alone s := by
  cases c with
  | writeRaw k data =>
      rw [code, one_apply, ByteArray.writeRawSteps_run, Call.alone]
      cases (s k).writeRaw data with
      | error err => rfl
      | ok b => rfl
  | retrieveRaw k length =>
      rw [code, one_apply, ByteArray.retrieveRawSteps_run, Call.alone]
  | readableBytes k =>
      rw [code, one_apply, Call.alone]
      exact congrArg (fun s => Except.ok (s, _)) (Function.update_eq_self k s)
  | writeableBytes k =>
      rw [code, one_apply, Call.alone]
      exact congrArg (fun s => Except.ok (s, _)) (Function.update_eq_self k s)
  | receive io k answer =>
      rw [code, one_apply, receiveSteps_run, Call.alone]
      cases io.iovec (s k) with
      | error err => rfl
      | ok vec =>
          simp only [bind, Except.bind]
          cases SocketIO.read io (s k) answer with
          | error err => rfl
          | ok r => rfl
  | send io k answer =>
      rw [code, one_apply, sendSteps_run, Call.alone]
      cases io.iovec (s k) with
      | error err => rfl
      | ok vec =>
          simp only [bind, Except.bind]
          cases SocketIO.write io (s k) answer with
          | error err => rfl
          | ok r => rfl
  | sendAll ks nodup answer =>
      have hbuffers : buffers (view ks s) = ks.map s := List.attach_map_val
      rw [code, Op.apply, Prog.run_map, sendAllSteps_run nodup, hbuffers, Call.alone]
      cases SequentialByteArrayReaderWithLock.iovec (ks.map s) with
      | error err => rfl
      | ok vec =>
          simp only [bind, Except.bind]
          cases (Reader.sequential (ks.map s)).write answer with
          | error err => rfl
          | ok r =>
              cases r with
              | error e => exact congrArg (fun s => Except.ok (s, _)) (Locking.overwrite_view ks s)
              | ok x =>
                  have hplace := overwrite_place s (view ks s) ks.attach x.1.buffers
                  rw [Locking.overwrite_view, List.attach_map_subtype_val] at hplace
                  exact congrArg (fun s => Except.ok (s, _)) hplace

end SharedArrays

end Netpp
