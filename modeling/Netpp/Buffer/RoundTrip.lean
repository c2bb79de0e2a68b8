import Netpp.Buffer.Fifo
import Netpp.Buffer.Typed

/-!
# Typed values come back as they were written

A write method appends the bytes of its value, and a retrieve method takes the first
bytes and decodes them, or returns its default value and takes nothing. On the
typed level a byte array is therefore a queue of values. The exception is
`retrieveString`: it makes room for as many bytes as it is asked for before anyone
looks whether they are there, and throws if there is no memory for them.
-/

namespace Netpp

open Endian

namespace ByteArray

variable {limit : Nat} {b b' : ByteArray} {q : List UInt8} {o : Order}

/-- A byte is the same in both orders. -/
theorem store_one (o : Order) (v : Nat) : store o 1 v = toBig 1 v := by
  cases o <;> rfl

/-- Every write method appends the bytes of the value. -/
theorem write_eq (o : Order) (b : ByteArray) (v : Value) : b.write o v = b.writeRaw (v.wire o) := by
  cases v with
  | int8 value => exact congrArg b.writeRaw (store_one o _)
  | uint8 value => exact congrArg b.writeRaw (store_one o _)
  | int16 value => exact congrArg b.writeRaw (store_toNetwork o 2 _)
  | int32 value => exact congrArg b.writeRaw (store_toNetwork o 4 _)
  | int64 value => exact congrArg b.writeRaw (store_toNetwork o 8 _)
  | uint16 value => exact congrArg b.writeRaw (store_toNetwork o 2 _)
  | uint32 value => exact congrArg b.writeRaw (store_toNetwork o 4 _)
  | uint64 value => exact congrArg b.writeRaw (store_toNetwork o 8 _)
  | _ => rfl

theorem load_one (o : Order) {bytes : List UInt8} (h : bytes.length = 1) :
    load o bytes = ofBig bytes := by
  obtain ⟨byte, rfl⟩ := List.length_eq_one_iff.mp h
  cases o <;> rfl

theorem tagged_ok {α : Type} (f : α → Value) (zero : α) (g : List UInt8 → α) {n : Nat}
    {bytes : List UInt8} (h : b.retrieveRaw n = .ok (b', n, bytes)) :
    tagged f (b.retrieveAs n zero g) = .ok (b', f (g bytes)) := by
  simp [tagged, retrieveAs, retrieveVariable, h, Except.map]

theorem tagged_short {α : Type} (f : α → Value) (zero : α) (g : List UInt8 → α) {n : Nat}
    (hn : n ≠ 0) (h : b.retrieveRaw n = .ok (b', 0, [])) :
    tagged f (b.retrieveAs n zero g) = .ok (b', f zero) := by
  simp [tagged, retrieveAs, retrieveVariable, h, Except.map, Ne.symm hn]

theorem resizeString_ok {length : Nat} (h : length < memoryLimit) :
    resizeString length = .ok () := by
  have hlimit : memoryLimit ≤ maxStringSize := by decide
  rw [resizeString, if_neg (by omega), if_neg (by omega)]

/-- The room for a string that does not fit cannot be made. -/
theorem retrieve_of_not_fits {k : Kind} (hk : ¬k.Fits) :
    ∃ fault, b.retrieve o k = .error fault := by
  cases k with
  | string length =>
      by_cases hmax : maxStringSize < length
      · have hresize : resizeString length = .error .lengthError := if_pos hmax
        exact ⟨.lengthError, by rw [retrieve, retrieveString, hresize]; rfl⟩
      · have hresize : resizeString length = .error .badAlloc := by
          rw [resizeString, if_neg hmax, if_pos (Nat.not_lt.mp hk)]
        exact ⟨.badAlloc, by rw [retrieve, retrieveString, hresize]; rfl⟩
  | _ => exact absurd trivial hk

/-- A retrieve method that gets its bytes decodes them. -/
theorem retrieve_of_ok {k : Kind} {bytes : List UInt8} (hfits : k.Fits)
    (hlength : bytes.length = k.size) (h : b.retrieveRaw k.size = .ok (b', k.size, bytes)) :
    b.retrieve o k = .ok (b', k.decode o bytes) := by
  have hword : ofNetwork o k.size (load o bytes) = ofBig bytes := by
    rw [← hlength, ofNetwork_load]
  cases k with
  | int8 =>
      rw [retrieve, retrieveInt8, Kind.decode, ← load_one o hlength]
      exact tagged_ok .int8 0 _ h
  | int16 =>
      rw [retrieve, retrieveInt16, Kind.decode, ← hword]
      exact tagged_ok .int16 0 _ h
  | int32 =>
      rw [retrieve, retrieveInt32, Kind.decode, ← hword]
      exact tagged_ok .int32 0 _ h
  | int64 =>
      rw [retrieve, retrieveInt64, Kind.decode, ← hword]
      exact tagged_ok .int64 0 _ h
  | uint8 =>
      rw [retrieve, retrieveUInt8, Kind.decode, ← load_one o hlength]
      exact tagged_ok .uint8 0 _ h
  | uint16 =>
      rw [retrieve, retrieveUInt16, Kind.decode, ← hword]
      exact tagged_ok .uint16 0 _ h
  | uint32 =>
      rw [retrieve, retrieveUInt32, Kind.decode, ← hword]
      exact tagged_ok .uint32 0 _ h
  | uint64 =>
      rw [retrieve, retrieveUInt64, Kind.decode, ← hword]
      exact tagged_ok .uint64 0 _ h
  | float => exact tagged_ok .float 0 _ h
  | double => exact tagged_ok .double 0 _ h
  | string length =>
      rw [Kind.size] at h hlength
      rw [retrieve, retrieveString, resizeString_ok hfits, h]
      by_cases hzero : length = 0
      · have hempty : bytes = [] := List.length_eq_zero_iff.mp (hlength.trans hzero)
        simp [hzero, hempty, bind, Except.bind, Except.map, tagged, Kind.decode]
      · simp [hzero, bind, Except.bind, Except.map, tagged, Kind.decode]
  | raw length =>
      rw [Kind.size] at h
      rw [retrieve, h]
      rfl

/-- A retrieve method that gets no bytes returns its default value. -/
theorem retrieve_of_short {k : Kind} (hfits : k.Fits) (hk : k.size ≠ 0)
    (h : b.retrieveRaw k.size = .ok (b', 0, [])) : b.retrieve o k = .ok (b', k.default) := by
  cases k with
  | int8 => exact tagged_short .int8 0 _ hk h
  | int16 => exact tagged_short .int16 0 _ hk h
  | int32 => exact tagged_short .int32 0 _ hk h
  | int64 => exact tagged_short .int64 0 _ hk h
  | uint8 => exact tagged_short .uint8 0 _ hk h
  | uint16 => exact tagged_short .uint16 0 _ hk h
  | uint32 => exact tagged_short .uint32 0 _ hk h
  | uint64 => exact tagged_short .uint64 0 _ hk h
  | float => exact tagged_short .float 0 _ hk h
  | double => exact tagged_short .double 0 _ hk h
  | string length =>
      rw [Kind.size] at h
      rw [retrieve, retrieveString, resizeString_ok hfits, h]
      rfl
  | raw length =>
      rw [Kind.size] at h
      rw [retrieve, h]
      rfl

/-! ## On an array that holds a queue -/

/-- A value that is written is appended. -/
theorem Holds.write (h : Holds limit b q) (v : Value) (hlimit : limit ≤ 2 ^ 62)
    (hsize : q.length + (v.wire o).length < limit) :
    ∃ b', b.write o v = .ok b' ∧ Holds limit b' (q ++ v.wire o) := by
  rw [write_eq]
  exact h.writeRaw (v.wire o) hlimit hsize

/-- If there are enough bytes, the first ones are decoded. -/
theorem Holds.retrieve (h : Holds limit b q) {k : Kind} (hlimit : limit ≤ 2 ^ 62)
    (hfits : k.Fits) (hk : k.size ≤ q.length) :
    ∃ b', b.retrieve o k = .ok (b', k.decode o (q.take k.size)) ∧
      Holds limit b' (q.drop k.size) := by
  obtain ⟨b', hok, hholds⟩ := h.retrieveRaw hlimit hk
  exact ⟨b', retrieve_of_ok hfits (List.length_take_of_le hk) hok, hholds⟩

/-- If there are not, nothing is consumed. -/
theorem Holds.retrieve_of_lt (h : Holds limit b q) {k : Kind} (hfits : k.Fits)
    (hk : q.length < k.size) : b.retrieve o k = .ok (b, k.default) :=
  retrieve_of_short hfits (by omega) (h.retrieveRaw_of_lt hk)

/-! ## Runs of typed calls -/

namespace Typed

inductive Call where
  | write (v : Value)
  | retrieve (k : Kind)

/-- A call and its reply; a write that needs more memory than there is fails. -/
def call (o : Order) (b : ByteArray) : Call → Except Fault (ByteArray × Option Value)
  | .write v =>
      if memoryLimit ≤ b.readableBytes + (v.wire o).length then .error .badAlloc
      else (b.write o v).map fun b' => (b', none)
  | .retrieve k => (b.retrieve o k).map fun (b', v) => (b', some v)

def step (o : Order) (b : ByteArray) (c : Call) : Except Fault ByteArray :=
  (call o b c).map Prod.fst

/-- The bytes of the values in a queue. -/
def bytes (o : Order) (values : List Value) : List UInt8 := values.flatMap (Value.wire o)

/-- The number of bytes of the values in a queue. -/
def size (values : List Value) : Nat := (values.map fun v => v.kind.size).sum

/-- The abstract model: a queue of values. -/
def answer (values : List Value) : Call → List Value × Option Value
  | .write v => (values ++ [v], none)
  | .retrieve k =>
      if size values < k.size then (values, some k.default)
      else
        match values with
        | [] => ([], some k.default)
        | v :: values => (values, some v)

/-- A retrieve method asks for the kind of the next value, or for more bytes than
there are. -/
def Matches (values : List Value) : Call → Prop
  | .write _ => True
  | .retrieve k => size values < k.size ∨ values.head?.map Value.kind = some k

instance (values : List Value) : ∀ c, Decidable (Matches values c)
  | .write _ => .isTrue trivial
  | .retrieve k =>
      inferInstanceAs (Decidable (size values < k.size ∨ values.head?.map Value.kind = some k))

/-- The values that have been written and not retrieved. -/
def record (_ : ByteArray) (c : Call) (values : List Value) : List Value := (answer values c).1

/-- The reply is that of the queue of values, and the unread bytes are those of the
values that are left. Only a write fails, when memory is exhausted. -/
def Answered (o : Order) (s : ByteArray × List Value) (c : Call) : Prop :=
  match call o s.1 c with
  | .ok (b', reply) => reply = (answer s.2 c).2 ∧ b'.unread = bytes o (answer s.2 c).1
  | .error fault => fault = .badAlloc ∧
      ∃ v, c = .write v ∧ memoryLimit ≤ s.1.readableBytes + (v.wire o).length

/-- No string is asked for that does not fit into memory. -/
def Call.Fits : Call → Prop
  | .write _ => True
  | .retrieve k => k.Fits

instance : DecidablePred Call.Fits
  | .write _ => .isTrue trivial
  | .retrieve k => inferInstanceAs (Decidable k.Fits)

theorem bytes_length (o : Order) (values : List Value) : (bytes o values).length = size values := by
  simp [bytes, size, List.length_flatMap, wire_length]

theorem bytes_append (o : Order) (values : List Value) (v : Value) :
    bytes o (values ++ [v]) = bytes o values ++ v.wire o := by
  simp [bytes]

theorem bytes_cons (o : Order) (v : Value) (values : List Value) :
    bytes o (v :: values) = v.wire o ++ bytes o values := rfl

/-- Step lemma: a typed call is answered as the queue of values answers it, and the
array holds the bytes of what is left. -/
theorem answered_of_holds {values : List Value} {c : Call}
    (h : Holds memoryLimit b (bytes o values)) (hmatches : Matches values c) (hfits : c.Fits) :
    Answered o (b, values) c ∧ ∀ b', step o b c = .ok b' →
      Holds memoryLimit b' (bytes o (answer values c).1) := by
  cases c with
  | write v =>
      by_cases hmemory : memoryLimit ≤ b.readableBytes + (v.wire o).length
      · have hcall : call o b (.write v) = .error .badAlloc := if_pos hmemory
        rw [Answered, step, hcall]
        exact ⟨⟨rfl, v, rfl, hmemory⟩, fun b' hok => by cases hok⟩
      · have hreadable := h.readableBytes
        obtain ⟨b', hok, hholds⟩ := h.write (o := o) v memoryLimit_le (by omega)
        have hcall : call o b (.write v) = .ok (b', none) := by
          rw [call, if_neg hmemory, hok]
          rfl
        rw [← bytes_append] at hholds
        rw [Answered, step, hcall]
        refine ⟨⟨rfl, hholds.1⟩, fun b'' hok => ?_⟩
        cases hok
        exact hholds
  | retrieve k =>
      rcases hmatches with hshort | hhead
      · have hlt : (bytes o values).length < k.size := by rwa [bytes_length]
        have hcall : call o b (.retrieve k) = .ok (b, some k.default) := by
          rw [call, h.retrieve_of_lt hfits hlt]
          rfl
        have hanswer : answer values (.retrieve k) = (values, some k.default) := if_pos hshort
        rw [Answered, step, hcall, hanswer]
        refine ⟨⟨rfl, h.1⟩, fun b'' hok => ?_⟩
        cases hok
        exact h
      · cases values with
        | nil => cases hhead
        | cons v values =>
            cases hhead
            have hlength := wire_length o v
            rw [bytes_cons] at h
            obtain ⟨b', hok, hholds⟩ :=
              h.retrieve (o := o) (k := v.kind) memoryLimit_le hfits (by simp [hlength])
            rw [List.take_left' hlength, decode_wire] at hok
            rw [List.drop_left' hlength] at hholds
            have hcall : call o b (.retrieve v.kind) = .ok (b', some v) := by
              rw [call, hok]
              rfl
            have henough : ¬ size (v :: values) < v.kind.size := by simp [size]
            have hanswer : answer (v :: values) (.retrieve v.kind) = (values, some v) :=
              if_neg henough
            rw [Answered, step, hcall, hanswer]
            refine ⟨⟨rfl, hholds.1⟩, fun b'' hok => ?_⟩
            cases hok
            exact hholds

/-- A string that does not fit is not answered. -/
theorem fits_of_answered {s : ByteArray × List Value} {c : Call} (h : Answered o s c) :
    c.Fits := by
  cases c with
  | write v => trivial
  | retrieve k =>
      by_contra hfits
      obtain ⟨fault, hfault⟩ := retrieve_of_not_fits (b := s.1) (o := o) hfits
      rw [Answered, call, hfault] at h
      obtain ⟨-, v, hwrite, -⟩ := h
      cases hwrite

/-- In every run on a fresh array whose retrievals ask for what was written, or for too
much, every value comes back as it was written, and the bytes are in network order, exactly if
no string is asked for that does not fit into memory. -/
theorem round_trip_iff (o : Order) (calls : List Call)
    (hmatches : Run.Always (Run.recorded (step o) record) (fun s c => Matches s.2 c)
      (new, []) calls) :
    Run.Always (Run.recorded (step o) record) (Answered o) (new, []) calls ↔
      Run.Always (Run.recorded (step o) record) (fun _ c => c.Fits) (new, []) calls := by
  refine Run.always_iff_of_always (J := fun s => Holds memoryLimit s.1 (bytes o s.2))
    (M := fun s c => Matches s.2 c) ?_ ?_ (new_holds _) hmatches
  · intro s c s' hholds hmatch hfits hok
    obtain ⟨hstep, hrecord⟩ := Run.recorded_ok hok
    rw [hrecord]
    exact (answered_of_holds hholds hmatch hfits).2 _ hstep
  · intro s c hholds hmatch
    exact ⟨fits_of_answered, fun hfits => (answered_of_holds hholds hmatch hfits).1⟩

/-- A negative number and a string, and a request for more than is left. -/
theorem round_trip_three : Run.Always (Run.recorded (step .little) record) (Answered .little)
    (new, []) [.write (.int16 (-2)), .write (.string [104, 105]), .retrieve .int16,
      .retrieve .int32, .retrieve (.string 2)] :=
  (round_trip_iff .little [.write (.int16 (-2)), .write (.string [104, 105]), .retrieve .int16,
    .retrieve .int32, .retrieve (.string 2)] (by decide +kernel)).mpr (by decide +kernel)

/-- A string of 2^63 bytes is asked for, and none is there. -/
theorem round_trip_fails : ¬∀ (o : Order) (calls : List Call),
    Run.Always (Run.recorded (step o) record) (fun s c => Matches s.2 c) (new, []) calls →
      Run.Always (Run.recorded (step o) record) (Answered o) (new, []) calls := by
  intro h
  have hanswered := (h .little [.retrieve (.string (2 ^ 63))] (by decide +kernel)).1
  obtain ⟨-, v, hwrite, -⟩ := hanswered
  cases hwrite

end Typed

end ByteArray

end Netpp
