import Netpp.Buffer.Fifo
import Netpp.Library.Endian

/-!
# Typed values in a byte array

The write methods put a value into the array as the bytes that lie in memory, an
integer after its conversion to network order; the retrieve methods take as many
bytes and convert them back, or return a default value if there are not as many. A
`float` or `double` is its bit pattern, and a `std::string` its characters. Before it
asks for the bytes of a string, `retrieveString` makes room for them.

The methods differ in the width and the type of the value only. `Value` and `Kind`
collect what can be written and retrieved, `wire` are the bytes of a value, and
`decode` is the value of some bytes.
-/

namespace Netpp

open Endian

namespace ByteArray

/-! ## Writing -/

/-- `writeRaw` of an unsigned integer of `n` bytes in network order. -/
def writeWord (o : Order) (n : Nat) (b : ByteArray) (v : Nat) : Except Fault ByteArray :=
  b.writeRaw (store o n (toNetwork o n v))

def writeInt8 (o : Order) (b : ByteArray) (value : Int8) : Except Fault ByteArray :=
  b.writeRaw (store o 1 value.toUInt8.toNat)

def writeInt16 (o : Order) (b : ByteArray) (value : Int16) : Except Fault ByteArray :=
  writeWord o 2 b value.toUInt16.toNat

def writeInt32 (o : Order) (b : ByteArray) (value : Int32) : Except Fault ByteArray :=
  writeWord o 4 b value.toUInt32.toNat

def writeInt64 (o : Order) (b : ByteArray) (value : Int64) : Except Fault ByteArray :=
  writeWord o 8 b value.toUInt64.toNat

def writeUInt8 (o : Order) (b : ByteArray) (value : UInt8) : Except Fault ByteArray :=
  b.writeRaw (store o 1 value.toNat)

def writeUInt16 (o : Order) (b : ByteArray) (value : UInt16) : Except Fault ByteArray :=
  writeWord o 2 b value.toNat

def writeUInt32 (o : Order) (b : ByteArray) (value : UInt32) : Except Fault ByteArray :=
  writeWord o 4 b value.toNat

def writeUInt64 (o : Order) (b : ByteArray) (value : UInt64) : Except Fault ByteArray :=
  writeWord o 8 b value.toNat

def writeFloat (o : Order) (b : ByteArray) (bits : UInt32) : Except Fault ByteArray :=
  b.writeRaw (store o 4 bits.toNat)

def writeDouble (o : Order) (b : ByteArray) (bits : UInt64) : Except Fault ByteArray :=
  b.writeRaw (store o 8 bits.toNat)

def writeString (b : ByteArray) (value : List UInt8) : Except Fault ByteArray :=
  b.writeRaw value

/-! ## Retrieving -/

/-- `retrieveRaw` of a variable of `n` bytes; `none` if it returns another count. -/
def retrieveVariable (b : ByteArray) (n : Nat) :
    Except Fault (ByteArray × Option (List UInt8)) :=
  (b.retrieveRaw n).map fun (b', count, bytes) => (b', if count ≠ n then none else some bytes)

/-- The value of a variable, or zero. -/
def retrieveAs {α : Type} (b : ByteArray) (n : Nat) (zero : α) (f : List UInt8 → α) :
    Except Fault (ByteArray × α) :=
  (b.retrieveVariable n).map fun (b', bytes) => (b', (bytes.map f).getD zero)

def retrieveInt8 (o : Order) (b : ByteArray) : Except Fault (ByteArray × Int8) :=
  b.retrieveAs 1 0 fun bytes => (UInt8.ofNat (load o bytes)).toInt8

def retrieveInt16 (o : Order) (b : ByteArray) : Except Fault (ByteArray × Int16) :=
  b.retrieveAs 2 0 fun bytes => (UInt16.ofNat (ofNetwork o 2 (load o bytes))).toInt16

def retrieveInt32 (o : Order) (b : ByteArray) : Except Fault (ByteArray × Int32) :=
  b.retrieveAs 4 0 fun bytes => (UInt32.ofNat (ofNetwork o 4 (load o bytes))).toInt32

def retrieveInt64 (o : Order) (b : ByteArray) : Except Fault (ByteArray × Int64) :=
  b.retrieveAs 8 0 fun bytes => (UInt64.ofNat (ofNetwork o 8 (load o bytes))).toInt64

def retrieveUInt8 (o : Order) (b : ByteArray) : Except Fault (ByteArray × UInt8) :=
  b.retrieveAs 1 0 fun bytes => UInt8.ofNat (load o bytes)

def retrieveUInt16 (o : Order) (b : ByteArray) : Except Fault (ByteArray × UInt16) :=
  b.retrieveAs 2 0 fun bytes => UInt16.ofNat (ofNetwork o 2 (load o bytes))

def retrieveUInt32 (o : Order) (b : ByteArray) : Except Fault (ByteArray × UInt32) :=
  b.retrieveAs 4 0 fun bytes => UInt32.ofNat (ofNetwork o 4 (load o bytes))

def retrieveUInt64 (o : Order) (b : ByteArray) : Except Fault (ByteArray × UInt64) :=
  b.retrieveAs 8 0 fun bytes => UInt64.ofNat (ofNetwork o 8 (load o bytes))

def retrieveFloat (o : Order) (b : ByteArray) : Except Fault (ByteArray × UInt32) :=
  b.retrieveAs 4 0 fun bytes => UInt32.ofNat (load o bytes)

def retrieveDouble (o : Order) (b : ByteArray) : Except Fault (ByteArray × UInt64) :=
  b.retrieveAs 8 0 fun bytes => UInt64.ofNat (load o bytes)

/-- `std::string::max_size()`. -/
def maxStringSize : Nat := 2 ^ 63 - 1

/-- `buffer.resize(length)`, of an empty string. -/
def resizeString (length : Nat) : Except Fault Unit :=
  if maxStringSize < length then .error .lengthError
  else if memoryLimit ≤ length then .error .badAlloc
  else .ok ()

def retrieveString (b : ByteArray) (length : Nat) : Except Fault (ByteArray × List UInt8) := do
  resizeString length
  let (b', count, bytes) ← b.retrieveRaw length
  .ok (b', if count ≠ 0 then bytes else [])

/-! ## All methods -/

/-- What can be written. -/
inductive Value where
  | int8 (value : Int8)
  | int16 (value : Int16)
  | int32 (value : Int32)
  | int64 (value : Int64)
  | uint8 (value : UInt8)
  | uint16 (value : UInt16)
  | uint32 (value : UInt32)
  | uint64 (value : UInt64)
  | float (bits : UInt32)
  | double (bits : UInt64)
  | string (value : List UInt8)
  | raw (data : List UInt8)
  deriving DecidableEq

/-- What can be asked for. -/
inductive Kind where
  | int8
  | int16
  | int32
  | int64
  | uint8
  | uint16
  | uint32
  | uint64
  | float
  | double
  | string (length : Nat)
  | raw (length : Nat)
  deriving DecidableEq

/-- The number of bytes that are asked for. -/
def Kind.size : Kind → Nat
  | .int8 | .uint8 => 1
  | .int16 | .uint16 => 2
  | .int32 | .uint32 | .float => 4
  | .int64 | .uint64 | .double => 8
  | .string length | .raw length => length

/-- There is memory for the bytes that are asked for. -/
def Kind.Fits : Kind → Prop
  | .string length => length < memoryLimit
  | _ => True

instance : DecidablePred Kind.Fits
  | .string length => inferInstanceAs (Decidable (length < memoryLimit))
  | .int8 | .int16 | .int32 | .int64 | .uint8 | .uint16 | .uint32 | .uint64
  | .float | .double | .raw _ => .isTrue trivial

/-- What is returned when there are not enough bytes. -/
def Kind.default : Kind → Value
  | .int8 => .int8 0
  | .int16 => .int16 0
  | .int32 => .int32 0
  | .int64 => .int64 0
  | .uint8 => .uint8 0
  | .uint16 => .uint16 0
  | .uint32 => .uint32 0
  | .uint64 => .uint64 0
  | .float => .float 0
  | .double => .double 0
  | .string _ => .string []
  | .raw _ => .raw []

def Value.kind : Value → Kind
  | .int8 _ => .int8
  | .int16 _ => .int16
  | .int32 _ => .int32
  | .int64 _ => .int64
  | .uint8 _ => .uint8
  | .uint16 _ => .uint16
  | .uint32 _ => .uint32
  | .uint64 _ => .uint64
  | .float _ => .float
  | .double _ => .double
  | .string value => .string value.length
  | .raw data => .raw data.length

/-- The write method of the value. -/
def write (o : Order) (b : ByteArray) : Value → Except Fault ByteArray
  | .int8 value => b.writeInt8 o value
  | .int16 value => b.writeInt16 o value
  | .int32 value => b.writeInt32 o value
  | .int64 value => b.writeInt64 o value
  | .uint8 value => b.writeUInt8 o value
  | .uint16 value => b.writeUInt16 o value
  | .uint32 value => b.writeUInt32 o value
  | .uint64 value => b.writeUInt64 o value
  | .float bits => b.writeFloat o bits
  | .double bits => b.writeDouble o bits
  | .string value => b.writeString value
  | .raw data => b.writeRaw data

/-- A value together with the array it was taken from. -/
def tagged {α : Type} (f : α → Value) (r : Except Fault (ByteArray × α)) :
    Except Fault (ByteArray × Value) :=
  r.map fun (b, v) => (b, f v)

/-- The retrieve method of the kind; a raw block is what the caller's buffer gets. -/
def retrieve (o : Order) (b : ByteArray) : Kind → Except Fault (ByteArray × Value)
  | .int8 => tagged .int8 (b.retrieveInt8 o)
  | .int16 => tagged .int16 (b.retrieveInt16 o)
  | .int32 => tagged .int32 (b.retrieveInt32 o)
  | .int64 => tagged .int64 (b.retrieveInt64 o)
  | .uint8 => tagged .uint8 (b.retrieveUInt8 o)
  | .uint16 => tagged .uint16 (b.retrieveUInt16 o)
  | .uint32 => tagged .uint32 (b.retrieveUInt32 o)
  | .uint64 => tagged .uint64 (b.retrieveUInt64 o)
  | .float => tagged .float (b.retrieveFloat o)
  | .double => tagged .double (b.retrieveDouble o)
  | .string length => tagged .string (b.retrieveString length)
  | .raw length => tagged .raw ((b.retrieveRaw length).map fun (b', _, bytes) => (b', bytes))

/-! ## The bytes of a value -/

/-- The bytes of a value: an integer has its most significant byte first on every
machine, a floating point number is as it lies in memory. -/
def Value.wire (o : Order) : Value → List UInt8
  | .int8 value => toBig 1 value.toUInt8.toNat
  | .int16 value => toBig 2 value.toUInt16.toNat
  | .int32 value => toBig 4 value.toUInt32.toNat
  | .int64 value => toBig 8 value.toUInt64.toNat
  | .uint8 value => toBig 1 value.toNat
  | .uint16 value => toBig 2 value.toNat
  | .uint32 value => toBig 4 value.toNat
  | .uint64 value => toBig 8 value.toNat
  | .float bits => store o 4 bits.toNat
  | .double bits => store o 8 bits.toNat
  | .string value => value
  | .raw data => data

/-- The value of a kind that the bytes are those of. -/
def Kind.decode (o : Order) (bytes : List UInt8) : Kind → Value
  | .int8 => .int8 (UInt8.ofNat (ofBig bytes)).toInt8
  | .int16 => .int16 (UInt16.ofNat (ofBig bytes)).toInt16
  | .int32 => .int32 (UInt32.ofNat (ofBig bytes)).toInt32
  | .int64 => .int64 (UInt64.ofNat (ofBig bytes)).toInt64
  | .uint8 => .uint8 (UInt8.ofNat (ofBig bytes))
  | .uint16 => .uint16 (UInt16.ofNat (ofBig bytes))
  | .uint32 => .uint32 (UInt32.ofNat (ofBig bytes))
  | .uint64 => .uint64 (UInt64.ofNat (ofBig bytes))
  | .float => .float (UInt32.ofNat (load o bytes))
  | .double => .double (UInt64.ofNat (load o bytes))
  | .string _ => .string bytes
  | .raw _ => .raw bytes

theorem wire_length (o : Order) (v : Value) : (v.wire o).length = v.kind.size := by
  cases v <;> simp [Value.wire, Value.kind, Kind.size]

/-- The bytes of a value stand for the value. -/
theorem decode_wire (o : Order) (v : Value) : v.kind.decode o (v.wire o) = v := by
  cases v with
  | int8 value =>
      simp only [Value.kind, Kind.decode, Value.wire]
      rw [ofBig_toBig (UInt8.toNat_lt _), UInt8.ofNat_toNat, Int8.toInt8_toUInt8]
  | int16 value =>
      simp only [Value.kind, Kind.decode, Value.wire]
      rw [ofBig_toBig (UInt16.toNat_lt _), UInt16.ofNat_toNat, Int16.toInt16_toUInt16]
  | int32 value =>
      simp only [Value.kind, Kind.decode, Value.wire]
      rw [ofBig_toBig (UInt32.toNat_lt _), UInt32.ofNat_toNat, Int32.toInt32_toUInt32]
  | int64 value =>
      simp only [Value.kind, Kind.decode, Value.wire]
      rw [ofBig_toBig (UInt64.toNat_lt _), UInt64.ofNat_toNat, Int64.toInt64_toUInt64]
  | uint8 value =>
      simp only [Value.kind, Kind.decode, Value.wire]
      rw [ofBig_toBig (UInt8.toNat_lt _), UInt8.ofNat_toNat]
  | uint16 value =>
      simp only [Value.kind, Kind.decode, Value.wire]
      rw [ofBig_toBig (UInt16.toNat_lt _), UInt16.ofNat_toNat]
  | uint32 value =>
      simp only [Value.kind, Kind.decode, Value.wire]
      rw [ofBig_toBig (UInt32.toNat_lt _), UInt32.ofNat_toNat]
  | uint64 value =>
      simp only [Value.kind, Kind.decode, Value.wire]
      rw [ofBig_toBig (UInt64.toNat_lt _), UInt64.ofNat_toNat]
  | float bits =>
      simp only [Value.kind, Kind.decode, Value.wire]
      rw [load_store o (UInt32.toNat_lt _), UInt32.ofNat_toNat]
  | double bits =>
      simp only [Value.kind, Kind.decode, Value.wire]
      rw [load_store o (UInt64.toNat_lt _), UInt64.ofNat_toNat]
  | string value => rfl
  | raw data => rfl

end ByteArray

end Netpp
