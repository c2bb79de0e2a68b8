import Mathlib.Data.Nat.Digits.Defs
import Mathlib.Tactic.Common

/-!
# Byte order

A number of `n` bytes is stored in memory with its least significant byte first or
last. `toBig n v` are the bytes of `v` in the order of a network, and `store` and
`load` move a number to and from the memory of a machine of either order. Such a
machine converts a number to network order by swapping its bytes, if it has to;
`store_toNetwork` and `ofNetwork_load` say that the bytes it then stores, and those
it reads, are in network order on every machine.
-/

namespace Endian

/-- The order of the bytes of a machine. -/
inductive Order where
  | little
  | big
  deriving DecidableEq

/-- The `n` low bytes of a number, the least significant one first. -/
def toLittle : Nat → Nat → List UInt8
  | 0, _ => []
  | n + 1, v => UInt8.ofNat v :: toLittle n (v / 256)

def ofLittle (bytes : List UInt8) : Nat := Nat.ofDigits 256 (bytes.map UInt8.toNat)

/-- The `n` low bytes of a number, the most significant one first. -/
def toBig (n v : Nat) : List UInt8 := (toLittle n v).reverse

def ofBig (bytes : List UInt8) : Nat := ofLittle bytes.reverse

/-- What a number of `n` bytes looks like in memory. -/
def store : Order → Nat → Nat → List UInt8
  | .little => toLittle
  | .big => toBig

def load : Order → List UInt8 → Nat
  | .little => ofLittle
  | .big => ofBig

/-- The number whose `n` bytes are those of `v` in the other order. -/
def swap (n v : Nat) : Nat := ofLittle (toBig n v)

/-- A number of the machine in network order. -/
def toNetwork : Order → Nat → Nat → Nat
  | .little => swap
  | .big => fun _ v => v

/-- A number in network order as one of the machine. -/
def ofNetwork : Order → Nat → Nat → Nat
  | .little => swap
  | .big => fun _ v => v

@[simp] theorem toLittle_length (n v : Nat) : (toLittle n v).length = n := by
  induction n generalizing v with
  | zero => rfl
  | succ n ih => rw [toLittle, List.length_cons, ih]

@[simp] theorem toBig_length (n v : Nat) : (toBig n v).length = n := by
  rw [toBig, List.length_reverse, toLittle_length]

@[simp] theorem store_length (o : Order) (n v : Nat) : (store o n v).length = n := by
  cases o with
  | little => exact toLittle_length n v
  | big => exact toBig_length n v

theorem ofLittle_cons (byte : UInt8) (bytes : List UInt8) :
    ofLittle (byte :: bytes) = byte.toNat + 256 * ofLittle bytes := by
  rw [ofLittle, List.map_cons, Nat.ofDigits_cons]
  rfl

theorem ofLittle_toLittle {n v : Nat} (h : v < 256 ^ n) : ofLittle (toLittle n v) = v := by
  induction n generalizing v with
  | zero =>
      rw [Nat.pow_zero, Nat.lt_one_iff] at h
      rw [h]
      rfl
  | succ n ih =>
      have hdiv : v / 256 < 256 ^ n := by
        rw [Nat.pow_succ] at h
        omega
      rw [toLittle, ofLittle_cons, ih hdiv, UInt8.toNat_ofNat']
      omega

theorem toLittle_ofLittle (bytes : List UInt8) :
    toLittle bytes.length (ofLittle bytes) = bytes := by
  induction bytes with
  | nil => rfl
  | cons byte bytes ih =>
      have hlt := byte.toNat_lt
      have hbyte : UInt8.ofNat (byte.toNat + 256 * ofLittle bytes) = byte := by
        rw [UInt8.ofNat_eq_iff_mod_eq_toNat]
        omega
      have hrest : (byte.toNat + 256 * ofLittle bytes) / 256 = ofLittle bytes := by omega
      rw [List.length_cons, toLittle, ofLittle_cons, hbyte, hrest, ih]

theorem ofBig_toBig {n v : Nat} (h : v < 256 ^ n) : ofBig (toBig n v) = v := by
  rw [ofBig, toBig, List.reverse_reverse, ofLittle_toLittle h]

/-- A stored number is read back. -/
theorem load_store (o : Order) {n v : Nat} (h : v < 256 ^ n) : load o (store o n v) = v := by
  cases o with
  | little => exact ofLittle_toLittle h
  | big => exact ofBig_toBig h

/-- What a machine stores after the conversion is in network order. -/
theorem store_toNetwork (o : Order) (n v : Nat) : store o n (toNetwork o n v) = toBig n v := by
  cases o with
  | big => rfl
  | little =>
      have h := toLittle_ofLittle (toBig n v)
      rwa [toBig_length] at h

/-- What a machine reads before the conversion is in network order. -/
theorem ofNetwork_load (o : Order) (bytes : List UInt8) :
    ofNetwork o bytes.length (load o bytes) = ofBig bytes := by
  cases o with
  | big => rfl
  | little =>
      change ofLittle (toBig bytes.length (ofLittle bytes)) = ofBig bytes
      rw [toBig, toLittle_ofLittle]
      rfl

end Endian
