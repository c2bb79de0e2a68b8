import Mathlib.Data.List.Basic
import Netpp.Library.Text

/-!
# Characters of a URI and percent-encoding

The predicates say which characters a component may consist of, for the classic locale,
where no byte above 127 is a letter. What is encoded for a component consists of these,
and is decoded again if the percent sign is one of the characters to be encoded, which
it is for every component but the host.
-/

namespace Netpp

open Text (ascii isDigit)

structure UriException where
  what : List UInt8
  deriving DecidableEq

namespace Uri

/-! ## Characters -/

def isalpha (c : UInt8) : Bool := (65 ≤ c && c ≤ 90) || (97 ≤ c && c ≤ 122)

def isalnum (c : UInt8) : Bool := isalpha c || isDigit c

def isUnreserved (c : UInt8) : Bool := isalnum c || (ascii "-._~").contains c

def isGenDelim (c : UInt8) : Bool := (ascii ":/?#[]@").contains c

def isSubDelim (c : UInt8) : Bool := (ascii "!$&'()*+,;=").contains c

def isReserved (c : UInt8) : Bool := isGenDelim c || isSubDelim c

def isSchemeCharacter (c : UInt8) : Bool := isalnum c || (ascii "+-.").contains c

def isUserInfoCharacter (c : UInt8) : Bool :=
  isUnreserved c || isSubDelim c || (ascii "%:").contains c

def isAuthorityCharacter (c : UInt8) : Bool :=
  isUnreserved c || isSubDelim c || (ascii "%@:[]").contains c

def isPathCharacter (c : UInt8) : Bool :=
  isUnreserved c || isSubDelim c || (ascii "%/:@").contains c

def isQueryCharacter (c : UInt8) : Bool := isPathCharacter c || (ascii "?").contains c

def isFragmentCharacter (c : UInt8) : Bool := isQueryCharacter c

theorem contains_mono {chars chars' : List UInt8} (h : chars ⊆ chars') {c : UInt8}
    (hc : chars.contains c = true) : chars'.contains c = true :=
  List.contains_iff_mem.mpr (h (List.contains_iff_mem.mp hc))

theorem isUnreserved_of_isalnum {c : UInt8} (h : isalnum c = true) : isUnreserved c = true := by
  rw [isUnreserved, h, Bool.true_or]

theorem isUserInfoCharacter_of_isUnreserved {c : UInt8} (h : isUnreserved c = true) :
    isUserInfoCharacter c = true := by
  rw [isUserInfoCharacter, h, Bool.true_or, Bool.true_or]

theorem isAuthorityCharacter_of_isUserInfoCharacter {c : UInt8}
    (h : isUserInfoCharacter c = true) : isAuthorityCharacter c = true := by
  rw [isAuthorityCharacter, Bool.or_eq_true]
  rcases (Bool.or_eq_true ..).mp h with hchar | hchar
  · exact .inl hchar
  · exact .inr (contains_mono (by decide) hchar)

theorem isPathCharacter_of_isUnreserved {c : UInt8} (h : isUnreserved c = true) :
    isPathCharacter c = true := by
  rw [isPathCharacter, h, Bool.true_or, Bool.true_or]

theorem isQueryCharacter_of_isPathCharacter {c : UInt8} (h : isPathCharacter c = true) :
    isQueryCharacter c = true := by
  rw [isQueryCharacter, h, Bool.true_or]

/-! ## Encoding -/

def hex (n : Nat) : UInt8 := (ascii "0123456789ABCDEF").getD n 0

def encodeImpl (raw : List UInt8) (shouldEncode : UInt8 → Bool) : List UInt8 :=
  raw.flatMap fun ch =>
    if shouldEncode ch then [37, hex (ch.toNat / 16 % 16), hex (ch.toNat % 16)] else [ch]

def hexCharDigitToDecimalChar (hex : UInt8) : Except UriException Nat :=
  if 48 ≤ hex && hex ≤ 57 then .ok (hex.toNat - 48)
  else if 65 ≤ hex && hex ≤ 70 then .ok (10 + (hex.toNat - 65))
  else if 97 ≤ hex && hex ≤ 102 then .ok (10 + (hex.toNat - 97))
  else .error ⟨ascii "Invalid hexadecimal digit"⟩

end Uri

namespace UriCodec

open Uri

inductive UriComponent where
  | userInfo | host | path | query | fragment | fullUri
  deriving DecidableEq

/-- The characters that are encoded in a component. -/
def shouldEncode (component : UriComponent) (ch : UInt8) : Bool :=
  match component with
  | .userInfo => !isUserInfoCharacter ch || ch == 37 || ch == 43
  | .host => 127 < ch
  | .path => !isPathCharacter ch || ch == 37 || ch == 43
  | .query => !isQueryCharacter ch || ch == 37 || ch == 43
  | .fragment => !isFragmentCharacter ch || ch == 37 || ch == 43
  | .fullUri => !isUnreserved ch && !isReserved ch

def encode (raw : List UInt8) (component : UriComponent) : List UInt8 :=
  encodeImpl raw (shouldEncode component)

/-- The exception for an escape that is cut off. -/
def twoDigits : UriException :=
  ⟨ascii "Invalid URI string, two hexadecimal digits must follow '%'"⟩

def decode : List UInt8 → Except UriException (List UInt8)
  | [] => .ok []
  | c :: iter =>
      if c = 37 then
        match iter with
        | [] => .error twoDigits
        | high :: iter => do
            let decimalValue ← hexCharDigitToDecimalChar high
            match iter with
            | [] => .error twoDigits
            | low :: iter =>
                let digit ← hexCharDigitToDecimalChar low
                let raw ← decode iter
                return UInt8.ofNat (decimalValue * 16 + digit) :: raw
      else do
        let raw ← decode iter
        return c :: raw

/-! ## What is encoded -/

theorem isalnum_hex {n : Nat} (hn : n < 16) : isalnum (hex n) = true := by
  have hall : ∀ n ∈ List.range 16, isalnum (hex n) = true := by decide
  exact hall n (List.mem_range.mpr hn)

theorem hexCharDigitToDecimalChar_hex {n : Nat} (hn : n < 16) :
    hexCharDigitToDecimalChar (hex n) = .ok n := by
  have hall : ∀ n ∈ List.range 16, hexCharDigitToDecimalChar (hex n) = .ok n := by decide
  exact hall n (List.mem_range.mpr hn)

/-- What is encoded consists of the percent sign, letters, digits and what is not to be
encoded. -/
theorem forall_mem_encodeImpl {legal should : UInt8 → Bool} {raw : List UInt8}
    (hpercent : legal 37 = true) (hhex : ∀ c, isalnum c = true → legal c = true)
    (hkept : ∀ c ∈ raw, should c = false → legal c = true) :
    ∀ c ∈ encodeImpl raw should, legal c = true := by
  intro c hc
  obtain ⟨ch, hch, hmem⟩ := List.mem_flatMap.mp hc
  split at hmem
  next =>
    rcases List.mem_cons.mp hmem with rfl | hmem
    · exact hpercent
    · rcases List.mem_pair.mp hmem with rfl | rfl
      · exact hhex _ (isalnum_hex (Nat.mod_lt _ (by decide)))
      · exact hhex _ (isalnum_hex (Nat.mod_lt _ (by decide)))
  next hshould =>
    rw [List.mem_singleton.mp hmem]
    exact hkept ch hch (Bool.not_eq_true _ ▸ hshould)

theorem legal_of_kept {legal : UInt8 → Bool} {c : UInt8}
    (h : (!legal c || c == 37 || c == 43) = false) : legal c = true := by
  cases hc : legal c with
  | false => simp [hc] at h
  | true => rfl

theorem isUserInfoCharacter_encode (raw : List UInt8) :
    ∀ c ∈ encode raw .userInfo, isUserInfoCharacter c = true :=
  forall_mem_encodeImpl (by decide)
    (fun _ h => isUserInfoCharacter_of_isUnreserved (isUnreserved_of_isalnum h))
    fun _ _ h => legal_of_kept h

theorem isPathCharacter_encode (raw : List UInt8) :
    ∀ c ∈ encode raw .path, isPathCharacter c = true :=
  forall_mem_encodeImpl (by decide)
    (fun _ h => isPathCharacter_of_isUnreserved (isUnreserved_of_isalnum h))
    fun _ _ h => legal_of_kept h

theorem isQueryCharacter_encode (raw : List UInt8) :
    ∀ c ∈ encode raw .query, isQueryCharacter c = true :=
  forall_mem_encodeImpl (by decide)
    (fun _ h => isQueryCharacter_of_isPathCharacter
      (isPathCharacter_of_isUnreserved (isUnreserved_of_isalnum h)))
    fun _ _ h => legal_of_kept h

/-- An escape is decoded to its character. -/
theorem decode_escape (ch : UInt8) (rest : List UInt8) :
    decode (37 :: hex (ch.toNat / 16 % 16) :: hex (ch.toNat % 16) :: rest) =
      (decode rest).map fun raw => ch :: raw := by
  have hhigh := hexCharDigitToDecimalChar_hex (Nat.mod_lt (ch.toNat / 16) (by decide : 0 < 16))
  have hlow := hexCharDigitToDecimalChar_hex (Nat.mod_lt ch.toNat (by decide : 0 < 16))
  have hvalue : UInt8.ofNat (ch.toNat / 16 % 16 * 16 + ch.toNat % 16) = ch := by
    have hlt := ch.toNat_lt
    rw [show ch.toNat / 16 % 16 * 16 + ch.toNat % 16 = ch.toNat by omega, UInt8.ofNat_toNat]
  rw [decode, if_pos rfl]
  simp only [hhigh, hlow, hvalue, Except.map, bind, Except.bind]
  rfl

theorem decode_cons {c : UInt8} (hc : c ≠ 37) (rest : List UInt8) :
    decode (c :: rest) = (decode rest).map fun raw => c :: raw := by
  rw [decode.eq_def]
  change (if c = 37 then _ else _) = _
  rw [if_neg hc]
  rfl

/-- What is encoded is decoded again if the percent sign is encoded. -/
theorem decode_encodeImpl {should : UInt8 → Bool} (hpercent : should 37 = true)
    (raw : List UInt8) : decode (encodeImpl raw should) = .ok raw := by
  induction raw with
  | nil => rfl
  | cons ch raw ih =>
      rw [encodeImpl, List.flatMap_cons]
      change decode (_ ++ encodeImpl raw should) = _
      by_cases hch : should ch = true
      · rw [if_pos hch]
        exact (decode_escape ch (encodeImpl raw should)).trans (by rw [ih]; rfl)
      · rw [if_neg hch]
        have hne : ch ≠ 37 := by
          rintro rfl
          exact hch hpercent
        exact (decode_cons hne (encodeImpl raw should)).trans (by rw [ih]; rfl)

theorem shouldEncode_percent {component : UriComponent} (h : component ≠ .host) :
    shouldEncode component 37 = true := by
  cases component <;> first | decide | exact absurd rfl h

/-- Every component but the host is decoded again. -/
theorem decode_encode {component : UriComponent} (h : component ≠ .host) (raw : List UInt8) :
    decode (encode raw component) = .ok raw :=
  decode_encodeImpl (shouldEncode_percent h) raw

/-- A host of ASCII characters is not changed. -/
theorem encode_host {raw : List UInt8} (h : ∀ c ∈ raw, c ≤ 127) : encode raw .host = raw := by
  induction raw with
  | nil => rfl
  | cons ch raw ih =>
      have hch : shouldEncode .host ch = false :=
        decide_eq_false (UInt8.not_lt.mpr (h ch (List.mem_cons_self ..)))
      rw [encode, encodeImpl, List.flatMap_cons, hch]
      exact congrArg (ch :: ·) (ih fun c hc => h c (List.mem_cons_of_mem _ hc))

end UriCodec

end Netpp
