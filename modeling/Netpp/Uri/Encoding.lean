import Netpp.Uri.UriCodec

/-!
# What encoding and decoding guarantee

An encoded component consists of characters that are legal in it and is decoded to the
bytes that it was made of. Decoding fails on the texts in which a percent sign has no two
hexadecimal digits behind it. A percent sign is no hexadecimal digit, so it makes no
difference whether the escapes are read off from the left or each percent sign is looked
at by itself.
-/

namespace Netpp

open Text (isDigit)

namespace UriCodec

open Uri

/-! ## Legal characters -/

/-- The characters that may stand in a component. -/
def legal (component : UriComponent) (c : UInt8) : Bool :=
  match component with
  | .userInfo => isUserInfoCharacter c
  | .host => c ≤ 127
  | .path => isPathCharacter c
  | .query => isQueryCharacter c
  | .fragment => isFragmentCharacter c
  | .fullUri => isUnreserved c || isReserved c || c == 37

theorem legal_of_isUnreserved {component : UriComponent} (h : component ≠ .host) {c : UInt8}
    (hc : isUnreserved c = true) : legal component c = true := by
  cases component with
  | userInfo => exact isUserInfoCharacter_of_isUnreserved hc
  | host => exact absurd rfl h
  | path => exact isPathCharacter_of_isUnreserved hc
  | query => exact isQueryCharacter_of_isPathCharacter (isPathCharacter_of_isUnreserved hc)
  | fragment => exact isQueryCharacter_of_isPathCharacter (isPathCharacter_of_isUnreserved hc)
  | fullUri => rw [legal, hc, Bool.true_or, Bool.true_or]

/-- What is not encoded is legal. -/
theorem legal_of_not_shouldEncode {component : UriComponent} (h : component ≠ .host) {c : UInt8}
    (hc : shouldEncode component c = false) : legal component c = true := by
  cases component with
  | userInfo => exact legal_of_kept hc
  | host => exact absurd rfl h
  | path => exact legal_of_kept hc
  | query => exact legal_of_kept hc
  | fragment => exact legal_of_kept hc
  | fullUri =>
      change (!isUnreserved c && !isReserved c) = false at hc
      rw [← Bool.not_or, Bool.not_eq_false'] at hc
      rw [legal, hc, Bool.true_or]

theorem legal_encode {component : UriComponent} (h : component ≠ .host) (raw : List UInt8) :
    ∀ c ∈ encode raw component, legal component c = true := by
  refine forall_mem_encodeImpl ?_ ?_ ?_
  · cases component with
    | host => exact absurd rfl h
    | _ => decide
  · exact fun c hc => legal_of_isUnreserved h (isUnreserved_of_isalnum hc)
  · exact fun c _ hc => legal_of_not_shouldEncode h hc

theorem encode_cons (ch : UInt8) (raw : List UInt8) (component : UriComponent) :
    encode (ch :: raw) component = (if shouldEncode component ch then
      [37, hex (ch.toNat / 16 % 16), hex (ch.toNat % 16)] else [ch]) ++ encode raw component := by
  rw [encode, encodeImpl, List.flatMap_cons]
  rfl

theorem length_le_encode (raw : List UInt8) (component : UriComponent) :
    raw.length ≤ (encode raw component).length := by
  induction raw with
  | nil => exact Nat.le_refl _
  | cons ch raw ih =>
      rw [encode_cons, List.length_append, List.length_cons, Nat.add_comm]
      refine Nat.add_le_add ?_ ih
      split
      next => exact Nat.succ_le_succ (Nat.zero_le _)
      next => exact Nat.le_refl _

/-- Encoding makes a text longer if it has a character that is to be encoded. -/
theorem length_encode_eq_iff (component : UriComponent) (raw : List UInt8) :
    (encode raw component).length = raw.length ↔ ∀ ch ∈ raw, shouldEncode component ch = false := by
  induction raw with
  | nil => simp [encode, encodeImpl]
  | cons ch raw ih =>
      rw [List.forall_mem_cons, encode_cons, List.length_append, List.length_cons]
      cases hch : shouldEncode component ch with
      | false =>
          rw [if_neg Bool.false_ne_true, and_iff_right rfl, ← ih, List.length_singleton,
            Nat.add_comm, Nat.add_right_cancel_iff]
      | true =>
          refine iff_of_false ?_ fun h => Bool.true_eq_false.mp h.1
          have hle := length_le_encode raw component
          simp only [if_true, List.length_cons, List.length_nil]
          omega

/-- It leaves the other texts alone. -/
theorem encode_eq_self_iff (component : UriComponent) (raw : List UInt8) :
    encode raw component = raw ↔ ∀ ch ∈ raw, shouldEncode component ch = false := by
  constructor
  · exact fun h => (length_encode_eq_iff component raw).mp (congrArg List.length h)
  · intro h
    induction raw with
    | nil => rfl
    | cons ch raw ih =>
        obtain ⟨hch, hraw⟩ := List.forall_mem_cons.mp h
        rw [encode_cons, hch, if_neg Bool.false_ne_true, ih hraw]
        rfl

/-- What is encoded twice and does not change is not changed by encoding it once. -/
theorem encode_encode_eq_self_iff (component : UriComponent) (raw : List UInt8) :
    encode (encode raw component) component = raw ↔ encode raw component = raw := by
  constructor
  · intro h
    have hle := length_le_encode (encode raw component) component
    rw [h] at hle
    exact (encode_eq_self_iff component raw).mpr
      ((length_encode_eq_iff component raw).mp
        (Nat.le_antisymm hle (length_le_encode raw component)))
  · intro h
    rw [h, h]

/-- Nothing is put in front of what is not changed. -/
theorem encode_append_eq_iff (component : UriComponent) (xs raw : List UInt8) :
    encode (xs ++ raw) component = raw ↔ xs = [] ∧ encode raw component = raw := by
  constructor
  · intro h
    have hle := length_le_encode (xs ++ raw) component
    rw [h, List.length_append] at hle
    obtain rfl : xs = [] := List.length_eq_zero_iff.mp (by omega)
    exact ⟨rfl, h⟩
  · rintro ⟨rfl, h⟩
    exact h

theorem encode_inj {component : UriComponent} (h : component ≠ .host) {raw raw' : List UInt8} :
    encode raw component = encode raw' component ↔ raw = raw' := by
  refine ⟨fun heq => ?_, fun heq => by rw [heq]⟩
  have hdecode := decode_encode h raw
  rw [heq, decode_encode h] at hdecode
  exact (Except.ok.inj hdecode).symm

/-- A character that is not encoded and not part of an escape stays where it is. -/
theorem mem_encode_iff {component : UriComponent} {c : UInt8}
    (hkept : shouldEncode component c = false) (hpercent : c ≠ 37) (halnum : isalnum c = false)
    {raw : List UInt8} :
    c ∈ encode raw component ↔ c ∈ raw := by
  have hhex {n : Nat} (hn : n < 16) : c ≠ hex n := by
    rintro rfl
    rw [isalnum_hex hn] at halnum
    cases halnum
  induction raw with
  | nil => rfl
  | cons ch raw ih =>
      rw [encode_cons, List.mem_append, List.mem_cons]
      refine or_congr ?_ ih
      split
      next hch =>
        have hne : c ≠ ch := by
          rintro rfl
          rw [hkept] at hch
          cases hch
        simp [hpercent, hne, hhex (Nat.mod_lt _ (by decide : 0 < 16))]
      next => exact List.mem_singleton

/-! ## Malformed escapes -/

def isHexDigit (c : UInt8) : Bool := isDigit c || (65 ≤ c && c ≤ 70) || (97 ≤ c && c ≤ 102)

/-- The text begins with two hexadecimal digits. -/
def TwoHexDigits (text : List UInt8) : Prop :=
  ∃ high low rest, text = high :: low :: rest ∧ isHexDigit high = true ∧ isHexDigit low = true

/-- Some percent sign is not followed by two hexadecimal digits. -/
def Malformed (encoded : List UInt8) : Prop :=
  ∃ pre rest, encoded = pre ++ 37 :: rest ∧ ¬TwoHexDigits rest

variable {c high low : UInt8} {rest encoded : List UInt8}

theorem not_malformed_nil : ¬Malformed [] := by
  rintro ⟨pre, rest, hnil, -⟩
  simp at hnil

theorem Malformed.cons (h : Malformed rest) (c : UInt8) : Malformed (c :: rest) := by
  obtain ⟨pre, rest', rfl, hdigits⟩ := h
  exact ⟨c :: pre, rest', rfl, hdigits⟩

theorem malformed_cons_of_ne (hc : c ≠ 37) : Malformed (c :: rest) ↔ Malformed rest := by
  refine ⟨?_, fun h => h.cons c⟩
  rintro ⟨pre, rest', heq, hdigits⟩
  cases pre with
  | nil =>
      injection heq with hhead
      exact absurd hhead hc
  | cons d pre =>
      injection heq with _ htail
      exact ⟨pre, rest', htail, hdigits⟩

theorem malformed_percent (h : ¬TwoHexDigits rest) : Malformed (37 :: rest) := ⟨[], rest, rfl, h⟩

theorem ne_percent_of_isHexDigit (h : isHexDigit c = true) : c ≠ 37 := by
  rintro rfl
  exact absurd h (by decide)

theorem malformed_escape (hhigh : isHexDigit high = true) (hlow : isHexDigit low = true) :
    Malformed (37 :: high :: low :: rest) ↔ Malformed rest := by
  constructor
  · rintro ⟨pre, rest', heq, hdigits⟩
    cases pre with
    | nil =>
        injection heq with _ htail
        exact absurd ⟨high, low, rest, htail.symm, hhigh, hlow⟩ hdigits
    | cons d pre =>
        injection heq with _ htail
        have hmalformed : Malformed (high :: low :: rest) := ⟨pre, rest', htail, hdigits⟩
        rwa [malformed_cons_of_ne (ne_percent_of_isHexDigit hhigh),
          malformed_cons_of_ne (ne_percent_of_isHexDigit hlow)] at hmalformed
  · exact fun h => ((h.cons low).cons high).cons 37

/-! ## Decoding -/

theorem hexCharDigitToDecimalChar_of_isHexDigit (h : isHexDigit c = true) :
    ∃ n, hexCharDigitToDecimalChar c = .ok n := by
  rw [isHexDigit, Bool.or_eq_true, Bool.or_eq_true] at h
  unfold hexCharDigitToDecimalChar
  split
  next => exact ⟨_, rfl⟩
  next hdigit =>
    split
    next => exact ⟨_, rfl⟩
    next hupper =>
      rw [if_pos ((h.resolve_left fun h => h.elim hdigit hupper))]
      exact ⟨_, rfl⟩

theorem hexCharDigitToDecimalChar_of_not_isHexDigit (h : isHexDigit c = false) :
    ∃ e, hexCharDigitToDecimalChar c = .error e := by
  rw [isHexDigit, Bool.or_eq_false_iff, Bool.or_eq_false_iff] at h
  obtain ⟨⟨hdigit, hupper⟩, hlower⟩ := h
  rw [hexCharDigitToDecimalChar, show (48 ≤ c && c ≤ 57) = false from hdigit, hupper, hlower]
  exact ⟨_, rfl⟩

/-- Two hexadecimal digits are decoded to a byte. -/
theorem decode_percent (hhigh : isHexDigit high = true) (hlow : isHexDigit low = true)
    (rest : List UInt8) : ∃ ch, decode (37 :: high :: low :: rest) =
      (decode rest).map fun raw => ch :: raw := by
  obtain ⟨n, hn⟩ := hexCharDigitToDecimalChar_of_isHexDigit hhigh
  obtain ⟨m, hm⟩ := hexCharDigitToDecimalChar_of_isHexDigit hlow
  refine ⟨UInt8.ofNat (n * 16 + m), ?_⟩
  rw [decode, if_pos rfl]
  simp only [hn, hm, bind, Except.bind, Except.map]
  rfl

theorem decode_percent_of_not (h : ¬TwoHexDigits rest) :
    ∃ e, decode (37 :: rest) = .error e := by
  cases rest with
  | nil => exact ⟨_, rfl⟩
  | cons high rest =>
      cases hhigh : isHexDigit high with
      | false =>
          obtain ⟨e, he⟩ := hexCharDigitToDecimalChar_of_not_isHexDigit hhigh
          refine ⟨e, ?_⟩
          rw [decode.eq_def]
          simp only [he, if_true]
          rfl
      | true =>
          obtain ⟨n, hn⟩ := hexCharDigitToDecimalChar_of_isHexDigit hhigh
          cases rest with
          | nil =>
              refine ⟨twoDigits, ?_⟩
              rw [decode.eq_def]
              simp only [hn, if_true]
              rfl
          | cons low rest =>
              have hlow : isHexDigit low = false := by
                cases hlow : isHexDigit low with
                | false => rfl
                | true => exact absurd ⟨high, low, rest, rfl, hhigh, hlow⟩ h
              obtain ⟨e, he⟩ := hexCharDigitToDecimalChar_of_not_isHexDigit hlow
              refine ⟨e, ?_⟩
              rw [decode.eq_def]
              simp only [hn, he, if_true]
              rfl

theorem map_eq_error_iff {e : Except UriException (List UInt8)}
    {f : List UInt8 → List UInt8} : (∃ x, e.map f = .error x) ↔ ∃ x, e = .error x := by
  cases e with
  | error err => exact ⟨fun _ => ⟨err, rfl⟩, fun _ => ⟨err, rfl⟩⟩
  | ok raw => simp [Except.map]

/-- The decoder throws exactly on malformed texts. -/
theorem decode_eq_error_iff (encoded : List UInt8) :
    (∃ e, decode encoded = .error e) ↔ Malformed encoded := by
  induction hlength : encoded.length using Nat.strongRecOn generalizing encoded with
  | ind n ih =>
      cases encoded with
      | nil => simp [decode, not_malformed_nil]
      | cons c rest =>
          by_cases hc : c = 37
          · subst hc
            by_cases hdigits : TwoHexDigits rest
            · obtain ⟨high, low, rest, rfl, hhigh, hlow⟩ := hdigits
              obtain ⟨ch, hdecode⟩ := decode_percent hhigh hlow rest
              rw [hdecode, map_eq_error_iff, malformed_escape hhigh hlow]
              exact ih rest.length (by rw [← hlength]; simp only [List.length_cons]; omega) rest rfl
            · exact iff_of_true (decode_percent_of_not hdigits) (malformed_percent hdigits)
          · rw [decode_cons hc, map_eq_error_iff, malformed_cons_of_ne hc]
            exact ih rest.length (by rw [← hlength]; exact Nat.lt_succ_self _) rest rfl

theorem decode_eq_ok_iff (encoded : List UInt8) :
    (∃ raw, decode encoded = .ok raw) ↔ ¬Malformed encoded := by
  rw [← decode_eq_error_iff]
  cases decode encoded with
  | error e => simp
  | ok raw => simp

/-- Only the empty text is decoded to no bytes. -/
theorem decode_ne_nil (hne : encoded ≠ []) : decode encoded ≠ .ok [] := by
  have hmap (e : Except UriException (List UInt8)) (ch : UInt8) :
      (e.map fun raw => ch :: raw) ≠ .ok [] := by
    cases e with
    | error exception => exact nofun
    | ok raw => exact fun h => List.cons_ne_nil ch raw (Except.ok.inj h)
  obtain ⟨c, rest, rfl⟩ := List.exists_cons_of_ne_nil hne
  by_cases hc : c = 37
  · subst hc
    by_cases hdigits : TwoHexDigits rest
    · obtain ⟨high, low, rest, rfl, hhigh, hlow⟩ := hdigits
      obtain ⟨ch, hdecode⟩ := decode_percent hhigh hlow rest
      rw [hdecode]
      exact hmap _ ch
    · obtain ⟨exception, hdecode⟩ := decode_percent_of_not hdigits
      rw [hdecode]
      exact nofun
  · rw [decode_cons hc]
    exact hmap _ c

/-! ## Components -/

/-- What is encoded for the component is legal there and is decoded again. -/
structure Lossless (component : UriComponent) (s : List UInt8) : Prop where
  legal : ∀ c ∈ encode s component, legal component c = true
  decoded : decode (encode s component) = .ok s

/-- Encoding is lossless and legal for every component but the host, and decoding throws
exactly on a malformed escape. -/
theorem encode_lossless :
    (∀ component ≠ .host, ∀ s, Lossless component s) ∧
      ∀ encoded, (∃ e, decode encoded = .error e) ↔ Malformed encoded :=
  ⟨fun _ h s => ⟨legal_encode h s, decode_encode h s⟩, decode_eq_error_iff⟩

end UriCodec

end Netpp
