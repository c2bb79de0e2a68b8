import Mathlib.Tactic.Common

/-!
# Texts

A text is the list of its bytes. `decimal` is the value of a decimal numeral, and the
numeral of a number has that number as its value.
-/

namespace Text

/-- The bytes of an ASCII text. -/
def ascii (text : String) : List UInt8 := text.toList.map fun c => UInt8.ofNat c.toNat

def isDigit (c : UInt8) : Bool := 48 ≤ c && c ≤ 57

/-- The value of a numeral. -/
def decimal (digits : List UInt8) : Nat :=
  digits.foldl (fun value c => 10 * value + (c.toNat - 48)) 0

theorem ascii_toString (n : Nat) :
    ascii (toString n) = (Nat.toDigits 10 n).map fun c => UInt8.ofNat c.toNat := by
  rw [ascii, Nat.toString_eq_ofList_toDigits, String.toList_ofList]

/-- The digits are ASCII. -/
theorem toNat_of_mem_toDigits {n : Nat} {c : Char} (hc : c ∈ Nat.toDigits 10 n) :
    48 ≤ c.toNat ∧ c.toNat ≤ 57 ∧ (UInt8.ofNat c.toNat).toNat = c.toNat := by
  have hdigit := Char.isDigit_iff_toNat.mp (Nat.isDigit_of_mem_toDigits (by decide) (by decide) hc)
  change 48 ≤ c.toNat ∧ c.toNat ≤ 57 at hdigit
  exact ⟨hdigit.1, hdigit.2, by rw [UInt8.toNat_ofNat']; omega⟩

theorem isDigit_of_mem_toString {n : Nat} {c : UInt8} (hc : c ∈ ascii (toString n)) :
    isDigit c = true := by
  rw [ascii_toString] at hc
  obtain ⟨d, hd, rfl⟩ := List.mem_map.mp hc
  obtain ⟨hge, hle, heq⟩ := toNat_of_mem_toDigits hd
  rw [isDigit, Bool.and_eq_true, decide_eq_true_iff, decide_eq_true_iff, UInt8.le_iff_toNat_le,
    UInt8.le_iff_toNat_le, heq]
  exact ⟨hge, hle⟩

theorem ascii_toString_ne_nil (n : Nat) : ascii (toString n) ≠ [] := by
  rw [ascii_toString]
  exact fun hnil => Nat.toDigits_ne_nil (List.map_eq_nil_iff.mp hnil)

theorem decimal_ascii_toString (n : Nat) : decimal (ascii (toString n)) = n := by
  have hfold (digits : List Char) (value : Nat) (hdigits : ∀ c ∈ digits, c ∈ Nat.toDigits 10 n) :
      (digits.map fun c => UInt8.ofNat c.toNat).foldl
          (fun value c => 10 * value + (c.toNat - 48)) value =
        Nat.ofDigitChars 10 digits value := by
    induction digits generalizing value with
    | nil => exact Nat.ofDigitChars_nil.symm
    | cons c digits ih =>
        have hc := (toNat_of_mem_toDigits (hdigits c (List.mem_cons_self ..))).2.2
        rw [List.map_cons, List.foldl_cons, hc, Nat.ofDigitChars_cons,
          ih _ fun d hd => hdigits d (List.mem_cons_of_mem _ hd)]
        rfl
  rw [ascii_toString, decimal, hfold _ _ fun _ hc => hc, Nat.ofDigitChars_ten_toDigits]

end Text
