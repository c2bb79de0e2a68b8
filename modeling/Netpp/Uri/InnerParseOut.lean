import Mathlib.Algebra.Group.Int.Defs
import Mathlib.Algebra.Group.Nat.Defs
import Mathlib.Data.List.TakeWhile
import Netpp.Library.Scanner
import Netpp.Uri.UriCodec

/-!
# The parser

`parse_from` goes over a zero-terminated string. A pointer into it is the rest of the
string, a pair of pointers is the text between them, and a null pointer is `none`. What
`parse_from` returns is `none` for false.
-/

namespace Netpp

open Text (ascii isDigit)

structure InnerParseOut where
  scheme : Option (List UInt8) := none
  uinfo : Option (List UInt8) := none
  host : Option (List UInt8) := none
  port : Int := 0
  path : Option (List UInt8) := none
  query : Option (List UInt8) := none
  fragment : Option (List UInt8) := none

namespace InnerParseOut

open Uri

/-- Whether a slash or the end comes before the first colon. -/
def isRelativeReference : List UInt8 → Bool
  | [] => true
  | c :: p2 => if c = 47 ∨ c = 0 then true else if c = 58 then false else isRelativeReference p2

/-- A loop that goes to one of the characters `stop` or, if `toEnd`, to the end. -/
def scan (stop : List UInt8) (legal : UInt8 → Bool) (p : List UInt8) :
    Option (List UInt8 × List UInt8) :=
  Scanner.scan 0 stop.contains legal p

/-- `std::from_chars` for an `int`. -/
def fromChars (text : List UInt8) (value : Int) : Int :=
  let negative := text.head? == some 45
  let digits := (if negative then text.tail else text).takeWhile isDigit
  let n : Int := if negative then -Text.decimal digits else Text.decimal digits
  if digits = [] ∨ n < -2 ^ 31 ∨ 2 ^ 31 ≤ n then value else n

def parseScheme (out : InnerParseOut) (p : List UInt8) : Option (InnerParseOut × List UInt8) :=
  if isRelativeReference p then some (out, p)
  else
    match p with
    | [] => none
    | c :: p =>
        if !isalpha c then none
        else (scan [58] isSchemeCharacter p).map fun (scheme, p) =>
          ({ out with scheme := some (c :: scheme) }, p.tail)

/-- The host and the port of an authority that is not empty. -/
def parsePort (authority : List UInt8) (port : Int) : List UInt8 × Int :=
  let portBegin := Scanner.scanBack isDigit authority (authority.length - 1)
  if authority[portBegin]? = some 58 then
    (authority.take portBegin, fromChars (authority.drop (portBegin + 1)) port)
  else (authority, port)

/-- The user information and the host. Behind the host there is no `@`. -/
def parseUserInfo (host : List UInt8) : Option (List UInt8) × List UInt8 :=
  match host.dropWhile isUserInfoCharacter with
  | 64 :: rest => (some (host.takeWhile isUserInfoCharacter), rest)
  | _ => (none, host)

def parseAuthority (out : InnerParseOut) (p : List UInt8) :
    Option (InnerParseOut × List UInt8) :=
  match p with
  | 47 :: 47 :: p => do
      let (authority, p) ← scan [47, 63, 35, 0] isAuthorityCharacter p
      if authority = [] then return (out, p)
      let (host, port) := parsePort authority out.port
      let (uinfo, host) := parseUserInfo host
      return ({ out with uinfo := uinfo, host := some host, port := port }, p)
  | _ => some (out, p)

def parsePath (out : InnerParseOut) (p : List UInt8) : Option (InnerParseOut × List UInt8) :=
  match p with
  | [] => some (out, p)
  | c :: _ =>
      if c = 47 ∨ isPathCharacter c then
        (scan [63, 35, 0] isPathCharacter p).map fun (path, p) =>
          ({ out with path := some path }, p)
      else some (out, p)

def parseQuery (out : InnerParseOut) (p : List UInt8) : Option (InnerParseOut × List UInt8) :=
  match p with
  | 63 :: p =>
      (scan [35, 0] isQueryCharacter p).map fun (query, p) =>
        ({ out with query := some query }, p)
  | _ => some (out, p)

def parseFragment (out : InnerParseOut) (p : List UInt8) :
    Option (InnerParseOut × List UInt8) :=
  match p with
  | 35 :: p =>
      (scan [0] isFragmentCharacter p).map fun (fragment, p) =>
        ({ out with fragment := some fragment }, p)
  | _ => some (out, p)

def parseFrom (encoded : List UInt8) : Option InnerParseOut := do
  let (out, p) ← parseScheme {} encoded
  let (out, p) ← parseAuthority out p
  let (out, p) ← parsePath out p
  let (out, p) ← parseQuery out p
  let (out, _) ← parseFragment out p
  return out

variable {out : InnerParseOut} {xs ys rest pre host : List UInt8} {c : UInt8} {port : Int}

/-! ## What one part is parsed to -/

/-- A legal character does not stop a scan that stops at characters that are not legal. -/
theorem notMem_of_legal {stop : List UInt8} {legal : UInt8 → Bool}
    (hstop : stop.any legal = false) (hc : legal c = true) : c ∉ stop :=
  fun hmem => List.any_eq_false.mp hstop c hmem hc

theorem scan_append {stop : List UInt8} {legal : UInt8 → Bool}
    (hstop : stop.any legal = false) (hlegal : ∀ c ∈ xs, legal c = true)
    (hrest : rest.headD 0 ∈ stop) : scan stop legal (xs ++ rest) = some (xs, rest) := by
  refine Scanner.scan_append (fun c hc => ⟨?_, hlegal c hc⟩) (List.contains_iff_mem.mpr hrest)
  rw [← Bool.not_eq_true, List.contains_iff_mem]
  exact notMem_of_legal hstop (hlegal c hc)

theorem isRelativeReference_append (hxs : ∀ c ∈ xs, isSchemeCharacter c = true) :
    isRelativeReference (xs ++ 58 :: rest) = false := by
  induction xs with
  | nil => rfl
  | cons c xs ih =>
      have hc := hxs c (List.mem_cons_self ..)
      have hne : ¬(c = 47 ∨ c = 0) := by
        rintro (rfl | rfl)
        · exact absurd hc (by decide)
        · exact absurd hc (by decide)
      rw [List.cons_append, isRelativeReference, if_neg hne,
        ih fun d hd => hxs d (List.mem_cons_of_mem _ hd)]
      exact ite_self false

theorem parseScheme_append (hc : isalpha c = true)
    (hxs : ∀ c ∈ xs, isSchemeCharacter c = true) :
    parseScheme out (c :: xs ++ 58 :: rest) =
      some ({ out with scheme := some (c :: xs) }, rest) := by
  have hall : ∀ d ∈ c :: xs, isSchemeCharacter d = true := by
    refine List.forall_mem_cons.mpr ⟨?_, hxs⟩
    rw [isSchemeCharacter, isalnum, hc, Bool.true_or, Bool.true_or]
  have hscan : scan [58] isSchemeCharacter (xs ++ 58 :: rest) = some (xs, 58 :: rest) :=
    scan_append (by decide) hxs (List.mem_singleton_self _)
  have hrelative : isRelativeReference (c :: (xs ++ 58 :: rest)) = false :=
    isRelativeReference_append hall
  rw [List.cons_append, parseScheme, hrelative, if_neg Bool.false_ne_true, hc, Bool.not_true,
    if_neg Bool.false_ne_true, hscan]
  rfl

theorem takeWhile_of_forall {p : UInt8 → Bool} (h : ∀ c ∈ xs, p c = true) :
    xs.takeWhile p = xs := by
  rw [← List.append_nil xs, List.takeWhile_append_of_pos h, List.takeWhile_nil]

theorem fromChars_toString {n : Nat} (hn : n < 2 ^ 31) :
    fromChars (ascii (toString n)) port = n := by
  have hdigits : ∀ c ∈ ascii (toString n), isDigit c = true := fun c => Text.isDigit_of_mem_toString
  have hsign : ((ascii (toString n)).head? == some 45) = false := by
    rw [beq_eq_false_iff_ne]
    intro hhead
    exact absurd (hdigits 45 (List.mem_of_mem_head? hhead)) (by decide)
  simp only [fromChars, hsign, Bool.false_eq_true, if_false, takeWhile_of_forall hdigits,
    Text.decimal_ascii_toString]
  rw [if_neg]
  rintro (hnil | hsmall | hlarge)
  · exact Text.ascii_toString_ne_nil n hnil
  · omega
  · omega

theorem parsePort_of_port {n : Nat} (hn : n < 2 ^ 31) :
    parsePort (ys ++ 58 :: ascii (toString n)) port = (ys, (n : Int)) := by
  have hback : Scanner.scanBack isDigit (ys ++ 58 :: ascii (toString n))
      ((ys ++ 58 :: ascii (toString n)).length - 1) = ys.length :=
    Scanner.scanBack_append (fun c => Text.isDigit_of_mem_toString) (by decide)
  have hcolon : (ys ++ 58 :: ascii (toString n))[ys.length]? = some 58 := by simp
  have hdigits : (ys ++ 58 :: ascii (toString n)).drop (ys.length + 1) = ascii (toString n) := by
    simp
  rw [parsePort, hback, if_pos hcolon, List.take_left, hdigits, fromChars_toString hn]

/-- The character before the last digits is in the host or is the `@` before it. -/
theorem parsePort_of_noPort (hpre : pre = [] ∨ ∃ uinfo, pre = uinfo ++ [64]) (hne : host ≠ [])
    (hhost : 58 ∉ host) : parsePort (pre ++ host) port = (pre ++ host, port) := by
  have hback : (pre ++ host)[Scanner.scanBack isDigit (pre ++ host)
      ((pre ++ host).length - 1)]? ≠ some 58 := by
    obtain hdigits | ⟨ys, c, ds, rfl, hc, hds⟩ := Scanner.forall_or_exists_last isDigit host
    · obtain rfl | ⟨uinfo, rfl⟩ := hpre
      · rw [List.nil_append, Scanner.scanBack_all hdigits
          (Nat.sub_lt (List.length_pos_iff.mpr hne) Nat.one_pos)]
        exact fun hcolon => hhost (List.mem_of_getElem? hcolon)
      · rw [List.append_assoc, List.singleton_append,
          Scanner.scanBack_append hdigits (by decide)]
        simp
    · rw [← List.append_assoc, Scanner.scanBack_append hds hc]
      have hcolon : c ≠ 58 := by
        rintro rfl
        exact hhost (List.mem_append_right ys (List.mem_cons_self ..))
      simp [hcolon]
  rw [parsePort, if_neg hback]

theorem parseUserInfo_of_userInfo (hxs : ∀ c ∈ xs, isUserInfoCharacter c = true) :
    parseUserInfo (xs ++ 64 :: host) = (some xs, host) := by
  have hat : isUserInfoCharacter 64 = false := by decide
  rw [parseUserInfo, List.dropWhile_append_of_pos hxs, List.takeWhile_append_of_pos hxs,
    List.dropWhile_cons_of_neg (by simp [hat]), List.takeWhile_cons_of_neg (by simp [hat]),
    List.append_nil]
  rfl

theorem parseUserInfo_of_noUserInfo (hhost : ∀ c ∈ host, isUserInfoCharacter c = true) :
    parseUserInfo host = (none, host) := by
  rw [parseUserInfo, List.dropWhile_eq_nil_iff.mpr hhost]

end InnerParseOut

end Netpp
