import Netpp.Library.Cursor
import Netpp.Uri.Components

/-!
# The parser on pointers

`parse_from` as it goes over memory: a pointer is a position in a zero-terminated string, and
reading behind the terminator is a fault. The parser on texts is what it computes. It never
faults, and the ranges that it records lie in the string one after the other. What is passed
belongs to a range or is a delimiter, but the parser does not check that it has come to the
end.
-/

namespace Netpp

open Text (ascii isDigit)

open Cursor Uri

/-- A string that ends with its first zero. -/
abbrev CString := Terminated UInt8 0

structure Range where
  start : Nat
  stop : Nat

/-- `inner_parse_out`. Two pointers are a range, and two null pointers are `none`. -/
structure Pointers where
  scheme : Option Range := none
  uinfo : Option Range := none
  host : Option Range := none
  port : Int := 0
  path : Option Range := none
  query : Option Range := none
  fragment : Option Range := none

namespace Pointers

/-! ## The parser -/

/-- The loop that looks for a colon before the first slash. -/
def isRelativeReference (s : CString) (p2 : Nat) : Outcome Bool :=
  s.forward (fun _ c => .ok
    (if c = 47 ∨ c = 0 then some true else if c = 58 then some false else none)) p2

def scan (s : CString) (stop : List UInt8) (legal : UInt8 → Bool) (p : Nat) : Outcome Nat :=
  s.scan stop.contains legal p

/-- `std::from_chars` reads what is between two pointers. -/
def fromChars (s : CString) (first last : Nat) (value : Int) : Outcome Int :=
  if last ≤ s.chars.length then return InnerParseOut.fromChars (s.slice first last) value
  else .fault

def parseScheme (s : CString) (out : Pointers) (p : Nat) : Outcome (Pointers × Nat) := do
  let relative ← isRelativeReference s p
  if relative then return (out, p)
  else
    let c ← s.read p
    if !isalpha c then .reject
    else
      let schemeEnd ← scan s [58] isSchemeCharacter (p + 1)
      return ({ out with scheme := some ⟨p, schemeEnd⟩ }, schemeEnd + 1)

/-- The end of the host and the port, from the end of the authority backward. -/
def parsePort (s : CString) (authorityBegin authorityEnd : Nat) (port : Int) :
    Outcome (Nat × Int) := do
  let portBegin ← s.back isDigit authorityBegin (authorityEnd - 1 - authorityBegin)
  let c ← s.read portBegin
  if c = 58 then
    let port ← fromChars s (portBegin + 1) authorityEnd port
    return (portBegin, port)
  else return (authorityEnd, port)

/-- The loop that looks for the end of user information. -/
def userInfoEnd (s : CString) (hostEnd uEnd : Nat) : Outcome Nat :=
  s.forward (fun uEnd c => .ok
    (if isUserInfoCharacter c && uEnd ≠ hostEnd then none else some uEnd)) uEnd

/-- The user information and the host. -/
def parseUserInfo (s : CString) (hostBegin hostEnd : Nat) : Outcome (Option Range × Range) := do
  let uEnd ← userInfoEnd s hostEnd hostBegin
  let c ← s.read uEnd
  if c = 64 then return (some ⟨hostBegin, uEnd⟩, ⟨uEnd + 1, hostEnd⟩)
  else return (none, ⟨hostBegin, hostEnd⟩)

def parseAuthority (s : CString) (out : Pointers) (p : Nat) : Outcome (Pointers × Nat) := do
  let c ← s.read p
  if c = 47 then
    let c' ← s.read (p + 1)
    if c' = 47 then
      let authorityBegin := p + 2
      let authorityEnd ← scan s [47, 63, 35, 0] isAuthorityCharacter authorityBegin
      if authorityBegin ≠ authorityEnd then
        let (hostEnd, port) ← parsePort s authorityBegin authorityEnd out.port
        let (uinfo, host) ← parseUserInfo s authorityBegin hostEnd
        return ({ out with uinfo := uinfo.or out.uinfo, host := some host, port := port },
          authorityEnd)
      else return (out, authorityEnd)
    else return (out, p)
  else return (out, p)

def parsePath (s : CString) (out : Pointers) (p : Nat) : Outcome (Pointers × Nat) := do
  let c ← s.read p
  if c = 47 ∨ isPathCharacter c then
    let pathEnd ← scan s [63, 35, 0] isPathCharacter p
    return ({ out with path := some ⟨p, pathEnd⟩ }, pathEnd)
  else return (out, p)

def parseQuery (s : CString) (out : Pointers) (p : Nat) : Outcome (Pointers × Nat) := do
  let c ← s.read p
  if c = 63 then
    let queryEnd ← scan s [35, 0] isQueryCharacter (p + 1)
    return ({ out with query := some ⟨p + 1, queryEnd⟩ }, queryEnd)
  else return (out, p)

def parseFragment (s : CString) (out : Pointers) (p : Nat) : Outcome (Pointers × Nat) := do
  let c ← s.read p
  if c = 35 then
    let fragmentEnd ← scan s [0] isFragmentCharacter (p + 1)
    return ({ out with fragment := some ⟨p + 1, fragmentEnd⟩ }, fragmentEnd)
  else return (out, p)

def parseFrom (s : CString) : Outcome Pointers := do
  let (out, p) ← parseScheme s {} 0
  let (out, p) ← parseAuthority s out p
  let (out, p) ← parsePath s out p
  let (out, p) ← parseQuery s out p
  let (out, _) ← parseFragment s out p
  return out

/-! ## What is recorded -/

/-- The texts between the pointers. -/
def texts (s : CString) (out : Pointers) : InnerParseOut where
  scheme := out.scheme.map fun r => s.slice r.start r.stop
  uinfo := out.uinfo.map fun r => s.slice r.start r.stop
  host := out.host.map fun r => s.slice r.start r.stop
  port := out.port
  path := out.path.map fun r => s.slice r.start r.stop
  query := out.query.map fun r => s.slice r.start r.stop
  fragment := out.fragment.map fun r => s.slice r.start r.stop

/-- The ranges in the order in which they are to stand. -/
def ranges (out : Pointers) : List Range :=
  out.scheme.toList ++ out.uinfo.toList ++ out.host.toList ++ out.path.toList ++
    out.query.toList ++ out.fragment.toList

/-- The ranges lie before a position, one after the other. -/
structure InOrder (out : Pointers) (p : Nat) : Prop where
  wellFormed : ∀ r ∈ out.ranges, r.start ≤ r.stop ∧ r.stop ≤ p
  ordered : out.ranges.Pairwise fun r r' => r.stop ≤ r'.start

/-- Where the authority begins, if there is one. -/
def authorityAt (out : Pointers) : Nat := out.scheme.elim 0 (·.stop + 1)

/-- What stands between the ranges. -/
inductive IsDelimiter (s : CString) (out : Pointers) (i : Nat) : Prop where
  | colon (r : Range) (hr : out.scheme = some r) (hi : i = r.stop) (hchar : s.chars[i]? = some 58)
  | slashes (hi : i = out.authorityAt ∨ i = out.authorityAt + 1)
      (hfirst : s.chars[out.authorityAt]? = some 47)
      (hsecond : s.chars[out.authorityAt + 1]? = some 47)
  | atSign (r : Range) (hr : out.uinfo = some r) (hi : i = r.stop)
      (hchar : s.chars[i]? = some 64)
  | port (r : Range) (hr : out.host = some r) (hi : r.stop ≤ i)
      (hchar : s.chars[r.stop]? = some 58)
      (hdigits : ∀ j, r.stop < j → j ≤ i → ∃ d, s.chars[j]? = some d ∧ isDigit d = true)
  | question (r : Range) (hr : out.query = some r) (hi : i + 1 = r.start)
      (hchar : s.chars[i]? = some 63)
  | hash (r : Range) (hr : out.fragment = some r) (hi : i + 1 = r.start)
      (hchar : s.chars[i]? = some 35)

/-- Every character before a position belongs to a range or is a delimiter. -/
def Accounted (s : CString) (out : Pointers) (p : Nat) : Prop :=
  ∀ i < p, (∃ r ∈ out.ranges, r.start ≤ i ∧ i < r.stop) ∨ IsDelimiter s out i

/-- What holds when the parser has come to a position. -/
structure Reading (s : CString) (out : Pointers) (p : Nat) : Prop where
  le : p ≤ s.chars.length
  inOrder : InOrder out p
  accounted : Accounted s out p

variable {s : CString} {out out' : Pointers} {p q : Nat} {r : Range} {c : UInt8}
  {rest xs : List UInt8}

theorem reading_start (s : CString) : Reading s {} 0 where
  le := Nat.zero_le _
  inOrder := ⟨nofun, List.Pairwise.nil⟩
  accounted := fun i hi => absurd hi (Nat.not_lt_zero i)

/-- The parser goes over delimiters. -/
theorem Reading.advance (h : Reading s out p) (hpq : p ≤ q) (hq : q ≤ s.chars.length)
    (hdelim : ∀ i, p ≤ i → i < q → IsDelimiter s out i) : Reading s out q where
  le := hq
  inOrder := ⟨fun r hr => ⟨(h.inOrder.wellFormed r hr).1,
    (h.inOrder.wellFormed r hr).2.trans hpq⟩, h.inOrder.ordered⟩
  accounted := by
    intro i hi
    by_cases hip : i < p
    · exact h.accounted i hip
    · exact .inr (hdelim i (Nat.not_lt.mp hip) hi)

/-- The parser goes over delimiters and over one more range. -/
theorem Reading.append (h : Reading s out p) (hranges : out'.ranges = out.ranges ++ [r])
    (hp : p ≤ r.start) (hr : r.start ≤ r.stop) (hle : r.stop ≤ s.chars.length)
    (hkept : ∀ i < p, IsDelimiter s out i → IsDelimiter s out' i)
    (hdelim : ∀ i, p ≤ i → i < r.start → IsDelimiter s out' i) : Reading s out' r.stop where
  le := hle
  inOrder := by
    constructor
    · rw [hranges]
      refine List.forall_mem_append.mpr ⟨fun r' hr' => ?_, List.forall_mem_singleton.mpr
        ⟨hr, Nat.le_refl _⟩⟩
      obtain ⟨hwell, hstop⟩ := h.inOrder.wellFormed r' hr'
      exact ⟨hwell, hstop.trans (hp.trans hr)⟩
    · rw [hranges]
      refine List.pairwise_append.mpr ⟨h.inOrder.ordered, List.pairwise_singleton _ r, ?_⟩
      intro r' hr' r'' hr''
      rw [List.mem_singleton.mp hr'']
      exact (h.inOrder.wellFormed r' hr').2.trans hp
  accounted := by
    intro i hi
    rw [hranges]
    by_cases hip : i < p
    · rcases h.accounted i hip with ⟨r', hr', hin⟩ | hdelimiter
      · exact .inl ⟨r', List.mem_append_left _ hr', hin⟩
      · exact .inr (hkept i hip hdelimiter)
    · by_cases hstart : i < r.start
      · exact .inr (hdelim i (Nat.not_lt.mp hip) hstart)
      · exact .inl ⟨r, List.mem_append_right _ (List.mem_singleton_self r),
          Nat.not_lt.mp hstart, hi⟩

/-- Delimiters stay delimiters when more is recorded. -/
theorem IsDelimiter.mono {i : Nat} (h : IsDelimiter s out i) (hscheme : out'.scheme = out.scheme)
    (huinfo : ∀ r, out.uinfo = some r → out'.uinfo = some r)
    (hhost : ∀ r, out.host = some r → out'.host = some r)
    (hquery : ∀ r, out.query = some r → out'.query = some r)
    (hfragment : ∀ r, out.fragment = some r → out'.fragment = some r) : IsDelimiter s out' i := by
  have hat : out'.authorityAt = out.authorityAt := by rw [authorityAt, hscheme, authorityAt]
  cases h with
  | colon r hr hi hchar => exact .colon r (hscheme.trans hr) hi hchar
  | slashes hi hfirst hsecond => exact .slashes (hat ▸ hi) (hat ▸ hfirst) (hat ▸ hsecond)
  | atSign r hr hi hchar => exact .atSign r (huinfo r hr) hi hchar
  | port r hr hi hchar hdigits => exact .port r (hhost r hr) hi hchar hdigits
  | question r hr hi hchar => exact .question r (hquery r hr) hi hchar
  | hash r hr hi hchar => exact .hash r (hfragment r hr) hi hchar

/-! ## The stages -/

/-- The parser on pointers does what the parser on texts does, and `P` holds in the end. -/
def Simulates (s : CString) (P : Pointers → Nat → Prop) (run : Outcome (Pointers × Nat))
    (run' : Option (InnerParseOut × List UInt8)) : Prop :=
  match run with
  | .fault => False
  | .reject => run' = none
  | .ok (out, p) => Reading s out p ∧ P out p ∧ run' = some (out.texts s, s.chars.drop p)

theorem Simulates.bind {P Q : Pointers → Nat → Prop} {run : Outcome (Pointers × Nat)}
    {run' : Option (InnerParseOut × List UInt8)} {f : Pointers × Nat → Outcome (Pointers × Nat)}
    {f' : InnerParseOut × List UInt8 → Option (InnerParseOut × List UInt8)}
    (h : Simulates s P run run')
    (hf : ∀ out p, Reading s out p → P out p →
      Simulates s Q (f (out, p)) (f' (out.texts s, s.chars.drop p))) :
    Simulates s Q (run >>= f) (run'.bind f') := by
  match run with
  | .fault => exact h.elim
  | .reject =>
      change run' = none at h
      rw [h]
      rfl
  | .ok (out, p) =>
      obtain ⟨hreading, hP, hrun'⟩ := h
      rw [hrun']
      exact hf out p hreading hP

theorem getElem?_of_drop (h : s.chars.drop p = c :: rest) : s.chars[p]? = some c := by
  rw [← List.head?_drop, h]
  rfl

theorem lt_of_drop (h : s.chars.drop p = c :: rest) : p < s.chars.length :=
  (List.getElem?_eq_some_iff.mp (getElem?_of_drop h)).1

theorem drop_succ (h : s.chars.drop p = c :: rest) : s.chars.drop (p + 1) = rest := by
  rw [← List.drop_drop, h]
  rfl

theorem read_of_drop (h : s.chars.drop p = c :: rest) : s.read p = .ok c := by
  rw [s.read_eq (Nat.le_of_lt (lt_of_drop h)), h]
  rfl

theorem read_of_end (h : Reading s out p) (hend : s.chars.drop p = []) : s.read p = .ok 0 := by
  rw [s.read_eq h.le, hend]
  rfl

/-- A stage that scans one range. -/
theorem simulates_scan {stop : List UInt8} {legal : UInt8 → Bool} {P : Pointers → Nat → Prop}
    (record : Range → Pointers) (record' : List UInt8 → InnerParseOut) (hlegal : legal 0 = false)
    (h : Reading s out p) (hpq : p ≤ q) (hq : q ≤ s.chars.length)
    (hranges : ∀ r, (record r).ranges = out.ranges ++ [r])
    (htexts : ∀ r, (record r).texts s = record' (s.slice r.start r.stop))
    (hkept : ∀ r i, IsDelimiter s out i → IsDelimiter s (record r) i)
    (hdelim : ∀ r i, r.start = q → p ≤ i → i < q → IsDelimiter s (record r) i)
    (hP : ∀ r p, P (record r) p) :
    Simulates s P (scan s stop legal q >>= fun e => pure (record ⟨q, e⟩, e))
      ((InnerParseOut.scan stop legal (s.chars.drop q)).map fun x => (record' x.1, x.2)) := by
  rw [scan, InnerParseOut.scan]
  rcases s.scan_cases stop.contains hlegal hq with
    ⟨hreject, hnone⟩ | ⟨xs, rest, hdrop, hok, hsome, -⟩
  · rw [hreject, hnone]
    rfl
  · obtain ⟨hslice, hrest⟩ := Terminated.slice_of_drop hdrop
    rw [hok, hsome, Outcome.ok_bind, Outcome.pure_eq]
    refine ⟨h.append (hranges _) hpq (Nat.le_add_right ..) (Terminated.add_length_le hq hdrop)
      (fun i _ => hkept _ i) (fun i hpi hiq => hdelim _ i rfl hpi hiq), hP _ _, ?_⟩
    rw [htexts, hslice, hrest]
    rfl

theorem parsePath_simulates (h : Reading s out p) (hpath : out.path = none)
    (hquery : out.query = none) (hfragment : out.fragment = none) :
    Simulates s (fun out _ => out.query = none ∧ out.fragment = none) (parsePath s out p)
      (InnerParseOut.parsePath (out.texts s) (s.chars.drop p)) := by
  cases hdrop : s.chars.drop p with
  | nil =>
      rw [parsePath, read_of_end h hdrop, Outcome.ok_bind, if_neg (by decide)]
      exact ⟨h, ⟨hquery, hfragment⟩, by rw [hdrop]; rfl⟩
  | cons c rest =>
      rw [parsePath, read_of_drop hdrop, Outcome.ok_bind, InnerParseOut.parsePath]
      split
      next =>
        rw [← hdrop]
        refine simulates_scan (fun r => { out with path := some r })
          (fun xs => { out.texts s with path := some xs }) (by decide) h (Nat.le_refl p) h.le
          (fun r => ?_) (fun r => rfl) (fun r i hi => ?_)
          (fun r i _ hpi hip => absurd hip (Nat.not_lt.mpr hpi)) (fun r _ => ⟨hquery, hfragment⟩)
        · simp [ranges, hpath, hquery, hfragment]
        · exact hi.mono rfl (fun _ => id) (fun _ => id) (fun _ => id) (fun _ => id)
      next => exact ⟨h, ⟨hquery, hfragment⟩, by rw [hdrop]⟩

theorem parseQuery_simulates (h : Reading s out p) (hquery : out.query = none)
    (hfragment : out.fragment = none) :
    Simulates s (fun out _ => out.fragment = none) (parseQuery s out p)
      (InnerParseOut.parseQuery (out.texts s) (s.chars.drop p)) := by
  cases hdrop : s.chars.drop p with
  | nil =>
      rw [parseQuery, read_of_end h hdrop, Outcome.ok_bind, if_neg (by decide)]
      exact ⟨h, hfragment, by rw [hdrop]; rfl⟩
  | cons c rest =>
      rw [parseQuery, read_of_drop hdrop, Outcome.ok_bind]
      by_cases hc : c = 63
      · subst hc
        rw [if_pos rfl, InnerParseOut.parseQuery, ← drop_succ hdrop]
        refine simulates_scan (fun r => { out with query := some r })
          (fun xs => { out.texts s with query := some xs }) (by decide) h (Nat.le_succ p)
          (lt_of_drop hdrop) (fun r => ?_) (fun r => rfl) (fun r i hi => ?_)
          (fun r i hr hpi hip => ?_) (fun r _ => hfragment)
        · simp [ranges, hquery, hfragment]
        · refine hi.mono rfl (fun _ => id) (fun _ => id) (fun r' hr' => ?_) (fun _ => id)
          rw [hquery] at hr'
          cases hr'
        · obtain rfl : i = p := Nat.le_antisymm (Nat.lt_succ_iff.mp hip) hpi
          exact .question r rfl hr.symm (getElem?_of_drop hdrop)
      · rw [if_neg hc, InnerParseOut.parseQuery.eq_def]
        split
        next heq => exact absurd (List.cons.inj heq).1 hc
        next => exact ⟨h, hfragment, by rw [hdrop]⟩

theorem parseFragment_simulates (h : Reading s out p) (hfragment : out.fragment = none) :
    Simulates s (fun _ _ => True) (parseFragment s out p)
      (InnerParseOut.parseFragment (out.texts s) (s.chars.drop p)) := by
  cases hdrop : s.chars.drop p with
  | nil =>
      rw [parseFragment, read_of_end h hdrop, Outcome.ok_bind, if_neg (by decide)]
      exact ⟨h, trivial, by rw [hdrop]; rfl⟩
  | cons c rest =>
      rw [parseFragment, read_of_drop hdrop, Outcome.ok_bind]
      by_cases hc : c = 35
      · subst hc
        rw [if_pos rfl, InnerParseOut.parseFragment, ← drop_succ hdrop]
        refine simulates_scan (fun r => { out with fragment := some r })
          (fun xs => { out.texts s with fragment := some xs }) (by decide) h (Nat.le_succ p)
          (lt_of_drop hdrop) (fun r => ?_) (fun r => rfl) (fun r i hi => ?_)
          (fun r i hr hpi hip => ?_) (fun r _ => trivial)
        · simp [ranges, hfragment]
        · refine hi.mono rfl (fun _ => id) (fun _ => id) (fun _ => id) (fun r' hr' => ?_)
          rw [hfragment] at hr'
          cases hr'
        · obtain rfl : i = p := Nat.le_antisymm (Nat.lt_succ_iff.mp hip) hpi
          exact .hash r rfl hr.symm (getElem?_of_drop hdrop)
      · rw [if_neg hc, InnerParseOut.parseFragment.eq_def]
        split
        next heq => exact absurd (List.cons.inj heq).1 hc
        next => exact ⟨h, trivial, by rw [hdrop]⟩

/-! ### The scheme -/

theorem isRelativeReference_eq (s : CString) (hp : p ≤ s.chars.length) :
    isRelativeReference s p = .ok (InnerParseOut.isRelativeReference (s.chars.drop p)) := by
  induction hdrop : s.chars.drop p generalizing p with
  | nil =>
      rw [isRelativeReference, s.forward_eq _ hp, hdrop]
      rfl
  | cons c rest ih =>
      rw [isRelativeReference, s.forward_eq _ hp, hdrop, List.headD_cons,
        InnerParseOut.isRelativeReference, Outcome.ok_bind]
      by_cases hstop : c = 47 ∨ c = 0
      · rw [if_pos hstop, if_pos hstop]
      · rw [if_neg hstop, if_neg hstop]
        by_cases hcolon : c = 58
        · rw [if_pos hcolon, if_pos hcolon]
        · rw [if_neg hcolon, if_neg hcolon]
          exact ih (lt_of_drop hdrop) (drop_succ hdrop)

/-- Only a scheme may have been recorded, and the authority begins at the position. -/
structure Fresh (out : Pointers) (p : Nat) : Prop where
  uinfo : out.uinfo = none
  host : out.host = none
  path : out.path = none
  query : out.query = none
  fragment : out.fragment = none
  authorityAt : out.authorityAt = p

/-- The characters of a scheme and the colon behind them. -/
theorem reading_scheme (hchars : s.chars = xs ++ 58 :: rest) :
    Reading s { scheme := some ⟨0, xs.length⟩ } (xs.length + 1) := by
  have hlength : s.chars.length = xs.length + (rest.length + 1) := by
    rw [hchars, List.length_append, List.length_cons]
  have hle : xs.length ≤ s.chars.length := by omega
  have hscheme : Reading s { scheme := some ⟨0, xs.length⟩ } xs.length :=
    (reading_start s).append (r := ⟨0, xs.length⟩) rfl (Nat.le_refl 0) (Nat.zero_le _) hle
      (fun i hi => absurd hi (Nat.not_lt_zero i)) (fun i _ hi => absurd hi (Nat.not_lt_zero i))
  refine hscheme.advance (Nat.le_succ _) (by omega) fun i hi hlt => ?_
  obtain rfl : i = xs.length := Nat.le_antisymm (Nat.lt_succ_iff.mp hlt) hi
  exact .colon _ rfl rfl (by rw [hchars]; simp)

theorem parseScheme_simulates (s : CString) :
    Simulates s Fresh (parseScheme s {} 0) (InnerParseOut.parseScheme {} s.chars) := by
  have hrelative := isRelativeReference_eq s (Nat.zero_le s.chars.length)
  rw [List.drop_zero] at hrelative
  rw [parseScheme, hrelative, Outcome.ok_bind, InnerParseOut.parseScheme.eq_def]
  split
  next => exact ⟨reading_start s, ⟨rfl, rfl, rfl, rfl, rfl, rfl⟩, rfl⟩
  next hnot =>
    cases hchars : s.chars with
    | nil =>
        rw [hchars] at hnot
        exact absurd rfl hnot
    | cons c rest =>
        have hdrop : s.chars.drop 0 = c :: rest := hchars
        rw [read_of_drop hdrop, Outcome.ok_bind]
        simp only
        split
        next => rfl
        next =>
          have hrest := drop_succ hdrop
          rw [scan, InnerParseOut.scan, ← hrest]
          have hlegal : isSchemeCharacter 0 = false := by decide
          rcases s.scan_cases [58].contains hlegal (lt_of_drop hdrop) with
            ⟨hreject, hnone⟩ | ⟨xs, rest', hdrop', hok, hsome, -, hstop⟩
          · rw [hreject, hnone]
            rfl
          · obtain ⟨rest', rfl⟩ : ∃ rest'', rest' = 58 :: rest'' := by
              rw [List.contains_iff_mem, List.mem_singleton] at hstop
              cases rest' with
              | nil => cases hstop
              | cons d rest' => exact ⟨rest', congrArg (· :: rest') hstop⟩
            have hall : s.chars = (c :: xs) ++ 58 :: rest' := by
              rw [hchars, ← hrest, hdrop']
              rfl
            have hslice := Terminated.slice_of_drop (p := 0) (s := s) hall
            rw [Nat.zero_add] at hslice
            have hreading := reading_scheme hall
            have hnext := drop_succ hslice.2
            have hend : Nat.succ 0 + xs.length = (c :: xs).length := Nat.add_comm ..
            rw [hok, hsome, Outcome.ok_bind, hend]
            refine ⟨hreading, ⟨rfl, rfl, rfl, rfl, rfl, rfl⟩, ?_⟩
            change some (({ scheme := some (c :: xs) } : InnerParseOut), rest') =
              some (({ scheme := some (s.slice 0 (c :: xs).length) } : InnerParseOut),
                s.chars.drop ((c :: xs).length + 1))
            rw [hslice.1, hnext]

/-! ### The authority -/

variable {b : Nat} {host digits tail : List UInt8} {port : Int}

theorem getElem?_slice_add (s : CString) {first last k : Nat} (hk : first + k < last) :
    s.chars[first + k]? = (s.slice first last)[k]? := (s.getElem?_slice hk).symm

theorem slice_add (s : CString) (first last k : Nat) :
    s.slice (first + k) last = (s.slice first last).drop k := by
  rw [Terminated.slice, Terminated.slice, ← List.drop_drop, List.drop_take, Nat.sub_add_eq]

/-- The backward scan for the port finds what the parser on texts finds. -/
theorem parsePort_eq (hb : b ≤ s.chars.length) (hdrop : s.chars.drop b = xs ++ tail)
    (hne : xs ≠ []) (port : Int) : parsePort s b (b + xs.length) port =
      .ok (b + (InnerParseOut.parsePort xs port).1.length,
        (InnerParseOut.parsePort xs port).2) := by
  have hslice := (Terminated.slice_of_drop hdrop).1
  have hend := Terminated.add_length_le hb hdrop
  have hpos := List.length_pos_iff.mpr hne
  have hk : b + (xs.length - 1) < b + xs.length := by omega
  have hback := s.back_eq isDigit hk hend
  rw [hslice] at hback
  have hle := Scanner.scanBack_le isDigit xs (xs.length - 1)
  rw [parsePort, show b + xs.length - 1 - b = xs.length - 1 by omega, hback, Outcome.ok_bind,
    InnerParseOut.parsePort]
  generalize Scanner.scanBack isDigit xs (xs.length - 1) = portBegin at hle ⊢
  have hlt : portBegin < xs.length := by omega
  have hget : s.chars[b + portBegin]? = some xs[portBegin] := by
    rw [getElem?_slice_add s (Nat.add_lt_add_left hlt b), hslice, List.getElem?_eq_getElem hlt]
  obtain ⟨hin, hchar⟩ := List.getElem?_eq_some_iff.mp hget
  have hread : s.read (b + portBegin) = .ok xs[portBegin] := by
    rw [s.read_eq (Nat.le_of_lt hin), List.drop_eq_getElem_cons hin, List.headD_cons, hchar]
  rw [hread, Outcome.ok_bind, List.getElem?_eq_getElem hlt]
  simp only [Option.some_inj]
  split
  next =>
    rw [fromChars, if_pos hend, Nat.add_assoc, slice_add, hslice, List.length_take,
      Nat.min_eq_left (Nat.le_of_lt hlt)]
    rfl
  next => rfl

theorem userInfoEnd_eq (hp : p ≤ s.chars.length) (hdrop : s.chars.drop p = host ++ tail) :
    userInfoEnd s (p + host.length) p =
      .ok (p + (host.takeWhile isUserInfoCharacter).length) := by
  induction host generalizing p with
  | nil =>
      rw [userInfoEnd, s.forward_eq _ hp]
      simp
  | cons d host ih =>
      rw [List.cons_append] at hdrop
      have hsum (ys : List UInt8) : p + (d :: ys).length = p + 1 + ys.length := by
        rw [List.length_cons, Nat.add_assoc, Nat.add_comm 1]
      rw [hsum, userInfoEnd, s.forward_eq _ hp, hdrop, List.headD_cons, Outcome.ok_bind]
      by_cases hd : isUserInfoCharacter d = true
      · have hgo : (isUserInfoCharacter d && decide (p ≠ p + 1 + host.length)) = true := by
          rw [hd, Bool.true_and, decide_eq_true_iff]
          omega
        rw [if_pos hgo, List.takeWhile_cons_of_pos hd, hsum]
        exact ih (lt_of_drop hdrop) (drop_succ hdrop)
      · have hstop : ¬(isUserInfoCharacter d && decide (p ≠ p + 1 + host.length)) = true := by
          rw [Bool.and_eq_true]
          exact fun h => hd h.1
        rw [if_neg hstop, List.takeWhile_cons_of_neg hd]
        rfl

/-- Behind the host there is no `@`, and the user information is what the parser on texts
finds. -/
theorem parseUserInfo_cases (hb : b ≤ s.chars.length) (hdrop : s.chars.drop b = host ++ tail)
    (htail : tail.headD 0 ≠ 64) :
    InnerParseOut.parseUserInfo host = (none, host) ∧
        parseUserInfo s b (b + host.length) = .ok (none, ⟨b, b + host.length⟩) ∨
      ∃ uinfo rest, host = uinfo ++ 64 :: rest ∧
        InnerParseOut.parseUserInfo host = (some uinfo, rest) ∧
        parseUserInfo s b (b + host.length) =
          .ok (some ⟨b, b + uinfo.length⟩, ⟨b + uinfo.length + 1, b + host.length⟩) := by
  have hhost : host = host.takeWhile isUserInfoCharacter ++ host.dropWhile isUserInfoCharacter :=
    List.takeWhile_append_dropWhile.symm
  have hend := userInfoEnd_eq hb hdrop
  have hrest : s.chars.drop (b + (host.takeWhile isUserInfoCharacter).length) =
      host.dropWhile isUserInfoCharacter ++ tail := by
    refine (Terminated.slice_of_drop ?_).2
    rw [hdrop, ← List.append_assoc, ← hhost]
  have hle : b + (host.takeWhile isUserInfoCharacter).length ≤ s.chars.length := by
    have htotal := Terminated.add_length_le hb hdrop
    have htake := (List.takeWhile_sublist isUserInfoCharacter (l := host)).length_le
    omega
  rw [parseUserInfo, hend, Outcome.ok_bind, s.read_eq hle, hrest, Outcome.ok_bind,
    InnerParseOut.parseUserInfo.eq_def]
  split
  next rest hat =>
    rw [hat, List.cons_append, List.headD_cons, if_pos rfl]
    exact .inr ⟨_, rest, by rw [← hat]; exact hhost, rfl, rfl⟩
  next hno =>
    rw [if_neg]
    · exact .inl ⟨rfl, rfl⟩
    · intro hhead
      cases hdropWhile : host.dropWhile isUserInfoCharacter with
      | nil =>
          rw [hdropWhile] at hhead
          exact htail hhead
      | cons d rest =>
          rw [hdropWhile] at hhead
          exact hno rest (by rw [hdropWhile]; exact congrArg (· :: rest) hhead)

/-- The slashes before an authority. -/
theorem slashes_delimit (hat : out.authorityAt = p) (hdrop : s.chars.drop p = 47 :: 47 :: rest)
    {i : Nat} (hpi : p ≤ i) (hi : i < p + 2) : IsDelimiter s out i := by
  refine .slashes ?_ ?_ ?_
  · rw [hat]
    omega
  · rw [hat]
    exact getElem?_of_drop hdrop
  · rw [hat]
    exact getElem?_of_drop (drop_succ hdrop)

/-- A host without user information. -/
theorem reading_host (h : Reading s out p) (hfresh : Fresh out p)
    (hdrop : s.chars.drop p = 47 :: 47 :: (host ++ tail)) (port : Int) :
    Reading s { out with host := some ⟨p + 2, p + 2 + host.length⟩, port := port }
      (p + 2 + host.length) := by
  have hb : s.chars.drop (p + 2) = host ++ tail := drop_succ (drop_succ hdrop)
  have hle : p + 2 ≤ s.chars.length := lt_of_drop (drop_succ hdrop)
  refine h.append (r := ⟨p + 2, p + 2 + host.length⟩) ?_ (Nat.le_add_right ..)
    (Nat.le_add_right ..) (Terminated.add_length_le hle hb) (fun i _ hi => ?_) fun i hpi hi => ?_
  · simp [ranges, hfresh.host, hfresh.path, hfresh.query, hfresh.fragment]
  · refine hi.mono rfl (fun _ => id) (fun r hr => ?_) (fun _ => id) (fun _ => id)
    rw [hfresh.host] at hr
    cases hr
  · exact slashes_delimit (by exact hfresh.authorityAt) hdrop hpi hi

/-- User information and the host behind it. -/
theorem reading_userInfo {uinfo : List UInt8} (h : Reading s out p) (hfresh : Fresh out p)
    (hdrop : s.chars.drop p = 47 :: 47 :: (uinfo ++ 64 :: host ++ tail)) (port : Int) :
    Reading s { out with
      uinfo := some ⟨p + 2, p + 2 + uinfo.length⟩
      host := some ⟨p + 2 + uinfo.length + 1, p + 2 + uinfo.length + 1 + host.length⟩
      port := port } (p + 2 + uinfo.length + 1 + host.length) := by
  have hb : s.chars.drop (p + 2) = uinfo ++ (64 :: host ++ tail) := by
    rw [← List.append_assoc]
    exact drop_succ (drop_succ hdrop)
  have hle : p + 2 ≤ s.chars.length := lt_of_drop (drop_succ hdrop)
  have hat : s.chars.drop (p + 2 + uinfo.length) = 64 :: (host ++ tail) :=
    (Terminated.slice_of_drop hb).2
  have huinfo : Reading s { out with uinfo := some ⟨p + 2, p + 2 + uinfo.length⟩ }
      (p + 2 + uinfo.length) := by
    refine h.append (r := ⟨p + 2, p + 2 + uinfo.length⟩) ?_ (Nat.le_add_right ..)
      (Nat.le_add_right ..) (Nat.le_of_lt (lt_of_drop hat)) (fun i _ hi => ?_) fun i hpi hi => ?_
    · simp [ranges, hfresh.uinfo, hfresh.host, hfresh.path, hfresh.query, hfresh.fragment]
    · refine hi.mono rfl (fun r hr => ?_) (fun _ => id) (fun _ => id) (fun _ => id)
      rw [hfresh.uinfo] at hr
      cases hr
    · exact slashes_delimit (by exact hfresh.authorityAt) hdrop hpi hi
  refine huinfo.append
    (r := ⟨p + 2 + uinfo.length + 1, p + 2 + uinfo.length + 1 + host.length⟩) ?_
    (Nat.le_succ _) (Nat.le_add_right ..)
    (Terminated.add_length_le (lt_of_drop hat) (drop_succ hat)) (fun i _ hi => ?_)
    fun i hpi hi => ?_
  · simp [ranges, hfresh.host, hfresh.path, hfresh.query, hfresh.fragment]
  · refine hi.mono rfl (fun _ => id) (fun r hr => ?_) (fun _ => id) (fun _ => id)
    rw [hfresh.host] at hr
    cases hr
  · obtain rfl : i = p + 2 + uinfo.length := Nat.le_antisymm (Nat.lt_succ_iff.mp hi) hpi
    exact .atSign _ rfl rfl (getElem?_of_drop hat)

/-- The digits of a port and the colon before them. -/
theorem reading_port (h : Reading s out p) (first : Nat) (hhost : out.host = some ⟨first, p⟩)
    (hdrop : s.chars.drop p = 58 :: digits ++ tail) (hdigits : ∀ d ∈ digits, isDigit d = true) :
    Reading s out (p + (58 :: digits).length) := by
  refine h.advance (Nat.le_add_right ..) (Terminated.add_length_le h.le hdrop) fun i hpi hi => ?_
  refine .port _ hhost hpi (getElem?_of_drop hdrop) fun j hpj hji => ?_
  obtain ⟨k, rfl⟩ : ∃ k, j = p + k + 1 := Nat.exists_eq_add_of_lt hpj
  have hk : k < digits.length := by
    rw [List.length_cons] at hi
    omega
  refine ⟨digits[k], ?_, hdigits _ (List.getElem_mem hk)⟩
  rw [← List.head?_drop, Nat.add_assoc, ← List.drop_drop, hdrop, List.cons_append,
    List.drop_succ_cons, List.drop_append_of_le_length (Nat.le_of_lt hk),
    List.drop_eq_getElem_cons hk]
  rfl

/-- The user information and the host are recorded, and the host goes to the given end. -/
theorem reading_parseUserInfo (h : Reading s out p) (hfresh : Fresh out p)
    (hdrop : s.chars.drop p = 47 :: 47 :: (host ++ tail)) (htail : tail.headD 0 ≠ 64) (port : Int) :
    ∃ (uinfo : Option Range) (r : Range),
      parseUserInfo s (p + 2) (p + 2 + host.length) = .ok (uinfo, r) ∧
      r.stop = p + 2 + host.length ∧
      Reading s { out with uinfo := uinfo.or out.uinfo, host := some r, port := port }
        (p + 2 + host.length) ∧
      { out with uinfo := uinfo.or out.uinfo, host := some r, port := port }.texts s =
        { out.texts s with
          uinfo := (InnerParseOut.parseUserInfo host).1
          host := some (InnerParseOut.parseUserInfo host).2
          port := port } := by
  have hle : p + 2 ≤ s.chars.length := lt_of_drop (drop_succ hdrop)
  have hb : s.chars.drop (p + 2) = host ++ tail := drop_succ (drop_succ hdrop)
  rcases parseUserInfo_cases hle hb htail with
    ⟨htexts, hrun⟩ | ⟨uinfo, rest, rfl, htexts, hrun⟩
  · have hslice := (Terminated.slice_of_drop hb).1
    refine ⟨none, _, hrun, rfl, ?_, ?_⟩
    · have hreading := reading_host h hfresh hdrop port
      rw [Option.none_or]
      exact hreading
    · simp only [Option.none_or, texts, htexts, hfresh.uinfo, Option.map_some, Option.map_none,
        hslice]
  · have hdrop' : s.chars.drop p = 47 :: 47 :: (uinfo ++ 64 :: rest ++ tail) := hdrop
    have hend : p + 2 + uinfo.length + 1 + rest.length = p + 2 + (uinfo ++ 64 :: rest).length := by
      rw [List.length_append, List.length_cons]
      omega
    have hb' : s.chars.drop (p + 2) = uinfo ++ (64 :: (rest ++ tail)) := by
      rw [hb, List.append_assoc]
      rfl
    obtain ⟨hslice, hat⟩ := Terminated.slice_of_drop hb'
    have hslice' := (Terminated.slice_of_drop (drop_succ hat)).1
    rw [hend] at hslice'
    refine ⟨some _, _, hrun, rfl, ?_, ?_⟩
    · have hreading := reading_userInfo h hfresh hdrop' port
      rw [hend] at hreading
      exact hreading
    · simp only [Option.some_or, texts, htexts, Option.map_some, hslice, hslice']

/-- The parts of an authority that is not empty. -/
theorem parseParts_simulates (h : Reading s out p) (hfresh : Fresh out p)
    (hdrop : s.chars.drop p = 47 :: 47 :: (xs ++ tail)) (hne : xs ≠ [])
    (htail : tail.headD 0 ∈ ([47, 63, 35, 0] : List UInt8)) :
    Simulates s (fun out _ => out.path = none ∧ out.query = none ∧ out.fragment = none)
      (parsePort s (p + 2) (p + 2 + xs.length) out.port >>= fun hostPort =>
        parseUserInfo s (p + 2) hostPort.1 >>= fun uinfoHost =>
          pure ({ out with
            uinfo := uinfoHost.1.or out.uinfo
            host := some uinfoHost.2
            port := hostPort.2 }, p + 2 + xs.length))
      (some (Components.withAuthority (out.texts s) (some xs), tail)) := by
  have hle : p + 2 ≤ s.chars.length := lt_of_drop (drop_succ hdrop)
  have hb : s.chars.drop (p + 2) = xs ++ tail := drop_succ (drop_succ hdrop)
  have htail' : tail.headD 0 ≠ 64 := by
    intro hat
    rw [hat] at htail
    exact absurd htail (by decide)
  have hauthority : Components.withAuthority (out.texts s) (some xs) =
      { out.texts s with
        uinfo := (InnerParseOut.parseUserInfo (InnerParseOut.parsePort xs out.port).1).1
        host := some (InnerParseOut.parseUserInfo (InnerParseOut.parsePort xs out.port).1).2
        port := (InnerParseOut.parsePort xs out.port).2 } := by
    obtain ⟨d, ds, rfl⟩ := List.exists_cons_of_ne_nil hne
    rfl
  have hrest := (Terminated.slice_of_drop hb).2
  rw [parsePort_eq hle hb hne, Outcome.ok_bind, hauthority]
  rcases Components.parsePort_cases xs out.port with
    hport | ⟨host, digits, rfl, hdigits, hport⟩
  · rw [hport]
    obtain ⟨uinfo, r, hrun, -, hreading, htexts⟩ :=
      reading_parseUserInfo h hfresh hdrop htail' out.port
    rw [hrun]
    refine ⟨hreading, ⟨hfresh.path, hfresh.query, hfresh.fragment⟩, ?_⟩
    rw [htexts, hrest]
  · rw [hport]
    have hdrop' : s.chars.drop p = 47 :: 47 :: (host ++ (58 :: digits ++ tail)) := by
      rw [hdrop, List.append_assoc]
    have hcolon : s.chars.drop (p + 2 + host.length) = 58 :: digits ++ tail :=
      (Terminated.slice_of_drop (drop_succ (drop_succ hdrop'))).2
    obtain ⟨uinfo, r, hrun, hstop, hreading, htexts⟩ := reading_parseUserInfo h hfresh hdrop'
      (by rw [List.cons_append, List.headD_cons]; decide) (InnerParseOut.fromChars digits out.port)
    have hend : p + 2 + host.length + (58 :: digits).length =
        p + 2 + (host ++ 58 :: digits).length := by
      rw [List.length_append, Nat.add_assoc]
    have hdone := reading_port hreading r.start (by rw [← hstop]) hcolon hdigits
    rw [hend] at hdone
    rw [hrun]
    refine ⟨hdone, ⟨hfresh.path, hfresh.query, hfresh.fragment⟩, ?_⟩
    rw [htexts, hrest]

/-- The slashes of an empty authority are passed. -/
theorem reading_slashes (h : Reading s out p) (hfresh : Fresh out p)
    (hdrop : s.chars.drop p = 47 :: 47 :: rest) : Reading s out (p + 2) :=
  h.advance (Nat.le_add_right ..) (lt_of_drop (drop_succ hdrop))
    fun _ => slashes_delimit hfresh.authorityAt hdrop

theorem parseAuthority_slashes (h : Reading s out p) (hfresh : Fresh out p)
    (hdrop : s.chars.drop p = 47 :: 47 :: rest) :
    Simulates s (fun out _ => out.path = none ∧ out.query = none ∧ out.fragment = none)
      (parseAuthority s out p)
      (InnerParseOut.parseAuthority (out.texts s) (47 :: 47 :: rest)) := by
  have hb : s.chars.drop (p + 2) = rest := drop_succ (drop_succ hdrop)
  have hreading := reading_slashes h hfresh hdrop
  rw [parseAuthority, read_of_drop hdrop, Outcome.ok_bind, read_of_drop (drop_succ hdrop),
    Outcome.ok_bind, if_pos rfl, if_pos rfl, InnerParseOut.parseAuthority, InnerParseOut.scan, ← hb]
  simp only [scan]
  have hlegal : isAuthorityCharacter 0 = false := by decide
  rcases s.scan_cases [47, 63, 35, 0].contains hlegal hreading.le with
    ⟨hreject, hnone⟩ | ⟨xs, tail, hdrop', hok, hsome, -, hstop⟩
  · rw [hreject, hnone]
    rfl
  · rw [hok, hsome, Outcome.ok_bind]
    simp only [Option.bind_eq_bind, Option.bind_some]
    cases xs with
    | nil =>
        rw [if_neg (by simp)]
        refine ⟨hreading, ⟨hfresh.path, hfresh.query, hfresh.fragment⟩, ?_⟩
        rw [(Terminated.slice_of_drop hdrop').2]
        rfl
    | cons d xs =>
        rw [if_pos (by simp), if_neg (List.cons_ne_nil d xs)]
        exact parseParts_simulates h hfresh
          (hdrop.trans (congrArg (47 :: 47 :: ·) (hb.symm.trans hdrop'))) (List.cons_ne_nil d xs)
          (List.contains_iff_mem.mp hstop)

theorem parseAuthority_simulates (h : Reading s out p) (hfresh : Fresh out p) :
    Simulates s (fun out _ => out.path = none ∧ out.query = none ∧ out.fragment = none)
      (parseAuthority s out p)
      (InnerParseOut.parseAuthority (out.texts s) (s.chars.drop p)) := by
  have hsame (hno : ∀ rest, s.chars.drop p ≠ 47 :: 47 :: rest) :
      Simulates s (fun out _ => out.path = none ∧ out.query = none ∧ out.fragment = none)
        (.ok (out, p)) (InnerParseOut.parseAuthority (out.texts s) (s.chars.drop p)) := by
    refine ⟨h, ⟨hfresh.path, hfresh.query, hfresh.fragment⟩, ?_⟩
    rw [InnerParseOut.parseAuthority.eq_def]
    split
    next rest heq => exact absurd heq (hno rest)
    next => rfl
  cases hdrop : s.chars.drop p with
  | nil =>
      rw [parseAuthority, read_of_end h hdrop, ← hdrop]
      refine hsame fun rest heq => ?_
      rw [hdrop] at heq
      cases heq
  | cons c rest =>
      by_cases hslashes : c = 47 ∧ rest.headD 0 = 47
      · obtain ⟨rfl, hhead⟩ := hslashes
        cases rest with
        | nil => cases hhead
        | cons c rest =>
            obtain rfl : c = 47 := hhead
            exact parseAuthority_slashes h hfresh hdrop
      · have hrun : parseAuthority s out p = .ok (out, p) := by
          rw [parseAuthority, read_of_drop hdrop, Outcome.ok_bind, s.read_eq (lt_of_drop hdrop),
            drop_succ hdrop]
          by_cases hc : c = 47
          · rw [if_pos hc, Outcome.ok_bind, if_neg fun hc' => hslashes ⟨hc, hc'⟩]
            rfl
          · rw [if_neg hc]
            rfl
        rw [hrun, ← hdrop]
        refine hsame fun rest' heq => hslashes ?_
        rw [hdrop] at heq
        cases heq
        exact ⟨rfl, rfl⟩

/-! ## The whole text -/

/-- The parser, with the position that it has come to. -/
def parseAll (s : CString) : Outcome (Pointers × Nat) := do
  let (out, p) ← parseScheme s {} 0
  let (out, p) ← parseAuthority s out p
  let (out, p) ← parsePath s out p
  let (out, p) ← parseQuery s out p
  parseFragment s out p

theorem parseAll_simulates (s : CString) :
    Simulates s (fun _ _ => True) (parseAll s) (Components.parseAll s.chars) := by
  refine (parseScheme_simulates s).bind fun out p h hfresh => ?_
  refine (parseAuthority_simulates h hfresh).bind fun out p h hnone => ?_
  refine (parsePath_simulates h hnone.1 hnone.2.1 hnone.2.2).bind fun out p h hnone => ?_
  refine (parseQuery_simulates h hnone.1 hnone.2).bind fun out p h hnone => ?_
  exact parseFragment_simulates h hnone

theorem parseFrom_eq_bind (s : CString) :
    parseFrom s = (parseAll s >>= fun x => pure x.1) := by
  simp only [parseFrom, parseAll, Outcome.bind_assoc]

/-- The parser on pointers never faults, and it does what the parser on texts does. -/
theorem parseFrom_refines (s : CString) :
    parseFrom s = .reject ∧ InnerParseOut.parseFrom s.chars = none ∨
      ∃ out p, parseFrom s = .ok out ∧ Reading s out p ∧
        Components.parseAll s.chars = some (out.texts s, s.chars.drop p) := by
  have hsimulates := parseAll_simulates s
  rw [parseFrom_eq_bind, Components.parseFrom_eq_map]
  match parseAll s, hsimulates with
  | .reject, hnone =>
      change Components.parseAll s.chars = none at hnone
      exact .inl ⟨rfl, by rw [hnone]; rfl⟩
  | .ok (out, p), ⟨hreading, _, hsome⟩ => exact .inr ⟨out, p, rfl, hreading, hsome⟩

/-- The parser stays in the text, and it accounts for every character of what it accepts. -/
def WellRead (s : CString) : Prop :=
  parseFrom s ≠ .fault ∧
    ∀ out, parseFrom s = .ok out → InOrder out s.chars.length ∧ Accounted s out s.chars.length

/-- What follows the scheme, or what the text begins with if there is none, is legal in no
component. -/
def TrailsOff (text : List UInt8) : Prop :=
  ∃ (scheme : Option (List UInt8)) (d : UInt8) (rest : List UInt8),
    text = scheme.elim [] (· ++ [58]) ++ d :: rest ∧
      (∀ xs, scheme = some xs → Components.IsScheme xs) ∧
        (scheme = none → InnerParseOut.isRelativeReference text = true) ∧
          isPathCharacter d = false ∧ d ≠ 63 ∧ d ≠ 35

theorem TrailsOff.components {text : List UInt8} (h : TrailsOff text) :
    ∃ c : Components, c.Valid ∧ c.text = text ∧ ∃ d rest,
      c.rest = d :: rest ∧ isPathCharacter d = false ∧ d ≠ 63 ∧ d ≠ 35 := by
  obtain ⟨scheme, d, rest, rfl, hscheme, hrelative, hpath, hquery, hfragment⟩ := h
  refine ⟨⟨scheme, none, none, none, none, d :: rest⟩, ?_, rfl, d, rest, rfl, hpath, hquery,
    hfragment⟩
  refine ⟨hscheme, hrelative, nofun, fun _ hslashes => ?_, nofun, fun _ => hpath, nofun,
    fun _ => hquery, nofun, fun _ => hfragment⟩
  obtain ⟨rfl, -⟩ := List.cons_prefix_cons.mp hslashes
  exact absurd hpath (by decide)

/-- What is left behind valid components trails off, if it does not begin with a zero. -/
theorem trailsOff_of_rest {c : Components} (h : c.Valid) (hne : c.rest.headD 0 ≠ 0) :
    TrailsOff c.text := by
  have hfragment : c.fragment = none := by
    refine Option.eq_none_iff_forall_ne_some.mpr fun f hf => hne (h.fragment f hf).2
  have hfromFragment := Components.fromFragment_of_none hfragment
  have hhash := h.no_fragment hfragment
  have hquery : c.query = none := by
    refine Option.eq_none_iff_forall_ne_some.mpr fun q hq => ?_
    have hstop := (h.query q hq).2
    rw [hfromFragment] at hstop
    simp only [List.mem_cons, List.not_mem_nil, or_false] at hstop
    exact hstop.elim hhash hne
  have hfromQuery := (Components.fromQuery_of_none hquery).trans hfromFragment
  have hquestion := h.no_query hquery
  rw [hfromFragment] at hquestion
  have hpath : c.path = none := by
    refine Option.eq_none_iff_forall_ne_some.mpr fun x hx => ?_
    have hstop := (h.path x hx).2.2
    rw [hfromQuery] at hstop
    simp only [List.mem_cons, List.not_mem_nil, or_false] at hstop
    exact hstop.elim hquestion (·.elim hhash hne)
  have hillegal := h.no_path hpath
  rw [hfromQuery] at hillegal
  have hfromPath := (Components.fromPath_of_none hpath).trans hfromQuery
  have hauthority : c.authority = none := by
    refine Option.eq_none_iff_forall_ne_some.mpr fun a ha => ?_
    have hstop := (h.authority a ha).2
    rw [hfromPath] at hstop
    simp only [List.mem_cons, List.not_mem_nil, or_false] at hstop
    rcases hstop with hslash | hstop
    · rw [hslash] at hillegal
      exact absurd hillegal (by decide)
    · exact hstop.elim hquestion (·.elim hhash hne)
  obtain ⟨d, rest, hrest⟩ := List.exists_cons_of_ne_nil (l := c.rest) (by
    intro hnil
    rw [hnil] at hne
    exact hne rfl)
  rw [hrest] at hhash hquestion hillegal
  refine ⟨c.scheme, d, rest, ?_, h.scheme, h.relative, hillegal, hquestion, hhash⟩
  rw [Components.text, Components.fromAuthority_of_none hauthority, hfromPath, hrest]

/-- A delimiter is a character that can begin what is read. -/
theorem IsDelimiter.character {i : Nat} (h : IsDelimiter s out i) :
    ∃ d, s.chars[i]? = some d ∧ (isPathCharacter d = true ∨ d = 63 ∨ d = 35) := by
  have hdigit (d : UInt8) (hd : isDigit d = true) : isPathCharacter d = true := by
    simp [isPathCharacter, isUnreserved, isalnum, hd]
  cases h with
  | colon r _ _ hchar => exact ⟨58, hchar, .inl (by decide)⟩
  | slashes hi hfirst hsecond =>
      rcases hi with rfl | rfl
      · exact ⟨47, hfirst, .inl (by decide)⟩
      · exact ⟨47, hsecond, .inl (by decide)⟩
  | atSign r _ _ hchar => exact ⟨64, hchar, .inl (by decide)⟩
  | port r _ hi hchar hdigits =>
      rcases Nat.lt_or_eq_of_le hi with hlt | rfl
      · obtain ⟨d, hd, hkind⟩ := hdigits i hlt (Nat.le_refl i)
        exact ⟨d, hd, .inl (hdigit d hkind)⟩
      · exact ⟨58, hchar, .inl (by decide)⟩
  | question r _ _ hchar => exact ⟨63, hchar, .inr (.inl rfl)⟩
  | hash r _ _ hchar => exact ⟨35, hchar, .inr (.inr rfl)⟩

theorem not_wellRead (htrails : TrailsOff s.chars) : ¬WellRead s := by
  rintro ⟨-, haccounts⟩
  obtain ⟨c, hc, htext, d, rest, hrest, hpath, hquery, hfragment⟩ := htrails.components
  have hall := hc.parseAll_eq
  rw [htext] at hall
  rcases parseFrom_refines s with ⟨-, hnone⟩ | ⟨out, p, hok, hreading, hsome⟩
  · rw [Components.parseFrom_eq_map, hall] at hnone
    cases hnone
  · rw [hsome, Option.some.injEq, Prod.mk.injEq, hrest] at hall
    have hdrop := hall.2
    rcases (haccounts out hok).2 p (lt_of_drop hdrop) with ⟨r, hr, -, hlt⟩ | hdelimiter
    · exact absurd (hreading.inOrder.wellFormed r hr).2 (Nat.not_le.mpr hlt)
    · obtain ⟨d', hd', hkind⟩ := hdelimiter.character
      rw [getElem?_of_drop hdrop] at hd'
      cases hd'
      rw [hpath] at hkind
      exact hkind.elim nofun (·.elim hquery hfragment)

theorem wellRead (htrails : ¬TrailsOff s.chars) : WellRead s := by
  rcases parseFrom_refines s with ⟨hreject, -⟩ | ⟨out, p, hok, hreading, hsome⟩
  · rw [WellRead, hreject]
    exact ⟨nofun, nofun⟩
  · obtain ⟨c, hc, htext, -, hrest⟩ := Components.parseAll_eq_some_iff.mp hsome
    have hend : s.chars.drop p = [] := by
      by_contra hne
      obtain ⟨d, rest, hdrop⟩ := List.exists_cons_of_ne_nil hne
      have hd : d ≠ 0 := by
        rintro rfl
        exact s.notMem (List.mem_of_getElem? (getElem?_of_drop hdrop))
      refine htrails (htext ▸ trailsOff_of_rest hc ?_)
      rwa [hrest, hdrop]
    have hp : p = s.chars.length := Nat.le_antisymm hreading.le (List.drop_eq_nil_iff.mp hend)
    rw [WellRead, hok]
    refine ⟨nofun, fun out' hout' => ?_⟩
    cases hout'
    rw [← hp]
    exact ⟨hreading.inOrder, hreading.accounted⟩

/-- Parsing accounts for the whole text exactly if the text does not trail off. -/
theorem wellRead_iff (s : CString) : WellRead s ↔ ¬TrailsOff s.chars :=
  ⟨fun hread htrails => not_wellRead htrails hread, wellRead⟩

/-- A scheme and a character that is legal nowhere. -/
theorem wellRead_fails : ¬∀ s : CString, WellRead s := by
  intro h
  refine not_wellRead (s := ⟨ascii "http:^junk", by decide⟩) ?_ (h _)
  exact ⟨some (ascii "http"), 94, ascii "junk", by decide, by
    rintro xs ⟨⟩
    have hall : (ascii "ttp").all isSchemeCharacter = true := by decide
    exact ⟨104, ascii "ttp", by decide, by decide, List.all_eq_true.mp hall⟩, nofun, by decide,
    by decide, by decide⟩

end Pointers

end Netpp
