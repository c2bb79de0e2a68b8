import Netpp.Uri.Uri

/-!
# The components of an accepted text

The texts that `parse_from` accepts are those that are put together of legal components,
each with its delimiters. What follows the last component, if anything does, begins with a
terminator or with a character that is legal in no component.
-/

namespace Netpp

open Text (ascii isDigit)

open Uri InnerParseOut

/-- The components as they stand in a text, `none` for one that is not there, and what
follows them. -/
structure Components where
  scheme : Option (List UInt8)
  authority : Option (List UInt8)
  path : Option (List UInt8)
  query : Option (List UInt8)
  fragment : Option (List UInt8)
  rest : List UInt8

namespace Components

def fromFragment (c : Components) : List UInt8 := c.fragment.elim [] (35 :: ·) ++ c.rest

def fromQuery (c : Components) : List UInt8 := c.query.elim [] (63 :: ·) ++ c.fromFragment

def fromPath (c : Components) : List UInt8 := c.path.getD [] ++ c.fromQuery

def fromAuthority (c : Components) : List UInt8 :=
  c.authority.elim [] (fun authority => 47 :: 47 :: authority) ++ c.fromPath

def text (c : Components) : List UInt8 := c.scheme.elim [] (· ++ [58]) ++ c.fromAuthority

/-- A scheme begins with a letter. -/
def IsScheme (scheme : List UInt8) : Prop :=
  ∃ c xs, scheme = c :: xs ∧ isalpha c = true ∧ ∀ d ∈ xs, isSchemeCharacter d = true

structure Valid (c : Components) : Prop where
  scheme : ∀ s, c.scheme = some s → IsScheme s
  relative : c.scheme = none → isRelativeReference c.text = true
  authority : ∀ a, c.authority = some a →
    (∀ d ∈ a, isAuthorityCharacter d = true) ∧ c.fromPath.headD 0 ∈ [47, 63, 35, 0]
  no_authority : c.authority = none → ¬[47, 47] <+: c.fromPath
  path : ∀ p, c.path = some p →
    p ≠ [] ∧ (∀ d ∈ p, isPathCharacter d = true) ∧ c.fromQuery.headD 0 ∈ [63, 35, 0]
  no_path : c.path = none → isPathCharacter (c.fromQuery.headD 0) = false
  query : ∀ q, c.query = some q →
    (∀ d ∈ q, isQueryCharacter d = true) ∧ c.fromFragment.headD 0 ∈ [35, 0]
  no_query : c.query = none → c.fromFragment.headD 0 ≠ 63
  fragment : ∀ f, c.fragment = some f →
    (∀ d ∈ f, isFragmentCharacter d = true) ∧ c.rest.headD 0 = 0
  no_fragment : c.fragment = none → c.rest.headD 0 ≠ 35

/-- The host and the port of an authority, and the user information and the host of that. -/
def withAuthority (out : InnerParseOut) (authority : Option (List UInt8)) : InnerParseOut :=
  match authority with
  | none => out
  | some [] => out
  | some authority =>
      let hostPort := parsePort authority out.port
      let uinfoHost := parseUserInfo hostPort.1
      { out with uinfo := uinfoHost.1, host := some uinfoHost.2, port := hostPort.2 }

/-- What `parse_from` finds. -/
def out (c : Components) : InnerParseOut :=
  { withAuthority { scheme := c.scheme } c.authority with
    path := c.path, query := c.query, fragment := c.fragment }

variable {c : Components} {o o' : InnerParseOut} {p p' text : List UInt8}

theorem fromFragment_of_none (h : c.fragment = none) : c.fromFragment = c.rest := by
  rw [fromFragment, h]
  rfl

theorem fromFragment_of_some {f : List UInt8} (h : c.fragment = some f) :
    c.fromFragment = 35 :: (f ++ c.rest) := by
  rw [fromFragment, h]
  rfl

theorem fromQuery_of_none (h : c.query = none) : c.fromQuery = c.fromFragment := by
  rw [fromQuery, h]
  rfl

theorem fromQuery_of_some {q : List UInt8} (h : c.query = some q) :
    c.fromQuery = 63 :: (q ++ c.fromFragment) := by
  rw [fromQuery, h]
  rfl

theorem fromPath_of_none (h : c.path = none) : c.fromPath = c.fromQuery := by
  rw [fromPath, h]
  rfl

theorem fromPath_of_some (h : c.path = some p) : c.fromPath = p ++ c.fromQuery := by
  rw [fromPath, h]
  rfl

theorem fromAuthority_of_none (h : c.authority = none) : c.fromAuthority = c.fromPath := by
  rw [fromAuthority, h]
  rfl

theorem fromAuthority_of_some {a : List UInt8} (h : c.authority = some a) :
    c.fromAuthority = 47 :: 47 :: (a ++ c.fromPath) := by
  rw [fromAuthority, h]
  rfl

theorem text_of_none (h : c.scheme = none) : c.text = c.fromAuthority := by
  rw [Components.text, h]
  rfl

theorem text_of_some {s : List UInt8} (h : c.scheme = some s) :
    c.text = s ++ 58 :: c.fromAuthority := by
  rw [Components.text, h]
  exact List.append_assoc ..

/-! ## What is read is legal -/

theorem of_scan {stop : List UInt8} {legal : UInt8 → Bool} {xs rest : List UInt8}
    (h : scan stop legal text = some (xs, rest)) :
    text = xs ++ rest ∧ (∀ d ∈ xs, legal d = true) ∧ rest.headD 0 ∈ stop := by
  obtain ⟨htext, hxs, hrest⟩ := Scanner.of_scan h
  exact ⟨htext, fun d hd => (hxs d hd).2, List.contains_iff_mem.mp hrest⟩

theorem of_parseScheme (h : parseScheme {} text = some (o, p)) :
    ∃ scheme : Option (List UInt8), o = { scheme := scheme } ∧
      text = scheme.elim [] (· ++ [58]) ++ p ∧ (∀ s, scheme = some s → IsScheme s) ∧
        (scheme = none → isRelativeReference text = true) := by
  rw [parseScheme.eq_def] at h
  split at h
  next hrelative =>
    cases h
    exact ⟨none, rfl, rfl, nofun, fun _ => hrelative⟩
  next =>
    split at h
    next => cases h
    next _ c xs _ =>
      split at h
      next => cases h
      next halpha =>
        obtain ⟨⟨scheme, rest⟩, hscan, heq⟩ := Option.map_eq_some_iff.mp h
        cases heq
        obtain ⟨rfl, hscheme, hrest⟩ := of_scan hscan
        obtain ⟨rest, rfl⟩ : ∃ rest', rest = 58 :: rest' := by
          cases rest with
          | nil => exact absurd hrest (by decide)
          | cons d rest => exact ⟨rest, congrArg (· :: rest) (List.mem_singleton.mp hrest)⟩
        refine ⟨some (c :: scheme), rfl, by simp, ?_, nofun⟩
        rintro s ⟨⟩
        exact ⟨c, scheme, rfl, by simpa using halpha, hscheme⟩

theorem of_parseAuthority (h : parseAuthority o p = some (o', p')) :
    ∃ authority : Option (List UInt8), o' = withAuthority o authority ∧
      p = authority.elim [] (fun a => 47 :: 47 :: a) ++ p' ∧
      (∀ a, authority = some a →
        (∀ d ∈ a, isAuthorityCharacter d = true) ∧ p'.headD 0 ∈ [47, 63, 35, 0]) ∧
      (authority = none → ¬[47, 47] <+: p') := by
  rw [parseAuthority.eq_def] at h
  split at h
  next p =>
    obtain ⟨⟨authority, rest⟩, hscan, hend⟩ := Option.bind_eq_some_iff.mp h
    obtain ⟨rfl, hauthority, hrest⟩ := of_scan hscan
    refine ⟨some authority, ?_⟩
    have hp : p' = rest ∧ o' = withAuthority o (some authority) := by
      clear h
      simp only at hend
      split at hend
      next hnil =>
        cases hend
        exact ⟨rfl, by rw [hnil]; rfl⟩
      next hne =>
        cases hend
        obtain ⟨d, xs, rfl⟩ := List.exists_cons_of_ne_nil hne
        exact ⟨rfl, rfl⟩
    obtain ⟨rfl, rfl⟩ := hp
    refine ⟨rfl, rfl, ?_, nofun⟩
    rintro a ⟨⟩
    exact ⟨hauthority, hrest⟩
  next hno =>
    cases h
    refine ⟨none, rfl, rfl, nofun, fun _ => ?_⟩
    rintro ⟨rest, hrest⟩
    exact hno rest hrest.symm

theorem of_parsePath (hnone : o.path = none) (h : parsePath o p = some (o', p')) :
    ∃ path : Option (List UInt8), o' = { o with path := path } ∧ p = path.getD [] ++ p' ∧
      (∀ x, path = some x →
        x ≠ [] ∧ (∀ d ∈ x, isPathCharacter d = true) ∧ p'.headD 0 ∈ [63, 35, 0]) ∧
      (path = none → isPathCharacter (p'.headD 0) = false) := by
  have hsame : o = { o with path := none } := by rw [← hnone]
  rw [parsePath.eq_def] at h
  split at h
  next =>
    cases h
    exact ⟨none, hsame, rfl, nofun, fun _ => by decide⟩
  next d p =>
    split at h
    next hd =>
      obtain ⟨⟨path, rest⟩, hscan, heq⟩ := Option.map_eq_some_iff.mp h
      cases heq
      obtain ⟨hp, hpath, hrest⟩ := of_scan hscan
      refine ⟨some path, rfl, hp, ?_, nofun⟩
      rintro x ⟨⟩
      refine ⟨?_, hpath, hrest⟩
      -- the first character is in the path, as it does not stop the scan
      rintro rfl
      rw [List.nil_append] at hp
      rw [← hp] at hrest
      have hd' : isPathCharacter d = true := by
        rcases hd with rfl | hd
        · decide
        · exact hd
      exact notMem_of_legal (by decide) hd' hrest
    next hd =>
      cases h
      exact ⟨none, hsame, rfl, nofun, fun _ => by simpa using (not_or.mp hd).2⟩

theorem of_parseQuery (hnone : o.query = none) (h : parseQuery o p = some (o', p')) :
    ∃ query : Option (List UInt8), o' = { o with query := query } ∧
      p = query.elim [] (63 :: ·) ++ p' ∧
      (∀ q, query = some q → (∀ d ∈ q, isQueryCharacter d = true) ∧ p'.headD 0 ∈ [35, 0]) ∧
      (query = none → p'.headD 0 ≠ 63) := by
  rw [parseQuery.eq_def] at h
  split at h
  next p =>
    obtain ⟨⟨query, rest⟩, hscan, heq⟩ := Option.map_eq_some_iff.mp h
    cases heq
    obtain ⟨rfl, hquery, hrest⟩ := of_scan hscan
    refine ⟨some query, rfl, rfl, ?_, nofun⟩
    rintro q ⟨⟩
    exact ⟨hquery, hrest⟩
  next hno =>
    cases h
    refine ⟨none, by rw [← hnone], rfl, nofun, fun _ hhead => ?_⟩
    cases p with
    | nil => exact absurd hhead (by decide)
    | cons d p => exact hno p (congrArg (· :: p) hhead)

theorem of_parseFragment (hnone : o.fragment = none) (h : parseFragment o p = some (o', p')) :
    ∃ fragment : Option (List UInt8), o' = { o with fragment := fragment } ∧
      p = fragment.elim [] (35 :: ·) ++ p' ∧
      (∀ f, fragment = some f → (∀ d ∈ f, isFragmentCharacter d = true) ∧ p'.headD 0 = 0) ∧
      (fragment = none → p'.headD 0 ≠ 35) := by
  rw [parseFragment.eq_def] at h
  split at h
  next p =>
    obtain ⟨⟨fragment, rest⟩, hscan, heq⟩ := Option.map_eq_some_iff.mp h
    cases heq
    obtain ⟨rfl, hfragment, hrest⟩ := of_scan hscan
    refine ⟨some fragment, rfl, rfl, ?_, nofun⟩
    rintro f ⟨⟩
    exact ⟨hfragment, List.mem_singleton.mp hrest⟩
  next hno =>
    cases h
    refine ⟨none, by rw [← hnone], rfl, nofun, fun _ hhead => ?_⟩
    cases p with
    | nil => exact absurd hhead (by decide)
    | cons d p => exact hno p (congrArg (· :: p) hhead)

/-! ## What is legal is read -/

theorem Valid.parseScheme_eq (h : c.Valid) :
    parseScheme {} c.text = some ({ scheme := c.scheme }, c.fromAuthority) := by
  cases hscheme : c.scheme with
  | none =>
      rw [parseScheme.eq_def, if_pos (h.relative hscheme), text_of_none hscheme]
  | some s =>
      obtain ⟨d, xs, rfl, halpha, hxs⟩ := h.scheme s hscheme
      rw [text_of_some hscheme]
      exact parseScheme_append halpha hxs

theorem Valid.parseAuthority_eq (h : c.Valid) (o : InnerParseOut) :
    parseAuthority o c.fromAuthority = some (withAuthority o c.authority, c.fromPath) := by
  cases hauthority : c.authority with
  | none =>
      rw [fromAuthority_of_none hauthority, parseAuthority.eq_def]
      split
      next p heq => exact absurd ⟨p, heq.symm⟩ (h.no_authority hauthority)
      next => rfl
  | some a =>
      obtain ⟨ha, hrest⟩ := h.authority a hauthority
      rw [fromAuthority_of_some hauthority, parseAuthority, scan_append (by decide) ha hrest]
      cases a with
      | nil => rfl
      | cons d a => rfl

theorem Valid.parsePath_eq (h : c.Valid) (hnone : o.path = none) :
    parsePath o c.fromPath = some ({ o with path := c.path }, c.fromQuery) := by
  cases hpath : c.path with
  | none =>
      have hno := h.no_path hpath
      rw [fromPath_of_none hpath, parsePath.eq_def, ← hnone]
      split
      next => rfl
      next d p heq =>
        rw [heq] at hno
        change isPathCharacter d = false at hno
        rw [if_neg]
        rintro (rfl | hd)
        · exact absurd hno (by decide)
        · rw [hd] at hno
          cases hno
  | some p =>
      obtain ⟨hne, hp, hrest⟩ := h.path p hpath
      obtain ⟨d, xs, rfl⟩ := List.exists_cons_of_ne_nil hne
      have htext := fromPath_of_some hpath
      have hscan := scan_append (by decide) hp hrest
      rw [List.cons_append] at htext hscan
      rw [htext, parsePath, if_pos (.inr (hp d (List.mem_cons_self ..))), hscan]
      rfl

theorem Valid.parseQuery_eq (h : c.Valid) (hnone : o.query = none) :
    parseQuery o c.fromQuery = some ({ o with query := c.query }, c.fromFragment) := by
  cases hquery : c.query with
  | none =>
      rw [fromQuery_of_none hquery, parseQuery.eq_def, ← hnone]
      split
      next p heq =>
        refine absurd ?_ (h.no_query hquery)
        rw [heq]
        rfl
      next => rfl
  | some q =>
      obtain ⟨hq, hrest⟩ := h.query q hquery
      rw [fromQuery_of_some hquery, parseQuery, scan_append (by decide) hq hrest]
      rfl

theorem Valid.parseFragment_eq (h : c.Valid) (hnone : o.fragment = none) :
    parseFragment o c.fromFragment = some ({ o with fragment := c.fragment }, c.rest) := by
  cases hfragment : c.fragment with
  | none =>
      rw [fromFragment_of_none hfragment, parseFragment.eq_def, ← hnone]
      split
      next p heq =>
        refine absurd ?_ (h.no_fragment hfragment)
        rw [heq]
        rfl
      next => rfl
  | some f =>
      obtain ⟨hf, hrest⟩ := h.fragment f hfragment
      rw [fromFragment_of_some hfragment, parseFragment,
        scan_append (by decide) hf (List.mem_singleton.mpr hrest)]
      rfl

theorem withAuthority_others (o : InnerParseOut) (authority : Option (List UInt8)) :
    (withAuthority o authority).scheme = o.scheme ∧ (withAuthority o authority).path = o.path ∧
      (withAuthority o authority).query = o.query ∧
        (withAuthority o authority).fragment = o.fragment := by
  match authority with
  | none => exact ⟨rfl, rfl, rfl, rfl⟩
  | some [] => exact ⟨rfl, rfl, rfl, rfl⟩
  | some (_ :: _) => exact ⟨rfl, rfl, rfl, rfl⟩

theorem out_scheme (c : Components) : c.out.scheme = c.scheme :=
  (withAuthority_others { scheme := c.scheme } c.authority).1

/-- What `parse_from` finds, and what it leaves. -/
def parseAll (text : List UInt8) : Option (InnerParseOut × List UInt8) := do
  let (out, p) ← parseScheme {} text
  let (out, p) ← parseAuthority out p
  let (out, p) ← parsePath out p
  let (out, p) ← parseQuery out p
  parseFragment out p

theorem parseFrom_eq_map (text : List UInt8) : parseFrom text = (parseAll text).map Prod.fst := by
  simp only [parseFrom, parseAll, Option.bind_eq_bind, Option.map_eq_bind, Option.bind_assoc,
    Option.pure_def, Function.comp_def]

theorem Valid.parseAll_eq (h : c.Valid) : parseAll c.text = some (c.out, c.rest) := by
  obtain ⟨-, hpath, hquery, hfragment⟩ := withAuthority_others { scheme := c.scheme } c.authority
  rw [parseAll, h.parseScheme_eq]
  simp only [Option.bind_eq_bind, Option.bind_some]
  rw [h.parseAuthority_eq]
  simp only [Option.bind_some]
  rw [h.parsePath_eq hpath]
  simp only [Option.bind_some]
  rw [Valid.parseQuery_eq h (by exact hquery)]
  simp only [Option.bind_some]
  rw [Valid.parseFragment_eq h (by exact hfragment)]
  rfl

theorem parseAll_eq_some_iff : parseAll text = some (o, p) ↔
    ∃ c : Components, c.Valid ∧ c.text = text ∧ c.out = o ∧ c.rest = p := by
  constructor
  · intro h
    simp only [parseAll, Option.bind_eq_bind, Option.bind_eq_some_iff, Prod.exists] at h
    obtain ⟨o₁, p₁, hscheme, o₂, p₂, hauthority, o₃, p₃, hpath, o₄, p₄, hquery, hfragment⟩ := h
    obtain ⟨scheme, rfl, rfl, hs, hrelative⟩ := of_parseScheme hscheme
    obtain ⟨authority, rfl, rfl, ha, hnoAuthority⟩ := of_parseAuthority hauthority
    obtain ⟨-, hpath', hquery', hfragment'⟩ := withAuthority_others { scheme := scheme } authority
    obtain ⟨path, rfl, rfl, hp, hnoPath⟩ := of_parsePath hpath' hpath
    obtain ⟨query, rfl, rfl, hq, hnoQuery⟩ := of_parseQuery (by exact hquery') hquery
    obtain ⟨fragment, rfl, rfl, hf, hnoFragment⟩ := of_parseFragment (by exact hfragment') hfragment
    exact ⟨⟨scheme, authority, path, query, fragment, p⟩, ⟨hs, hrelative, ha, hnoAuthority, hp,
      hnoPath, hq, hnoQuery, hf, hnoFragment⟩, rfl, rfl, rfl⟩
  · rintro ⟨c, hc, rfl, rfl, rfl⟩
    exact hc.parseAll_eq

theorem Valid.parseFrom_eq (h : c.Valid) : parseFrom c.text = some c.out := by
  rw [parseFrom_eq_map, h.parseAll_eq]
  rfl

/-- The accepted texts are the ones of valid components, and these are what is found. -/
theorem parseFrom_eq_some_iff :
    parseFrom text = some o ↔ ∃ c : Components, c.Valid ∧ c.text = text ∧ c.out = o := by
  simp only [parseFrom_eq_map, Option.map_eq_some_iff, Prod.exists, parseAll_eq_some_iff]
  constructor
  · rintro ⟨_, _, ⟨c, hc, htext, rfl, -⟩, rfl⟩
    exact ⟨c, hc, htext, rfl⟩
  · rintro ⟨c, hc, htext, rfl⟩
    exact ⟨c.out, c.rest, ⟨c, hc, htext, rfl, rfl⟩, rfl⟩

/-! ## The characters of the components -/

/-- The path of an authority is absolute. -/
theorem Valid.path_of_authority (h : c.Valid) (hauthority : c.authority ≠ none) :
    c.path.getD [] = [] ∨ ∃ xs, c.path.getD [] = 47 :: xs := by
  obtain ⟨a, ha⟩ := Option.ne_none_iff_exists'.mp hauthority
  cases hpath : c.path with
  | none => exact .inl rfl
  | some p =>
      obtain ⟨hne, hp, -⟩ := h.path p hpath
      obtain ⟨d, xs, rfl⟩ := List.exists_cons_of_ne_nil hne
      have hhead : d ∈ ([47, 63, 35, 0] : List UInt8) := by
        have hrest := (h.authority a ha).2
        rw [fromPath_of_some hpath] at hrest
        exact hrest
      rcases List.mem_cons.mp hhead with rfl | hstop
      · exact .inr ⟨xs, rfl⟩
      · exact absurd hstop (notMem_of_legal (by decide) (hp d (List.mem_cons_self ..)))

theorem Valid.isPathCharacter_path (h : c.Valid) :
    ∀ d ∈ c.path.getD [], isPathCharacter d = true := by
  cases hpath : c.path with
  | none => exact List.forall_mem_nil _
  | some p => exact (h.path p hpath).2.1

theorem Valid.isQueryCharacter_query (h : c.Valid) :
    ∀ d ∈ c.query.getD [], isQueryCharacter d = true := by
  cases hquery : c.query with
  | none => exact List.forall_mem_nil _
  | some q => exact (h.query q hquery).1

theorem Valid.isFragmentCharacter_fragment (h : c.Valid) :
    ∀ d ∈ c.fragment.getD [], isFragmentCharacter d = true := by
  cases hfragment : c.fragment with
  | none => exact List.forall_mem_nil _
  | some f => exact (h.fragment f hfragment).1

/-! ## The parts of an authority -/

theorem parsePort_append {host digits : List UInt8} (h : ∀ d ∈ digits, isDigit d = true)
    (port : Int) : parsePort (host ++ 58 :: digits) port = (host, fromChars digits port) := by
  rw [parsePort, Scanner.scanBack_append h (by decide), if_pos (by simp), List.take_left]
  simp

/-- The port is what follows the last colon, if these are digits. -/
theorem parsePort_cases (authority : List UInt8) (port : Int) :
    parsePort authority port = (authority, port) ∨
      ∃ host digits, authority = host ++ 58 :: digits ∧ (∀ d ∈ digits, isDigit d = true) ∧
        parsePort authority port = (host, fromChars digits port) := by
  obtain hall | ⟨ys, d, ds, rfl, hd, hds⟩ := Scanner.forall_or_exists_last isDigit authority
  · refine .inl (if_neg fun hcolon => ?_)
    exact absurd (hall 58 (List.mem_of_getElem? hcolon)) (by decide)
  · by_cases hcolon : d = 58
    · subst hcolon
      exact .inr ⟨ys, ds, rfl, hds, parsePort_append hds port⟩
    · rw [parsePort, Scanner.scanBack_append hds hd]
      exact .inl (if_neg (by simpa using hcolon))

/-- The user information is what stands before the first `@`, if that belongs there. -/
theorem parseUserInfo_cases (host : List UInt8) : parseUserInfo host = (none, host) ∨
    ∃ uinfo rest, host = uinfo ++ 64 :: rest ∧ (∀ d ∈ uinfo, isUserInfoCharacter d = true) ∧
      parseUserInfo host = (some uinfo, rest) := by
  rw [parseUserInfo.eq_def]
  split
  next rest hdrop =>
    refine .inr ⟨host.takeWhile isUserInfoCharacter, rest, ?_, ?_, rfl⟩
    · rw [← hdrop, List.takeWhile_append_dropWhile]
    · exact fun d hd => List.mem_takeWhile_imp hd
  next => exact .inl rfl

theorem fromChars_of_digits {digits : List UInt8} (h : ∀ d ∈ digits, isDigit d = true) :
    ∃ n : Nat, fromChars digits 0 = n ∧ n < 2 ^ 31 := by
  have hsign : (digits.head? == some 45) = false := by
    rw [beq_eq_false_iff_ne]
    intro hhead
    exact absurd (h 45 (List.mem_of_mem_head? hhead)) (by decide)
  simp only [fromChars, hsign, Bool.false_eq_true, if_false]
  split
  next => exact ⟨0, rfl, by decide⟩
  next hin =>
    obtain ⟨-, hrange⟩ := not_or.mp hin
    exact ⟨_, rfl, by omega⟩

theorem mem_of_mem_parsePort {authority : List UInt8} {port : Int} {d : UInt8}
    (h : d ∈ (parsePort authority port).1) : d ∈ authority := by
  rcases parsePort_cases authority port with hsame | ⟨host, digits, rfl, -, hport⟩
  · rwa [hsame] at h
  · rw [hport] at h
    exact List.mem_append_left _ h

theorem mem_of_mem_parseUserInfo {host : List UInt8} {d : UInt8}
    (h : d ∈ (parseUserInfo host).2) : d ∈ host := by
  rcases parseUserInfo_cases host with hsame | ⟨uinfo, rest, rfl, -, huinfo⟩
  · rwa [hsame] at h
  · rw [huinfo] at h
    exact List.mem_append_right _ (List.mem_cons_of_mem 64 h)

/-- The host consists of characters of the authority. -/
theorem Valid.isAuthorityCharacter_host (h : c.Valid) :
    ∀ d ∈ c.out.host.getD [], isAuthorityCharacter d = true := by
  rw [out]
  match hauthority : c.authority with
  | none => exact List.forall_mem_nil _
  | some [] => exact List.forall_mem_nil _
  | some (e :: a) =>
      intro d hd
      exact (h.authority _ hauthority).1 d (mem_of_mem_parsePort (mem_of_mem_parseUserInfo hd))

theorem isUserInfoCharacter_parseUserInfo (host : List UInt8) :
    ∀ d ∈ (parseUserInfo host).1.getD [], isUserInfoCharacter d = true := by
  rcases parseUserInfo_cases host with hnone | ⟨uinfo, rest, -, huinfo, hsome⟩
  · rw [hnone]
    exact List.forall_mem_nil _
  · rw [hsome]
    exact huinfo

theorem isUserInfoCharacter_uinfo (c : Components) :
    ∀ d ∈ c.out.uinfo.getD [], isUserInfoCharacter d = true := by
  rw [out]
  match c.authority with
  | none => exact List.forall_mem_nil _
  | some [] => exact List.forall_mem_nil _
  | some (_ :: _) => exact isUserInfoCharacter_parseUserInfo _

/-- A port that is read is not negative, and it is zero if there is none. -/
theorem port_out (c : Components) : ∃ n : Nat, c.out.port = n ∧ n < 2 ^ 31 := by
  rw [out]
  match c.authority with
  | none => exact ⟨0, rfl, by decide⟩
  | some [] => exact ⟨0, rfl, by decide⟩
  | some (e :: a) =>
      change ∃ n : Nat, (parsePort (e :: a) 0).2 = n ∧ n < 2 ^ 31
      rcases parsePort_cases (e :: a) 0 with hnone | ⟨host, digits, -, hdigits, hsome⟩
      · rw [hnone]
        exact ⟨0, rfl, by decide⟩
      · rw [hsome]
        exact fromChars_of_digits hdigits

end Components

namespace Uri

/-- What the constructor makes of what is found. -/
def ofOut (out : InnerParseOut) : Uri where
  scheme := inplaceTolower (out.scheme.getD [])
  host := inplaceTolower (out.host.getD [])
  userInfo := out.uinfo.getD []
  path := out.path.getD (ascii "/")
  query := out.query.getD []
  fragment := out.fragment.getD []
  port := out.port

theorem new_of_parseFrom {text : List UInt8} {out : InnerParseOut} (h : parseFrom text = some out) :
    new text = .ok (ofOut out) := by
  rw [new, h]
  rfl

theorem new_eq_ok_iff {text : List UInt8} {u : Uri} :
    new text = .ok u ↔ ∃ c : Components, c.Valid ∧ c.text = text ∧ ofOut c.out = u := by
  constructor
  · intro h
    cases hparse : parseFrom text with
    | none =>
        rw [new, hparse] at h
        cases h
    | some out =>
        rw [new_of_parseFrom hparse] at h
        obtain ⟨c, hc, htext, rfl⟩ := Components.parseFrom_eq_some_iff.mp hparse
        exact ⟨c, hc, htext, Except.ok.inj h⟩
  · rintro ⟨c, hc, rfl, rfl⟩
    exact new_of_parseFrom hc.parseFrom_eq

/-! ## Lower case -/

theorem toLowerChImpl_cases (c : UInt8) :
    toLowerChImpl c = c ∨ 97 ≤ toLowerChImpl c ∧ toLowerChImpl c ≤ 122 := by
  rw [toLowerChImpl]
  split
  next hupper =>
    rw [Bool.and_eq_true, decide_eq_true_iff, decide_eq_true_iff] at hupper
    simp only [UInt8.le_iff_toNat_le, UInt8.toNat_add, UInt8.toNat_sub, UInt8.toNat_ofNat] at *
    omega
  next => exact .inl rfl

theorem toLowerChImpl_idem (c : UInt8) : toLowerChImpl (toLowerChImpl c) = toLowerChImpl c := by
  rcases toLowerChImpl_cases c with hsame | ⟨hge, -⟩
  · rw [hsame, hsame]
  · generalize toLowerChImpl c = d at hge
    rw [toLowerChImpl, if_neg]
    rw [Bool.and_eq_true, decide_eq_true_iff, decide_eq_true_iff]
    rintro ⟨-, hle⟩
    exact absurd (UInt8.le_trans hge hle) (by decide)

theorem inplaceTolower_idem (xs : List UInt8) :
    inplaceTolower (inplaceTolower xs) = inplaceTolower xs := by
  rw [inplaceTolower, inplaceTolower, List.map_map]
  exact List.map_congr_left fun c _ => toLowerChImpl_idem c

theorem isalpha_toLowerChImpl {c : UInt8} (h : isalpha c = true) :
    isalpha (toLowerChImpl c) = true := by
  rcases toLowerChImpl_cases c with hsame | ⟨hge, hle⟩
  · rwa [hsame]
  · rw [isalpha, decide_eq_true hge, decide_eq_true hle, Bool.true_and, Bool.or_true]

/-- Characters of a kind that all letters are of stay of this kind. -/
theorem forall_mem_inplaceTolower {legal : UInt8 → Bool} {xs : List UInt8}
    (halpha : ∀ d, isalpha d = true → legal d = true) (hxs : ∀ d ∈ xs, legal d = true) :
    ∀ d ∈ inplaceTolower xs, legal d = true := by
  refine List.forall_mem_map.mpr fun c hc => ?_
  rcases toLowerChImpl_cases c with hsame | ⟨hge, hle⟩
  · rw [hsame]
    exact hxs c hc
  · refine halpha _ ?_
    rw [isalpha, decide_eq_true hge, decide_eq_true hle, Bool.true_and, Bool.or_true]

theorem isSchemeCharacter_of_isalpha {c : UInt8} (h : isalpha c = true) :
    isSchemeCharacter c = true := by
  rw [isSchemeCharacter, isalnum, h, Bool.true_or, Bool.true_or]

theorem isScheme_inplaceTolower {scheme : List UInt8}
    (h : Components.IsScheme scheme) : Components.IsScheme (inplaceTolower scheme) := by
  obtain ⟨c, xs, rfl, hc, hxs⟩ := h
  exact ⟨toLowerChImpl c, inplaceTolower xs, rfl, isalpha_toLowerChImpl hc,
    forall_mem_inplaceTolower (fun _ => isSchemeCharacter_of_isalpha) hxs⟩

theorem isAuthorityCharacter_of_isalpha {c : UInt8} (h : isalpha c = true) :
    isAuthorityCharacter c = true := by
  refine isAuthorityCharacter_of_isUserInfoCharacter (isUserInfoCharacter_of_isUnreserved
    (isUnreserved_of_isalnum ?_))
  rw [isalnum, h, Bool.true_or]

/-- The host of an accepted text consists of characters of an authority. -/
theorem isAuthorityCharacter_host {text : List UInt8} {u : Uri} (h : new text = .ok u) :
    ∀ d ∈ u.host, isAuthorityCharacter d = true := by
  obtain ⟨c, hc, -, rfl⟩ := new_eq_ok_iff.mp h
  exact forall_mem_inplaceTolower (fun _ => isAuthorityCharacter_of_isalpha)
    hc.isAuthorityCharacter_host

end Uri

end Netpp
