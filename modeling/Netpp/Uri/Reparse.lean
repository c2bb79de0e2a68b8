import Netpp.Uri.Components
import Netpp.Uri.RoundTrip

/-!
# Printing what was parsed

`toString` prints the authority only if there is a host, and parsing finds the first user
information and the last port that there are. So a printed text is parsed to the same
components unless the host is missing and the authority or the path shows it, or the host
looks like more than a host.
-/

namespace Netpp

open Text (ascii isDigit)

namespace Uri

open InnerParseOut

variable {u : Uri} {xs ys rest : List UInt8}

/-! ## The printed text -/

/-- The components as `toString` prints them. -/
def printed (u : Uri) : Components where
  scheme := present u.scheme
  authority := if u.host = [] then none else some u.authorityText
  path := present u.path
  query := present u.query
  fragment := present u.fragment
  rest := []

theorem of_present (h : present xs = some ys) : ys = xs ∧ xs ≠ [] := by
  rw [present] at h
  split at h
  next => cases h
  next hne => exact ⟨(Option.some_inj.mp h).symm, hne⟩

theorem of_present_eq_none (h : present xs = none) : xs = [] := by
  rw [← present_getD xs, h]
  rfl

theorem elim_present (d : UInt8) (xs : List UInt8) :
    (present xs).elim [] (d :: ·) = delimited d xs := by
  rw [present, delimited]
  split
  next => rfl
  next => rfl

theorem fromFragment_printed (u : Uri) : u.printed.fromFragment = delimited 35 u.fragment := by
  rw [Components.fromFragment, printed, elim_present, List.append_nil]

theorem fromQuery_printed (u : Uri) :
    u.printed.fromQuery = delimited 63 u.query ++ delimited 35 u.fragment := by
  rw [Components.fromQuery, fromFragment_printed, printed, elim_present]

theorem fromPath_printed (u : Uri) : u.printed.fromPath =
    u.path ++ (delimited 63 u.query ++ delimited 35 u.fragment) := by
  rw [Components.fromPath, fromQuery_printed, printed, present_getD]

theorem text_printed_of_no_host (hhost : u.host = []) : u.printed.text =
    (present u.scheme).elim [] (· ++ [58]) ++
      (u.path ++ (delimited 63 u.query ++ delimited 35 u.fragment)) := by
  rw [Components.text, Components.fromAuthority, fromPath_printed, printed, hhost]
  rfl

theorem text_printed_of_no_scheme (hscheme : u.scheme = []) (hhost : u.host = []) :
    u.printed.text = u.path ++ (delimited 63 u.query ++ delimited 35 u.fragment) := by
  rw [text_printed_of_no_host hhost, hscheme]
  rfl

/-! ## What the constructor guarantees -/

structure Accepted (u : Uri) : Prop where
  scheme : u.scheme ≠ [] → Components.IsScheme u.scheme
  scheme_lower : inplaceTolower u.scheme = u.scheme
  userInfo : ∀ d ∈ u.userInfo, isUserInfoCharacter d = true
  host : ∀ d ∈ u.host, isAuthorityCharacter d = true
  host_lower : inplaceTolower u.host = u.host
  port : ∃ n : Nat, u.port = n ∧ n < 2 ^ 31
  path_ne_nil : u.path ≠ []
  path : ∀ d ∈ u.path, isPathCharacter d = true
  path_absolute : u.host ≠ [] → ∃ xs, u.path = 47 :: xs
  query : ∀ d ∈ u.query, isQueryCharacter d = true
  fragment : ∀ d ∈ u.fragment, isFragmentCharacter d = true
  relative : u.scheme = [] → u.host = [] → isRelativeReference u.printed.text = true

/-- The colon does not come before the slash if what follows is replaced by something where
it does not. -/
theorem isRelativeReference_append_mono (h : isRelativeReference (xs ++ ys) = true)
    (hys : isRelativeReference ys = true → isRelativeReference rest = true) :
    isRelativeReference (xs ++ rest) = true := by
  induction xs with
  | nil => exact hys h
  | cons d xs ih =>
      rw [List.cons_append, isRelativeReference] at h ⊢
      split
      next => rfl
      next hgo =>
        rw [if_neg hgo] at h
        split at h
        next => cases h
        next hcolon =>
          rw [if_neg hcolon]
          exact ih h

/-- A component of the text as it is printed, before what is printed of the others. -/
theorem isRelativeReference_delimited {component : Option (List UInt8)} {d : UInt8}
    (hd : d = 63 ∨ d = 35)
    (h : isRelativeReference (component.elim [] (d :: ·) ++ ys) = true)
    (hys : isRelativeReference ys = true → isRelativeReference rest = true) :
    isRelativeReference (delimited d (component.getD []) ++ rest) = true := by
  match component with
  | none => exact hys h
  | some [] =>
      refine hys ?_
      rcases hd with rfl | rfl
      · exact h
      · exact h
  | some (e :: xs) => exact isRelativeReference_append_mono h hys

/-- Before its first slash a text that was read without a scheme is printed without a colon. -/
theorem isRelativeReference_printed {c : Components} (hc : c.Valid) (hscheme : c.scheme = none) :
    isRelativeReference (c.path.getD (ascii "/") ++
      (delimited 63 (c.query.getD []) ++ delimited 35 (c.fragment.getD []))) = true := by
  cases hpath : c.path with
  | none => rfl
  | some p =>
      cases hauthority : c.authority with
      | none =>
          have hrelative := hc.relative hscheme
          rw [Components.text_of_none hscheme, Components.fromAuthority_of_none hauthority,
            Components.fromPath_of_some hpath] at hrelative
          refine isRelativeReference_append_mono hrelative fun hquery => ?_
          refine isRelativeReference_delimited (.inl rfl) hquery fun hfragment => ?_
          rw [← List.append_nil (delimited 35 _)]
          exact isRelativeReference_delimited (.inr rfl) hfragment fun _ => rfl
      | some a =>
          have habsolute := hc.path_of_authority (by rw [hauthority]; exact Option.some_ne_none a)
          rw [hpath] at habsolute
          obtain ⟨xs, rfl⟩ : ∃ xs, p = 47 :: xs := habsolute.resolve_left (hc.path p hpath).1
          rfl

theorem path_ne_nil_of_valid {c : Components} (hc : c.Valid) : c.path.getD (ascii "/") ≠ [] := by
  cases hp : c.path with
  | none => decide
  | some p => exact (hc.path p hp).1

theorem isPathCharacter_of_valid {c : Components} (hc : c.Valid) :
    ∀ d ∈ c.path.getD (ascii "/"), isPathCharacter d = true := by
  cases hp : c.path with
  | none => exact List.forall_mem_singleton.mpr (by decide)
  | some p => exact (hc.path p hp).2.1

theorem path_absolute_of_valid {c : Components} (hc : c.Valid) (hauthority : c.authority ≠ none) :
    ∃ xs, c.path.getD (ascii "/") = 47 :: xs := by
  have habsolute := hc.path_of_authority hauthority
  cases hp : c.path with
  | none => exact ⟨[], rfl⟩
  | some p =>
      rw [hp] at habsolute
      exact habsolute.resolve_left (hc.path p hp).1

/-- A scheme is not empty, in lower case neither. -/
theorem scheme_of_ofOut_eq_nil {c : Components} (hc : c.Valid) (hnil : (ofOut c.out).scheme = []) :
    c.scheme = none := by
  refine Option.eq_none_iff_forall_ne_some.mpr fun s hs => ?_
  obtain ⟨d, xs, rfl, -⟩ := hc.scheme s hs
  rw [ofOut, c.out_scheme, hs] at hnil
  cases hnil

theorem accepted_of_valid {c : Components} (hc : c.Valid) : Accepted (ofOut c.out) where
  scheme := by
    rw [ofOut, c.out_scheme]
    intro hne
    cases hs : c.scheme with
    | none =>
        rw [hs] at hne
        exact absurd rfl hne
    | some s => exact isScheme_inplaceTolower (hc.scheme s hs)
  scheme_lower := inplaceTolower_idem _
  userInfo := c.isUserInfoCharacter_uinfo
  host := forall_mem_inplaceTolower (fun _ => isAuthorityCharacter_of_isalpha)
    hc.isAuthorityCharacter_host
  host_lower := inplaceTolower_idem _
  port := c.port_out
  path_ne_nil := path_ne_nil_of_valid hc
  path := isPathCharacter_of_valid hc
  path_absolute := by
    intro hne
    refine path_absolute_of_valid hc fun hnone => hne ?_
    rw [Components.out, hnone]
    rfl
  query := hc.isQueryCharacter_query
  fragment := hc.isFragmentCharacter_fragment
  relative := by
    intro hnil hhost
    rw [text_printed_of_no_scheme hnil hhost]
    exact isRelativeReference_printed hc (scheme_of_ofOut_eq_nil hc hnil)

namespace Accepted

theorem head_path (h : u.Accepted) : ¬(u.host ≠ [] ∧ u.path.head? ≠ some 47) := by
  rintro ⟨hhost, hslash⟩
  obtain ⟨xs, hpath⟩ := h.path_absolute hhost
  exact hslash (by rw [hpath]; rfl)

theorem present_scheme (h : u.Accepted) :
    inplaceTolower ((present u.scheme).getD []) = u.scheme := by
  rw [present_getD, h.scheme_lower]

theorem present_path (h : u.Accepted) : (present u.path).getD (ascii "/") = u.path := by
  rw [present, if_neg h.path_ne_nil]
  rfl

theorem canonicalize_eq (h : u.Accepted) : u.canonicalize = u := by
  rw [canonicalize, h.scheme_lower, h.host_lower]
  simp only [h.path_ne_nil, and_false, if_false]
  exact if_neg h.head_path

/-- The text that is printed. -/
theorem toString_eq (h : u.Accepted) : u.toString = (u.printed.text, u) := by
  have hquestion : ascii "?" = [63] := by decide
  have hhash : ascii "#" = [35] := by decide
  have hcolon : ascii ":" = [58] := by decide
  have hslashes : ascii "//" = [47, 47] := by decide
  have hat : ascii "@" = [64] := by decide
  have hscheme : u.printed.scheme.elim [] (· ++ [58]) =
      if u.scheme ≠ [] then u.scheme ++ [58] else [] := by
    rw [printed, present, ite_not]
    split
    next => rfl
    next => rfl
  rw [Uri.toString, h.canonicalize_eq, Components.text, Components.fromAuthority,
    fromPath_printed, hscheme]
  simp only [ne_eq, h.path_ne_nil, not_false_eq_true, if_true, h.head_path, if_false, hquestion,
    hhash, hcolon, hslashes, hat, append_delimited, printed]
  generalize (if ¬u.scheme = [] then u.scheme ++ [58] else []) = ret
  rw [authorityText, userInfoText, portText]
  by_cases hhost : u.host = []
  · simp [hhost]
  · by_cases huser : u.userInfo = []
    · by_cases hport : 0 < u.port
      · simp [hhost, huser, hport]
      · simp [hhost, huser, hport]
    · by_cases hport : 0 < u.port
      · simp [hhost, huser, hport]
      · simp [hhost, huser, hport]

/-! ## What the printed text is parsed to -/

theorem headD_fragment (fragment : List UInt8) : (delimited 35 fragment).headD 0 ∈ [35, 0] := by
  rw [← List.append_nil (delimited 35 fragment)]
  exact headD_delimited (by decide) (by decide)

theorem headD_delimiters (query fragment : List UInt8) :
    (delimited 63 query ++ delimited 35 fragment).headD 0 ∈ [63, 35, 0] :=
  headD_delimited (by decide) (List.mem_cons_of_mem 63 (headD_fragment fragment))

theorem isAuthorityCharacter_authorityText (h : u.Accepted) :
    ∀ d ∈ u.authorityText, isAuthorityCharacter d = true := by
  obtain ⟨n, hn, -⟩ := h.port
  rw [authorityText, List.forall_mem_append, List.forall_mem_append]
  refine ⟨⟨?_, h.host⟩, isAuthorityCharacter_portText u n hn⟩
  rw [userInfoText]
  split
  next => exact List.forall_mem_nil _
  next =>
    refine List.forall_mem_append.mpr ⟨fun c hc => ?_, ?_⟩
    · exact isAuthorityCharacter_of_isUserInfoCharacter (h.userInfo c hc)
    · exact List.forall_mem_singleton.mpr (by decide)

theorem not_prefix_append (hne : xs ≠ []) (hslashes : ¬[47, 47] <+: xs)
    (hrest : rest.headD 0 ∈ [63, 35, 0]) : ¬[47, 47] <+: xs ++ rest := by
  rintro ⟨ys, hys⟩
  obtain ⟨d, xs, rfl⟩ := List.exists_cons_of_ne_nil hne
  obtain ⟨rfl, htail⟩ := List.cons.inj hys
  cases xs with
  | nil =>
      change 47 :: ys = rest at htail
      subst htail
      have hslash : (47 : UInt8) ∈ [63, 35, 0] := hrest
      exact absurd hslash (by decide)
  | cons e xs =>
      obtain ⟨rfl, -⟩ := List.cons.inj htail
      exact hslashes ⟨xs, rfl⟩

/-- The printed components are legal if the path does not look like an authority. -/
theorem valid_printed (h : u.Accepted) (hslashes : u.host = [] → ¬[47, 47] <+: u.path) :
    u.printed.Valid where
  scheme := by
    intro s hs
    obtain ⟨rfl, hne⟩ := of_present hs
    exact h.scheme hne
  relative := by
    intro hnone
    have hscheme : u.scheme = [] := of_present_eq_none hnone
    by_cases hhost : u.host = []
    · exact h.relative hscheme hhost
    · rw [Components.text, Components.fromAuthority, printed, hscheme, if_neg hhost]
      rfl
  authority := by
    intro a ha
    change (if u.host = [] then none else some u.authorityText) = some a at ha
    split at ha
    next => cases ha
    next hne =>
      cases ha
      obtain ⟨xs, hpath⟩ := h.path_absolute hne
      refine ⟨isAuthorityCharacter_authorityText h, ?_⟩
      rw [fromPath_printed, hpath]
      exact List.mem_cons_self ..
  no_authority := by
    intro hnone
    change (if u.host = [] then none else some u.authorityText) = none at hnone
    rw [fromPath_printed]
    split at hnone
    next hnil => exact not_prefix_append h.path_ne_nil (hslashes hnil) (headD_delimiters ..)
    next => cases hnone
  path := by
    intro p hp
    obtain ⟨rfl, hne⟩ := of_present hp
    rw [fromQuery_printed]
    exact ⟨hne, h.path, headD_delimiters ..⟩
  no_path := fun hnone => absurd (of_present_eq_none hnone) h.path_ne_nil
  query := by
    intro q hq
    obtain ⟨rfl, -⟩ := of_present hq
    rw [fromFragment_printed]
    exact ⟨h.query, headD_fragment _⟩
  no_query := by
    intro _ hquestion
    have hhead := headD_fragment u.fragment
    rw [fromFragment_printed] at hquestion
    rw [hquestion] at hhead
    exact absurd hhead (by decide)
  fragment := by
    intro f hf
    obtain ⟨rfl, -⟩ := of_present hf
    exact ⟨h.fragment, rfl⟩
  no_fragment := fun _ => by
    change (0 : UInt8) ≠ 35
    decide

end Accepted

/-! ## When these are the components -/

/-- The host begins with what is read as user information. -/
def BeginsWithUserInfo (host : List UInt8) : Prop :=
  ∃ uinfo rest, host = uinfo ++ 64 :: rest ∧ ∀ d ∈ uinfo, isUserInfoCharacter d = true

/-- The host ends with what is read as a port. -/
def EndsWithPort (host : List UInt8) : Prop :=
  ∃ pre digits, host = pre ++ 58 :: digits ∧ ∀ d ∈ digits, isDigit d = true

/-- Nothing is printed that is read as something else, and nothing is missing. -/
def Reparses (u : Uri) : Prop :=
  (u.host = [] → u.userInfo = [] ∧ u.port = 0 ∧ ¬[47, 47] <+: u.path) ∧
    (u.host ≠ [] → (u.userInfo = [] → ¬BeginsWithUserInfo u.host) ∧
      (u.port = 0 → ¬EndsWithPort u.host))

theorem parseUserInfo_of_not (h : ¬BeginsWithUserInfo xs) : parseUserInfo xs = (none, xs) :=
  (Components.parseUserInfo_cases xs).resolve_right fun ⟨uinfo, rest, hxs, huinfo, _⟩ =>
    h ⟨uinfo, rest, hxs, huinfo⟩

theorem parseUserInfo_length_le (xs : List UInt8) : (parseUserInfo xs).2.length ≤ xs.length := by
  rcases Components.parseUserInfo_cases xs with hnone | ⟨uinfo, rest, rfl, -, hsome⟩
  · rw [hnone]
  · rw [hsome, List.length_append, List.length_cons]
    exact Nat.le_add_left_of_le (Nat.le_succ _)

/-- The user information before a host. -/
theorem parseUserInfo_userInfoText (h : u.Accepted) (host : List UInt8) :
    u.userInfo ≠ [] ∧ parseUserInfo (u.userInfoText ++ host) = (some u.userInfo, host) ∨
      u.userInfo = [] ∧ parseUserInfo (u.userInfoText ++ host) = parseUserInfo host := by
  rw [userInfoText]
  split
  next hnil => exact .inr ⟨hnil, rfl⟩
  next hne =>
    rw [List.append_assoc, List.singleton_append]
    exact .inl ⟨hne, parseUserInfo_of_userInfo h.userInfo⟩

theorem parseUserInfo_userInfoText_length_le (h : u.Accepted) (host : List UInt8) :
    (parseUserInfo (u.userInfoText ++ host)).2.length ≤ host.length := by
  rcases parseUserInfo_userInfoText h host with ⟨-, hsome⟩ | ⟨-, hnone⟩
  · rw [hsome]
  · rw [hnone]
    exact parseUserInfo_length_le host

/-- A colon before digits is in the host and not in the user information. -/
theorem parsePort_userInfoText (hhost : ¬EndsWithPort u.host) :
    parsePort (u.userInfoText ++ u.host) 0 = (u.userInfoText ++ u.host, 0) := by
  refine (Components.parsePort_cases (u.userInfoText ++ u.host) 0).resolve_right ?_
  rintro ⟨pre, digits, heq, hdigits, -⟩
  rcases List.append_eq_append_iff.mp heq with ⟨as, -, hright⟩ | ⟨cs, hleft, hright⟩
  · exact hhost ⟨as, digits, hright, hdigits⟩
  · by_cases hcs : cs = []
    · rw [hcs, List.nil_append] at hright
      exact hhost ⟨[], digits, hright.symm, hdigits⟩
    · have hat : (64 : UInt8) ∈ cs := by
        rcases userInfoText_eq u with hnil | ⟨uinfo, huinfo⟩
        · rw [hnil] at hleft
          exact absurd (List.append_eq_nil_iff.mp hleft.symm).2 hcs
        · have hlast := congrArg List.getLast? (huinfo.symm.trans hleft)
          rw [List.getLast?_concat, List.getLast?_append_of_ne_nil pre hcs] at hlast
          exact List.mem_of_getLast? hlast.symm
      have hmem : (64 : UInt8) ∈ 58 :: digits := by
        rw [hright]
        exact List.mem_append_left _ hat
      rcases List.mem_cons.mp hmem with hcolon | hdigit
      · exact absurd hcolon (by decide)
      · exact absurd (hdigits 64 hdigit) (by decide)

theorem parsePort_authorityText (h : u.Accepted) :
    u.port = 0 ∧ EndsWithPort u.host ∧
        (∃ pre, parsePort u.authorityText 0 =
            (u.userInfoText ++ pre, (parsePort u.authorityText 0).2) ∧
          pre.length < u.host.length) ∨
      (u.port = 0 → ¬EndsWithPort u.host) ∧
        parsePort u.authorityText 0 = (u.userInfoText ++ u.host, u.port) := by
  obtain ⟨n, hn, hlt⟩ := h.port
  rw [authorityText, portText, hn]
  by_cases hpos : 0 < (n : Int)
  · rw [if_pos hpos]
    exact .inr ⟨fun hzero => absurd hzero (by omega), parsePort_of_port hlt⟩
  · obtain rfl : n = 0 := by omega
    rw [if_neg hpos, List.append_nil]
    by_cases hport : EndsWithPort u.host
    · obtain ⟨pre, digits, hhost, hdigits⟩ := hport
      refine .inl ⟨rfl, ⟨pre, digits, hhost, hdigits⟩, pre, ?_, ?_⟩
      · rw [hhost, ← List.append_assoc, Components.parsePort_append hdigits]
      · rw [hhost, List.length_append, List.length_cons]
        omega
    · exact .inr ⟨fun _ => hport, parsePort_userInfoText hport⟩

theorem ofOut_printed_of_no_host (h : u.Accepted) (hhost : u.host = []) :
    ofOut u.printed.out = u ↔ u.userInfo = [] ∧ u.port = 0 := by
  have hout : ofOut u.printed.out = { u with userInfo := [], port := 0 } := by
    rw [Components.out, printed, if_pos hhost]
    change Uri.mk (inplaceTolower ((present u.scheme).getD [])) [] []
      ((present u.path).getD (ascii "/")) ((present u.query).getD [])
      ((present u.fragment).getD []) 0 = _
    rw [h.present_scheme, h.present_path, present_getD, present_getD, ← hhost]
  rw [hout]
  constructor
  · intro heq
    exact ⟨(congrArg Uri.userInfo heq).symm, (congrArg Uri.port heq).symm⟩
  · rintro ⟨huser, hport⟩
    rw [← huser, ← hport]

theorem ofOut_printed_of_host (h : u.Accepted) (hhost : u.host ≠ []) :
    ofOut u.printed.out = { u with
      host := inplaceTolower (parseUserInfo (parsePort u.authorityText 0).1).2
      userInfo := (parseUserInfo (parsePort u.authorityText 0).1).1.getD []
      port := (parsePort u.authorityText 0).2 } := by
  have hne : u.authorityText ≠ [] := by
    rw [authorityText, List.append_assoc]
    exact List.append_ne_nil_of_right_ne_nil _ (List.append_ne_nil_of_left_ne_nil hhost _)
  obtain ⟨d, a, hcons⟩ := List.exists_cons_of_ne_nil hne
  rw [Components.out, printed, if_neg hhost, hcons]
  change Uri.mk (inplaceTolower ((present u.scheme).getD []))
    (inplaceTolower (parseUserInfo (parsePort (d :: a) 0).1).2)
    ((parseUserInfo (parsePort (d :: a) 0).1).1.getD [])
    ((present u.path).getD (ascii "/")) ((present u.query).getD [])
    ((present u.fragment).getD []) (parsePort (d :: a) 0).2 = _
  rw [h.present_scheme, h.present_path, present_getD, present_getD]

/-- What is read as the host is shorter if something of it is read as something else. -/
theorem ofOut_printed_eq_iff (h : u.Accepted) (hhost : u.host ≠ []) :
    ofOut u.printed.out = u ↔ (u.userInfo = [] → ¬BeginsWithUserInfo u.host) ∧
      (u.port = 0 → ¬EndsWithPort u.host) := by
  have hshorter {pre : List UInt8}
      (hlength : (parseUserInfo (u.userInfoText ++ pre)).2.length < u.host.length)
      (hport : (parsePort u.authorityText 0).1 = u.userInfoText ++ pre) :
      ofOut u.printed.out ≠ u := by
    intro heq
    have hsame := congrArg (fun v => v.host.length) heq
    rw [ofOut_printed_of_host h hhost, hport] at hsame
    simp only [inplaceTolower, List.length_map] at hsame
    omega
  rcases parsePort_authorityText h with ⟨hzero, hends, pre, hport, hlength⟩ | ⟨hends, hport⟩
  · refine iff_of_false ?_ fun hboth => hboth.2 hzero hends
    exact hshorter (Nat.lt_of_le_of_lt (parseUserInfo_userInfoText_length_le h pre) hlength)
      (by rw [hport])
  · rw [and_iff_left hends]
    rcases parseUserInfo_userInfoText h u.host with ⟨hne, hsome⟩ | ⟨hnil, hnone⟩
    · refine iff_of_true ?_ fun hnil => absurd hnil hne
      rw [ofOut_printed_of_host h hhost, hport, hsome, h.host_lower]
      rfl
    · by_cases hbegins : BeginsWithUserInfo u.host
      · refine iff_of_false ?_ fun hno => hno hnil hbegins
        refine hshorter ?_ (by rw [hport])
        obtain ⟨uinfo, rest, hrest, huinfo⟩ := hbegins
        rw [hnone, hrest, parseUserInfo_of_userInfo huinfo, List.length_append, List.length_cons]
        exact Nat.lt_add_left _ (Nat.lt_succ_self _)
      · refine iff_of_true ?_ fun _ => hbegins
        rw [ofOut_printed_of_host h hhost, hport, hnone, parseUserInfo_of_not hbegins,
          h.host_lower, ← hnil]
        rfl

theorem length_delimited_le (d : UInt8) (component : Option (List UInt8)) :
    (delimited d (component.getD [])).length ≤ (component.elim [] (d :: ·)).length := by
  match component with
  | none => exact Nat.le_refl _
  | some [] => exact Nat.zero_le _
  | some (_ :: _) => exact Nat.le_refl _

/-- The scheme is printed with as many characters as it had. -/
theorem length_present_scheme {c : Components} (hc : c.Valid) :
    ((present (ofOut c.out).scheme).elim [] (· ++ [58])).length =
      (c.scheme.elim [] (· ++ [58])).length := by
  rw [ofOut, c.out_scheme]
  cases hs : c.scheme with
  | none => rfl
  | some s =>
      obtain ⟨d, xs, rfl, -⟩ := hc.scheme s hs
      simp [present, inplaceTolower]

/-- Behind the scheme what is printed without a host is not longer than a path that was read
and what stands behind it. -/
theorem length_printed_le {p : List UInt8} {c : Components} (hpath : c.path = some p) :
    ((ofOut c.out).path ++ (delimited 63 (ofOut c.out).query ++
      delimited 35 (ofOut c.out).fragment)).length ≤ c.fromPath.length := by
  have hprinted : (ofOut c.out).path = p := by
    change c.path.getD (ascii "/") = p
    rw [hpath]
    rfl
  have hquery := length_delimited_le 63 c.query
  have hfragment := length_delimited_le 35 c.fragment
  rw [hprinted, Components.fromPath_of_some hpath, Components.fromQuery, Components.fromFragment]
  change (p ++ (delimited 63 (c.query.getD []) ++ delimited 35 (c.fragment.getD []))).length ≤ _
  simp only [List.length_append]
  omega

/-- A path that looks like an authority is not read as a path, for there are two characters
less for it. -/
theorem new_printed_ne (hhost : u.host = []) (hslashes : [47, 47] <+: u.path) :
    new u.printed.text ≠ .ok u := by
  intro hnew
  obtain ⟨c, hc, htext, rfl⟩ := new_eq_ok_iff.mp hnew
  -- behind the scheme both texts are the same
  have hbehind : c.fromAuthority = (ofOut c.out).path ++
      (delimited 63 (ofOut c.out).query ++ delimited 35 (ofOut c.out).fragment) := by
    rw [text_printed_of_no_host hhost, Components.text] at htext
    exact (List.append_inj htext (length_present_scheme hc).symm).2
  obtain ⟨a, ha⟩ : ∃ a, c.authority = some a := by
    refine Option.ne_none_iff_exists'.mp fun hnone => hc.no_authority hnone ?_
    rw [← Components.fromAuthority_of_none hnone, hbehind]
    exact hslashes.trans (List.prefix_append _ _)
  cases hp : c.path with
  | none =>
      change [47, 47] <+: c.path.getD (ascii "/") at hslashes
      rw [hp] at hslashes
      exact absurd hslashes (by decide)
  | some p =>
      have hlength := length_printed_le hp
      rw [← hbehind, Components.fromAuthority_of_some ha, List.length_cons, List.length_cons,
        List.length_append] at hlength
      omega

/-- Printing and parsing a URI of an accepted text gives the same URI exactly if nothing is
read as something else and nothing is missing. -/
theorem new_toString_iff {s : List UInt8} (hu : new s = .ok u) :
    new u.toString.1 = .ok u ↔ Reparses u := by
  obtain ⟨c, hc, -, rfl⟩ := new_eq_ok_iff.mp hu
  have h := accepted_of_valid hc
  generalize ofOut c.out = u at h
  rw [h.toString_eq]
  by_cases hhost : u.host = []
  · rw [Reparses, and_iff_left fun hne => absurd hhost hne, forall_prop_of_true hhost]
    by_cases hslashes : [47, 47] <+: u.path
    · exact iff_of_false (new_printed_ne hhost hslashes) fun hall => hall.2.2 hslashes
    · rw [new_of_parseFrom (h.valid_printed fun _ => hslashes).parseFrom_eq, Except.ok.injEq,
        ofOut_printed_of_no_host h hhost]
      exact ⟨fun hboth => ⟨hboth.1, hboth.2, hslashes⟩, fun hall => ⟨hall.1, hall.2.1⟩⟩
  · rw [Reparses, and_iff_right fun hnil => absurd hnil hhost, forall_prop_of_true hhost,
      new_of_parseFrom (h.valid_printed fun hnil => absurd hnil hhost).parseFrom_eq,
      Except.ok.injEq]
    exact ofOut_printed_eq_iff h hhost

/-- A host with user information and a port. -/
theorem new_toString_iff_full : ∃ u, new (ascii "http://me@h:8/p?q#f") = .ok u ∧
    (new u.toString.1 = .ok u ↔ Reparses u) :=
  ⟨_, rfl, new_toString_iff (s := ascii "http://me@h:8/p?q#f") rfl⟩

/-- User information without a host is not printed. -/
theorem new_toString_fails : ∃ u, new (ascii "http://user@/path") = .ok u ∧
    u.userInfo = ascii "user" ∧ u.toString.1 = ascii "http:/path" ∧
      new u.toString.1 ≠ .ok u :=
  ⟨_, rfl, rfl, by decide +kernel, by decide +kernel⟩

end Uri

end Netpp
