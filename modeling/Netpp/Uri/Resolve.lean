import Netpp.Library.Reference
import Netpp.Uri.Components
import Netpp.Uri.Path
import Netpp.Uri.Query

/-!
# Resolving references

`resolveUri` is compared with the algorithm of the RFC on the parsed components. It puts
the parsed components through setters that encode them once more, it removes the dot
segments of merged paths and of absolute ones only, it keeps the base's fragment before the
one of an absolute path, and it cannot tell a query that is empty from one that is missing.
-/

namespace Netpp

open Text (ascii)

/-- The components as those of a reference. -/
def Components.reference (c : Components) : Reference UInt8 (List UInt8) :=
  ⟨c.scheme, c.authority, c.path.getD [], c.query, c.fragment⟩

namespace Uri

open InnerParseOut UriCodec DotSegments

def resolveUri (u : Uri) (relativeUri : List UInt8) : Except UriException Uri :=
  if relativeUri = [] then .ok u
  else if relativeUri.head? = some 47 then
    if 2 ≤ relativeUri.length ∧ relativeUri[1]? = some 47 then
      new (u.scheme ++ [58] ++ relativeUri)
    else do
      -- otherwise relative to root
      let relative ← new relativeUri
      let authorityPart := u.authority.appendPath relative.path
      let authorityPart := authorityPart.appendQuery relative.query
      let authorityPart := authorityPart.setFragment (u.fragment ++ relative.fragment)
      return removeDotSegments authorityPart
  else do
    let url ← new relativeUri
    if url.scheme ≠ [] then return url
    else if !url.authority.isEmpty then return url.setScheme u.scheme
    -- an empty path is considered as '/'
    else if url.path = ascii "/" ∨ url.path = [] then
      let thisUri := if url.query ≠ [] then u.setQuery url.query else u
      return thisUri.setFragment url.fragment
    else if u.path ≠ [] then
      let thisUri := removeDotSegments (u.setPath (mergePaths u.path url.path))
      return (thisUri.setQuery url.query).setFragment url.fragment
    else return u.setFragment url.fragment

/-! ## The components of a text -/

/-- What stands between two slashes behind the scheme and the next component. -/
def authorityIn (text : List UInt8) (out : InnerParseOut) : Option (List UInt8) :=
  match text.drop (out.scheme.elim 0 fun scheme => scheme.length + 1) with
  | 47 :: 47 :: p => some (p.takeWhile fun c => !([47, 63, 35, 0] : List UInt8).contains c)
  | _ => none

def referenceOf (text : List UInt8) (out : InnerParseOut) : Reference UInt8 (List UInt8) where
  scheme := out.scheme
  authority := authorityIn text out
  path := out.path.getD []
  query := out.query
  fragment := out.fragment

/-- What the constructor makes of an authority. -/
def ofAuthority (authority : Option (List UInt8)) : Uri :=
  ofOut (Components.withAuthority {} authority)

/-- The constructor has a slash for an empty path. -/
def slashed (path : List UInt8) : List UInt8 := if path = [] then ascii "/" else path

/-- What the constructor makes of components. -/
def ofReference (r : Reference UInt8 (List UInt8)) : Uri :=
  { ofAuthority r.authority with
    scheme := inplaceTolower (r.scheme.getD [])
    path := slashed r.path
    query := r.query.getD []
    fragment := r.fragment.getD [] }

variable {c : Components} {u : Uri} {r base : Reference UInt8 (List UInt8)}
  {ref xs : List UInt8} {v : Uri}

theorem authorityIn_text (h : c.Valid) : authorityIn c.text c.out = c.authority := by
  have hdrop : c.text.drop (c.out.scheme.elim 0 fun scheme => scheme.length + 1) =
      c.fromAuthority := by
    rw [c.out_scheme, Components.text]
    cases c.scheme with
    | none => rfl
    | some s => simp
  rw [authorityIn, hdrop]
  cases hauthority : c.authority with
  | none =>
      rw [Components.fromAuthority_of_none hauthority]
      split
      next p heq => exact absurd ⟨p, heq.symm⟩ (h.no_authority hauthority)
      next => rfl
  | some a =>
      obtain ⟨ha, hrest⟩ := h.authority a hauthority
      have hstop : ∀ d ∈ a, (!([47, 63, 35, 0] : List UInt8).contains d) = true := by
        intro d hd
        rw [Bool.not_eq_true', ← Bool.not_eq_true, List.contains_iff_mem]
        exact notMem_of_legal (by decide) (ha d hd)
      have hend : c.fromPath.takeWhile
          (fun d => !([47, 63, 35, 0] : List UInt8).contains d) = [] := by
        cases hpath : c.fromPath with
        | nil => rfl
        | cons d p =>
            rw [hpath] at hrest
            have hd : ([47, 63, 35, 0] : List UInt8).contains d = true :=
              List.contains_iff_mem.mpr hrest
            exact List.takeWhile_cons_of_neg (by rw [hd]; exact Bool.false_ne_true)
      rw [Components.fromAuthority_of_some hauthority]
      simp only
      rw [List.takeWhile_append_of_pos hstop, hend, List.append_nil]

theorem referenceOf_text (h : c.Valid) : referenceOf c.text c.out = c.reference := by
  rw [referenceOf, authorityIn_text h, c.out_scheme]
  rfl

theorem ofReference_reference (h : c.Valid) : ofReference c.reference = ofOut c.out := by
  have hpath : slashed (c.path.getD []) = c.path.getD (ascii "/") := by
    cases hpath : c.path with
    | none => rfl
    | some p => exact if_neg (h.path p hpath).1
  rw [ofReference, Components.reference, hpath, ofAuthority, Components.out, ofOut, ofOut]
  cases c.authority with
  | none => rfl
  | some a =>
      cases a with
      | nil => rfl
      | cons d a => rfl

/-! ## The branches -/

theorem removeDotSegments_eq (u : Uri) :
    removeDotSegments u = { u with path := (removeDotSegments u).path } := by
  unfold removeDotSegments
  split
  · rfl
  · simp only
    split
    · rfl
    · rfl

theorem resolveUri_of_scheme (hnew : new ref = .ok v) (hne : ref ≠ [])
    (hhead : ref.head? ≠ some 47) (hscheme : v.scheme ≠ []) : u.resolveUri ref = .ok v := by
  rw [resolveUri, if_neg hne, if_neg hhead, hnew]
  exact if_pos hscheme

theorem resolveUri_of_slashes (ref : List UInt8) :
    u.resolveUri (47 :: 47 :: ref) = new (u.scheme ++ [58] ++ 47 :: 47 :: ref) := by
  have hhead : (47 :: 47 :: ref).head? = some 47 := rfl
  rw [resolveUri, if_neg (List.cons_ne_nil 47 _), if_pos hhead, if_pos ⟨by simp, rfl⟩]

/-- The components of an absolute path are encoded, and so is the base's fragment. -/
theorem resolveUri_of_slash (hnew : new ref = .ok v) (hhead : ref.head? = some 47)
    (hnext : ref[1]? ≠ some 47) (hpath : v.path.head? = some 47) : u.resolveUri ref =
      .ok (removeDotSegments { u with
        path := encode v.path .path
        query := encode v.query .query
        fragment := encode (u.fragment ++ v.fragment) .query }) := by
  have hne : ref ≠ [] := by
    rintro rfl
    cases hhead
  have happend : u.authority.appendPath v.path =
      { u.authority with path := encode v.path .path } := by
    have hslash : ascii "/" = [47] := by decide
    rw [appendPath]
    split
    next =>
      rw [authority, hslash]
      simp [hpath]
    next hno =>
      have hroot : v.path = ascii "/" := by
        by_contra hroot
        refine hno ⟨?_, hroot⟩
        intro hnil
        rw [hnil] at hpath
        cases hpath
      rw [hroot]
      rfl
  have hquery (w : Uri) (hw : w.query = []) :
      w.appendQuery v.query = { w with query := encode v.query .query } := by
    rw [appendQuery]
    split
    next => rfl
    next hnil =>
      rw [not_not.mp hnil]
      exact congrArg (fun q => { w with query := q }) hw
  rw [resolveUri, if_neg hne, if_pos hhead, if_neg fun h => hnext h.2, hnew]
  simp only [bind, Except.bind, pure, Except.pure]
  rw [happend, hquery _ rfl]
  rfl

theorem resolveUri_of_no_path (hnew : new ref = .ok v) (hne : ref ≠ [])
    (hhead : ref.head? ≠ some 47) (hscheme : v.scheme = []) (hhost : v.host = [])
    (hpath : v.path = ascii "/") : u.resolveUri ref =
      .ok { u with
        query := if v.query ≠ [] then encode v.query .query else u.query
        fragment := encode v.fragment .query } := by
  have hempty : v.authority.isEmpty = true := by rw [isEmpty, authority, hhost]; rfl
  rw [resolveUri, if_neg hne, if_neg hhead, hnew]
  simp only [bind, Except.bind, pure, Except.pure]
  rw [if_neg (not_not.mpr hscheme), hempty, if_neg (by decide), if_pos (.inl hpath)]
  split
  next => rfl
  next => rfl

/-- The path of a relative reference is merged and encoded. -/
theorem resolveUri_of_path (hnew : new ref = .ok v) (hne : ref ≠ [])
    (hhead : ref.head? ≠ some 47) (hscheme : v.scheme = []) (hhost : v.host = [])
    (hpath : v.path ≠ ascii "/" ∧ v.path ≠ []) (hbase : u.path ≠ []) : u.resolveUri ref =
      .ok { removeDotSegments (u.setPath (mergePaths u.path v.path)) with
        query := encode v.query .query
        fragment := encode v.fragment .query } := by
  have hempty : v.authority.isEmpty = true := by rw [isEmpty, authority, hhost]; rfl
  rw [resolveUri, if_neg hne, if_neg hhead, hnew]
  simp only [bind, Except.bind, pure, Except.pure]
  rw [if_neg (not_not.mpr hscheme), hempty, if_neg (by decide),
    if_neg (by rintro (h | h); exacts [hpath.1 h, hpath.2 h]), if_pos hbase]
  rfl

/-! ## The target of the RFC -/

/-- Encoding leaves the text alone, if it is of legal characters. -/
def Plain (xs : List UInt8) : Prop := 37 ∉ xs ∧ 43 ∉ xs

instance (xs : List UInt8) : Decidable (Plain xs) := inferInstanceAs (Decidable (_ ∧ _))

theorem encode_eq_self_iff_plain {component : UriComponent} {legal : UInt8 → Bool}
    (hcomponent : ∀ ch, shouldEncode component ch = (!legal ch || ch == 37 || ch == 43))
    (hxs : ∀ ch ∈ xs, legal ch = true) : encode xs component = xs ↔ Plain xs := by
  have hch (ch : UInt8) (hmem : ch ∈ xs) :
      shouldEncode component ch = false ↔ ch ≠ 37 ∧ ch ≠ 43 := by
    rw [hcomponent, hxs ch hmem]
    simp
  rw [encode_eq_self_iff]
  constructor
  · intro h
    exact ⟨fun hmem => ((hch 37 hmem).mp (h 37 hmem)).1 rfl,
      fun hmem => ((hch 43 hmem).mp (h 43 hmem)).2 rfl⟩
  · intro h ch hmem
    refine (hch ch hmem).mpr ⟨?_, ?_⟩
    · rintro rfl
      exact h.1 hmem
    · rintro rfl
      exact h.2 hmem

theorem slashed_eq_iff (path : List UInt8) :
    slashed (DotSegments.removeDotSegments 47 46 path) = slashed path ↔
      NoDotSegment 47 46 path := by
  have hroot : DotSegments.removeDotSegments 47 46 (ascii "/") = ascii "/" := by decide +kernel
  rw [← removeDotSegments_eq_self_iff (by decide)]
  refine ⟨fun h => ?_, fun h => by rw [h]⟩
  by_cases hpath : path = []
  · rw [hpath]
    decide +kernel
  · rw [slashed, slashed, if_neg hpath] at h
    split at h
    next => rw [← h, hroot]
    next => exact h

theorem ofReference_path_eq_iff (r : Reference UInt8 (List UInt8)) (path : List UInt8) :
    ofReference r = ofReference { r with path := path } ↔ slashed path = slashed r.path := by
  constructor
  · exact fun h => (congrArg Uri.path h).symm
  · intro h
    rw [ofReference, ofReference, h]

/-- The condition under which the target is that of the RFC: what is not removed, not told
apart or encoded once more is not there. -/
def Resolves (u : Uri) (r : Reference UInt8 (List UInt8)) : Prop :=
  if r.scheme ≠ none ∨ r.authority ≠ none then NoDotSegment 47 46 r.path
  else if r.path = [] then
    (∀ query, r.query = some query → Plain query ∧ (query = [] → u.query = [])) ∧
      Plain (r.fragment.getD [])
  else
    Plain (r.query.getD []) ∧ Plain (r.fragment.getD []) ∧
      if r.path.head? = some 47 then
        u.fragment = [] ∧ LosesNothing r.path ∧
          Plain (DotSegments.removeDotSegments 47 46 r.path)
      else
        LosesNothing (mergePaths u.path r.path) ∧
          Plain (DotSegments.removeDotSegments 47 46 (mergePaths u.path r.path))

/-! ### With a scheme or an authority -/

theorem resolves_of_scheme (hc : c.Valid) (hscheme : c.scheme ≠ none) :
    u.resolveUri c.text = .ok (ofReference (base.transform 47 46 c.reference)) ↔
      NoDotSegment 47 46 c.reference.path := by
  obtain ⟨s, hs⟩ := Option.ne_none_iff_exists'.mp hscheme
  obtain ⟨d, xs, rfl, halpha, -⟩ := hc.scheme s hs
  have htext : c.text = d :: (xs ++ 58 :: c.fromAuthority) := Components.text_of_some hs
  have hhead : c.text.head? ≠ some 47 := by
    rw [htext, List.head?_cons]
    rintro ⟨⟩
    exact absurd halpha (by decide)
  have hlower : (ofOut c.out).scheme ≠ [] := by
    rw [← ofReference_reference hc]
    change inplaceTolower (c.scheme.getD []) ≠ []
    rw [hs]
    exact List.cons_ne_nil _ _
  rw [resolveUri_of_scheme (new_of_parseFrom hc.parseFrom_eq) (by simp [htext]) hhead hlower,
    Reference.transform_of_scheme hscheme, ← ofReference_reference hc, Except.ok.injEq,
    ofReference_path_eq_iff, slashed_eq_iff]

theorem resolves_of_authority (hc : c.Valid) (hscheme : c.scheme = none)
    (hauthority : c.authority ≠ none) {s : List UInt8} (hbase : base.scheme = some s)
    (hs : Components.IsScheme s) (hu : u.scheme = inplaceTolower s) :
    u.resolveUri c.text = .ok (ofReference (base.transform 47 46 c.reference)) ↔
      NoDotSegment 47 46 c.reference.path := by
  obtain ⟨a, ha⟩ := Option.ne_none_iff_exists'.mp hauthority
  have htext : c.text = 47 :: 47 :: (a ++ c.fromPath) :=
    (Components.text_of_none hscheme).trans (Components.fromAuthority_of_some ha)
  -- the text with the base's scheme
  obtain ⟨full, hfull⟩ : ∃ full : Components, full = { c with scheme := some u.scheme } :=
    ⟨_, rfl⟩
  have hvalid : full.Valid := by
    rw [hfull]
    refine ⟨?_, nofun, hc.authority, hc.no_authority, hc.path, hc.no_path, hc.query, hc.no_query,
      hc.fragment, hc.no_fragment⟩
    rintro x ⟨⟩
    rw [hu]
    exact isScheme_inplaceTolower hs
  have hresolve : u.resolveUri c.text = .ok (ofReference full.reference) := by
    have hfulltext : full.text = u.scheme ++ [58] ++ 47 :: 47 :: (a ++ c.fromPath) := by
      rw [hfull, ← htext, Components.text, Components.text, hscheme]
      rfl
    rw [htext, resolveUri_of_slashes, ← hfulltext, new_of_parseFrom hvalid.parseFrom_eq,
      ofReference_reference hvalid]
  have hsame : ofReference full.reference =
      ofReference { c.reference with scheme := base.scheme } := by
    have hscheme' : inplaceTolower u.scheme = inplaceTolower s := by
      rw [hu, inplaceTolower_idem]
    rw [hfull, hbase]
    exact congrArg (fun scheme => { ofReference c.reference with scheme := scheme }) hscheme'
  rw [hresolve, hsame, Reference.transform_of_authority hscheme hauthority, Except.ok.injEq]
  exact (ofReference_path_eq_iff { c.reference with scheme := base.scheme } _).trans
    (slashed_eq_iff _)

/-! ### With a path or less -/

theorem ofReference_update_iff {path path' query fragment : List UInt8}
    {query' fragment' : Option (List UInt8)} :
    { ofReference base with path := path, query := query, fragment := fragment } =
        ofReference { base with path := path', query := query', fragment := fragment' } ↔
      path = slashed path' ∧ query = query'.getD [] ∧ fragment = fragment'.getD [] := by
  simp [ofReference]

/-- A text without a scheme and an authority begins with its path. -/
theorem text_of_no_authority (hscheme : c.scheme = none) (hauthority : c.authority = none) :
    c.text = c.path.getD [] ++ c.fromQuery := by
  rw [Components.text_of_none hscheme, Components.fromAuthority_of_none hauthority]
  rfl

theorem ofOut_of_no_authority (hc : c.Valid) (hscheme : c.scheme = none)
    (hauthority : c.authority = none) : ofOut c.out =
      ⟨[], [], [], slashed (c.path.getD []), c.query.getD [], c.fragment.getD [], 0⟩ := by
  rw [← ofReference_reference hc, Components.reference, ofReference, hscheme, hauthority]
  rfl

theorem encode_query_iff (hc : c.Valid) :
    encode (c.query.getD []) .query = c.query.getD [] ↔ Plain (c.query.getD []) :=
  encode_eq_self_iff_plain (fun _ => rfl) hc.isQueryCharacter_query

/-- The fragment is encoded like a query. -/
theorem encode_fragment_iff (hc : c.Valid) :
    encode (c.fragment.getD []) .query = c.fragment.getD [] ↔ Plain (c.fragment.getD []) :=
  encode_eq_self_iff_plain (fun _ => rfl) hc.isFragmentCharacter_fragment

theorem resolves_of_no_path (hc : c.Valid) (hne : c.text ≠ []) (hscheme : c.scheme = none)
    (hauthority : c.authority = none) (hpath : c.path = none) (hu : u = ofReference base) :
    u.resolveUri c.text = .ok (ofReference (base.transform 47 46 c.reference)) ↔
      (∀ query, c.query = some query → Plain query ∧ (query = [] → u.query = [])) ∧
        Plain (c.fragment.getD []) := by
  have htext : c.text = c.fromQuery := by
    rw [text_of_no_authority hscheme hauthority, hpath]
    rfl
  have hhead : c.text.head? ≠ some 47 := by
    have hno := hc.no_path hpath
    rw [← htext] at hno
    intro hhead
    rw [List.headD_eq_head?_getD, hhead] at hno
    exact absurd hno (by decide)
  have hout := ofOut_of_no_authority hc hscheme hauthority
  have hreference : c.reference.path = [] := by
    rw [Components.reference, hpath]
    rfl
  rw [resolveUri_of_no_path (new_of_parseFrom hc.parseFrom_eq) hne hhead (by rw [hout])
    (by rw [hout]) (by rw [hout, hpath]; rfl), Reference.transform_of_no_path hscheme hauthority
    hreference, Except.ok.injEq, hout, hu]
  have hsame : (ofReference base).path = slashed base.path := rfl
  refine ofReference_update_iff.trans ((and_iff_right hsame).trans ?_)
  rw [← encode_fragment_iff hc]
  refine and_congr_left fun _ => ?_
  have hplain := encode_query_iff hc
  cases hquery : c.query with
  | none => simp [Components.reference, hquery, ofReference]
  | some query =>
      rw [hquery] at hplain
      simp only [Components.reference, hquery, Option.getD_some] at hplain ⊢
      by_cases hnil : query = []
      · subst hnil
        simp [Plain, ofReference]
      · simp [hnil, hplain]

/-- The rest of a path without dot segments is not empty. -/
theorem slashed_rfc (xs : List UInt8) :
    slashed (DotSegments.removeDotSegments 47 46 (47 :: xs)) =
      DotSegments.removeDotSegments 47 46 (47 :: xs) := by
  obtain ⟨segments, hsegments, hslash, hjoin⟩ := exists_segments xs
  refine if_neg ?_
  rw [hjoin, removeDotSegments_rfc hsegments hslash, join_append, join_singleton]
  exact List.append_ne_nil_of_right_ne_nil _ (List.cons_ne_nil 47 _)

/-- An absolute path is encoded and then loses its dot segments. -/
theorem removeDotSegments_plain_iff {v : Uri} (hpath : v.path = encode (47 :: xs) .path)
    (hxs : ∀ d ∈ 47 :: xs, isPathCharacter d = true) :
    (removeDotSegments v).path = slashed (DotSegments.removeDotSegments 47 46 (47 :: xs)) ↔
      LosesNothing (47 :: xs) ∧ Plain (DotSegments.removeDotSegments 47 46 (47 :: xs)) := by
  rw [slashed_rfc, removeDotSegments_encoded_iff rfl hpath]
  exact and_congr_right fun _ =>
    encode_eq_self_iff_plain (fun _ => rfl) fun d hd => hxs d (mem_rfc hd)

theorem resolves_of_slash (hc : c.Valid) (hscheme : c.scheme = none)
    (hauthority : c.authority = none) (hpath : c.path = some (47 :: xs))
    (hu : u = ofReference base) :
    u.resolveUri c.text = .ok (ofReference (base.transform 47 46 c.reference)) ↔
      Plain (c.query.getD []) ∧ Plain (c.fragment.getD []) ∧ u.fragment = [] ∧
        LosesNothing (47 :: xs) ∧ Plain (DotSegments.removeDotSegments 47 46 (47 :: xs)) := by
  have htext : c.text = 47 :: (xs ++ c.fromQuery) := by
    rw [text_of_no_authority hscheme hauthority, hpath]
    rfl
  have hnext : c.text[1]? ≠ some 47 := by
    intro hnext
    refine hc.no_authority hauthority ?_
    rw [Components.fromPath_of_some hpath, List.cons_append]
    rw [htext, List.getElem?_cons_succ, ← List.head?_eq_getElem?] at hnext
    obtain ⟨rest, hrest⟩ := List.head?_eq_some_iff.mp hnext
    exact ⟨rest, by rw [hrest]; rfl⟩
  have hout := ofOut_of_no_authority hc hscheme hauthority
  rw [hpath] at hout
  have hreference : c.reference.path = 47 :: xs := by
    rw [Components.reference, hpath]
    rfl
  rw [resolveUri_of_slash (new_of_parseFrom hc.parseFrom_eq) (by rw [htext]; rfl) hnext
    (by rw [hout]; rfl), Reference.transform_of_path hscheme hauthority
    (by rw [hreference]; exact List.cons_ne_nil 47 xs), Except.ok.injEq, hout, removeDotSegments_eq,
    hreference, if_pos List.head?_cons, hu]
  refine ofReference_update_iff.trans ?_
  have hxs := hc.isPathCharacter_path
  rw [hpath] at hxs
  rw [removeDotSegments_plain_iff rfl hxs]
  change _ ∧ encode (c.query.getD []) .query = c.query.getD [] ∧
    encode (_ ++ c.fragment.getD []) .query = c.fragment.getD [] ↔ _
  rw [encode_append_eq_iff, encode_query_iff hc, encode_fragment_iff hc]
  tauto

/-! ### With a relative path -/

/-- An absolute path ends with its last slash and the last segment. -/
theorem mergePaths_eq (xs path : List UInt8) :
    mergePaths (47 :: xs) path = (47 :: xs).rdropWhile (· ≠ 47) ++ path := by
  rw [mergePaths, if_neg (not_not.mpr (List.mem_cons_self ..))]
  split
  next hlast =>
    obtain ⟨init, hinit⟩ := List.getLast?_eq_some_iff.mp hlast
    rw [hinit, List.rdropWhile_concat_neg _ _ _ (by simp)]
  next => rfl

/-- It is merged to an absolute path. -/
theorem exists_mergePaths {path : List UInt8} (hxs : ∀ d ∈ 47 :: xs, isPathCharacter d = true)
    (hpath : ∀ d ∈ path, isPathCharacter d = true) :
    ∃ ys, mergePaths (47 :: xs) path = 47 :: ys ∧ ∀ d ∈ 47 :: ys, isPathCharacter d = true := by
  obtain ⟨init, hinit⟩ := List.rdropWhile_prefix (p := fun d : UInt8 => decide (d ≠ 47)) (47 :: xs)
  have hne : (47 :: xs).rdropWhile (· ≠ 47) ≠ [] := by
    rw [ne_eq, List.rdropWhile_eq_nil_iff]
    exact fun hall => absurd rfl (of_decide_eq_true (hall 47 (List.mem_cons_self ..)))
  obtain ⟨d, ys, hcons⟩ := List.exists_cons_of_ne_nil hne
  rw [hcons, List.cons_append] at hinit
  obtain ⟨rfl, -⟩ := List.cons.inj hinit
  rw [mergePaths_eq, hcons]
  refine ⟨ys ++ path, rfl, fun d hd => ?_⟩
  rw [← List.cons_append] at hd
  rcases List.mem_append.mp hd with hd | hd
  · refine hxs d ?_
    rw [← hinit]
    exact List.mem_append_left init hd
  · exact hpath d hd

/-- Paths are merged as the RFC says. -/
theorem merge_eq (hauthority : base.authority ≠ none)
    (hbase : base.path = [] ∨ ∃ xs, base.path = 47 :: xs) (path : List UInt8) :
    base.merge 47 path = mergePaths (slashed base.path) path := by
  rcases hbase with hnil | ⟨xs, hcons⟩
  · have hroot : ascii "/" = [47] := by decide
    rw [Reference.merge, if_pos ⟨Option.isSome_iff_ne_none.mpr hauthority, hnil⟩, slashed,
      if_pos hnil, hroot, mergePaths_eq]
    rfl
  · have hne : base.path ≠ [] := by
      rw [hcons]
      exact List.cons_ne_nil 47 xs
    rw [Reference.merge_of_path hne, slashed, if_neg hne, hcons, mergePaths_eq]

theorem resolves_of_path (hc : c.Valid) (hscheme : c.scheme = none)
    (hauthority : c.authority = none) {p : List UInt8} (hpath : c.path = some p)
    (hp : p.head? ≠ some 47) (hbase : base.authority ≠ none) (hu : u = ofReference base)
    (habsolute : base.path = [] ∨ ∃ xs, base.path = 47 :: xs)
    (hchars : ∀ d ∈ base.path, isPathCharacter d = true) :
    u.resolveUri c.text = .ok (ofReference (base.transform 47 46 c.reference)) ↔
      Plain (c.query.getD []) ∧ Plain (c.fragment.getD []) ∧
        LosesNothing (mergePaths u.path p) ∧
          Plain (DotSegments.removeDotSegments 47 46 (mergePaths u.path p)) := by
  obtain ⟨hne, hpchars, -⟩ := hc.path p hpath
  have hslash : p ≠ ascii "/" := by
    rintro rfl
    exact hp rfl
  have htext : c.text = p ++ c.fromQuery := by
    rw [text_of_no_authority hscheme hauthority, hpath]
    rfl
  have hhead : c.text.head? ≠ some 47 := by
    rw [htext, List.head?_append_of_ne_nil p hne]
    exact hp
  have hout := ofOut_of_no_authority hc hscheme hauthority
  rw [hpath, Option.getD_some, slashed, if_neg hne] at hout
  have hreference : c.reference.path = p := by
    rw [Components.reference, hpath]
    rfl
  -- the base's path is absolute, and the merged path too
  obtain ⟨xs, hxs, hxschars⟩ : ∃ xs, u.path = 47 :: xs ∧
      ∀ d ∈ 47 :: xs, isPathCharacter d = true := by
    rw [hu]
    change ∃ xs, slashed base.path = 47 :: xs ∧ _
    rcases habsolute with hnil | ⟨xs, hcons⟩
    · exact ⟨[], by rw [hnil]; rfl, List.forall_mem_singleton.mpr (by decide)⟩
    · refine ⟨xs, ?_, hcons ▸ hchars⟩
      rw [hcons, slashed, if_neg (List.cons_ne_nil 47 xs)]
  obtain ⟨ys, hmerged, hyschars⟩ := exists_mergePaths hxschars hpchars
  have hset : u.setPath (mergePaths u.path p) =
      { u with path := encode (mergePaths u.path p) .path } := by
    rw [hxs, hmerged]
    rfl
  have hmerge : base.merge 47 p = mergePaths u.path p := by
    rw [merge_eq hbase habsolute, hu]
    rfl
  rw [resolveUri_of_path (new_of_parseFrom hc.parseFrom_eq) (by simp [htext, hne]) hhead
    (by rw [hout]) (by rw [hout]) (by rw [hout]; exact ⟨hslash, hne⟩)
    (by rw [hxs]; exact List.cons_ne_nil 47 xs), Reference.transform_of_path hscheme hauthority
    (by rw [hreference]; exact hne), Except.ok.injEq, hout, hset, removeDotSegments_eq,
    hreference, if_neg hp, hmerge]
  generalize hm : mergePaths u.path p = merged at *
  rw [hxs, hmerged] at hm
  subst hm
  rw [hu]
  refine ofReference_update_iff.trans ?_
  rw [removeDotSegments_plain_iff rfl hyschars]
  change _ ∧ encode (c.query.getD []) .query = c.query.getD [] ∧
    encode (c.fragment.getD []) .query = c.fragment.getD [] ↔ _
  rw [encode_query_iff hc, encode_fragment_iff hc]
  tauto

/-! ### All references -/

/-- Resolving a reference gives what the RFC takes from the parsed components exactly under
the condition. -/
theorem resolveUri_agrees_iff {text ref : List UInt8} {b r : InnerParseOut}
    (hb : parseFrom text = some b) (hscheme : b.scheme ≠ none) (hhost : (ofOut b).host ≠ [])
    (hr : parseFrom ref = some r) (hne : ref ≠ []) :
    (ofOut b).resolveUri ref =
        .ok (ofReference ((referenceOf text b).transform 47 46 (referenceOf ref r))) ↔
      Resolves (ofOut b) (referenceOf ref r) := by
  obtain ⟨base, hbase, rfl, rfl⟩ := Components.parseFrom_eq_some_iff.mp hb
  obtain ⟨c, hc, rfl, rfl⟩ := Components.parseFrom_eq_some_iff.mp hr
  rw [referenceOf_text hbase, referenceOf_text hc, ← ofReference_reference hbase]
  rw [← ofReference_reference hbase] at hhost
  have hauthority : base.authority ≠ none := by
    intro hnone
    refine hhost ?_
    change (ofAuthority base.authority).host = []
    rw [hnone]
    rfl
  rw [base.out_scheme] at hscheme
  obtain ⟨s, hs⟩ := Option.ne_none_iff_exists'.mp hscheme
  by_cases hwith : c.reference.scheme ≠ none ∨ c.reference.authority ≠ none
  · rw [Resolves, if_pos hwith]
    by_cases hscheme' : c.scheme = none
    · refine resolves_of_authority hc hscheme' (hwith.resolve_left fun h => h hscheme') hs
        (hbase.scheme s hs) ?_
      change inplaceTolower (base.scheme.getD []) = _
      rw [hs]
      rfl
    · exact resolves_of_scheme hc hscheme'
  · rw [Resolves, if_neg hwith]
    obtain ⟨hscheme', hauthority'⟩ := not_or.mp hwith
    rw [not_not] at hscheme' hauthority'
    cases hpath : c.path with
    | none =>
        have hreference : c.reference.path = [] := by
          rw [Components.reference, hpath]
          rfl
        rw [if_pos hreference]
        exact resolves_of_no_path hc hne hscheme' hauthority' hpath rfl
    | some p =>
        have hp := (hc.path p hpath).1
        have hreference : c.reference.path = p := by
          rw [Components.reference, hpath]
          rfl
        rw [hreference, if_neg hp]
        by_cases hhead : p.head? = some 47
        · obtain ⟨xs, rfl⟩ := List.head?_eq_some_iff.mp hhead
          rw [if_pos hhead]
          exact resolves_of_slash hc hscheme' hauthority' hpath rfl
        · rw [if_neg hhead]
          exact resolves_of_path hc hscheme' hauthority' hpath hhead hauthority rfl
            (hbase.path_of_authority hauthority) hbase.isPathCharacter_path

/-- A relative path with dot segments. -/
theorem resolveUri_agrees_iff_up : ∃ b r, parseFrom (ascii "http://h/b/c/d?q") = some b ∧
    parseFrom (ascii "../g?y") = some r ∧
      ((ofOut b).resolveUri (ascii "../g?y") = .ok (ofReference
        ((referenceOf (ascii "http://h/b/c/d?q") b).transform 47 46
          (referenceOf (ascii "../g?y") r))) ↔
        Resolves (ofOut b) (referenceOf (ascii "../g?y") r)) :=
  ⟨_, _, rfl, rfl, resolveUri_agrees_iff rfl nofun (by decide) rfl (by decide)⟩

/-- The base's fragment is kept before that of an absolute path. -/
theorem resolveUri_agrees_fails : ∃ b r, parseFrom (ascii "http://h/p#f") = some b ∧
    parseFrom (ascii "/x") = some r ∧ b.scheme = some (ascii "http") ∧
      (ofOut b).host = ascii "h" ∧ (ofOut b).path = ascii "/p" ∧
      (ofOut b).resolveUri (ascii "/x") ≠ .ok (ofReference
        ((referenceOf (ascii "http://h/p#f") b).transform 47 46 (referenceOf (ascii "/x") r))) :=
  ⟨_, _, rfl, rfl, rfl, rfl, rfl, by decide +kernel⟩

end Uri

end Netpp
