import Netpp.Uri.Components
import Netpp.Uri.Encoding
import Netpp.Uri.Query
import Netpp.Uri.RoundTrip
import Netpp.Uri.Segments

/-!
# Building a URI step by step

A URI is built by any sequence of calls of the setters, the appending functions,
`removeDotSegments`, `toString` and `authority`. Every call keeps the components
`Editable`, that is, made of the characters that belong there, with an absolute path.
Once there are a scheme and a host the URI is printed to a text that is parsed to what
`toString` left in it.

A run with encoding is the run of the same calls without it, with every component
encoded at the end: the slashes and ampersands at which the appending functions look are
not encoded, and no escape ends in one. This does not hold of the calls that read a
component that has been encoded before, `removeDotSegments` and the `appendQuery` of a
name and a value.
-/

namespace Netpp

open Text (ascii)

namespace Uri

open UriCodec

/-- A scheme in upper or lower case. -/
def RawScheme : Type := { xs : List UInt8 // Components.IsScheme xs }

/-- A host without an escape that would be a delimiter, in upper or lower case. -/
def RawHost : Type :=
  { xs : List UInt8 // ∀ c ∈ xs, isUserInfoCharacter c = true ∧ c ≠ 58 ∧ c ≤ 127 }

/-- A call that changes a URI. -/
inductive Edit where
  | setScheme (scheme : RawScheme)
  | setHost (host : RawHost)
  | setUserInfo (userInfo : List UInt8)
  | setPort (port : Fin (2 ^ 31))
  | setPath (path : List UInt8)
  | appendPath (path : List UInt8)
  | setQuery (query : List UInt8)
  | appendQuery (query : List UInt8)
  | appendQueryPair (name value : List UInt8)
  | setFragment (fragment : List UInt8)
  | removeDotSegments
  | toString
  | authority

/-- The URI after a call with this value of `shouldEncode`. -/
def edit (shouldEncode : Bool) (u : Uri) : Edit → Uri
  | .setScheme scheme => u.setScheme scheme.1
  | .setHost host => u.setHost host.1 shouldEncode
  | .setUserInfo userInfo => u.setUserInfo userInfo shouldEncode
  | .setPort port => u.setPort port
  | .setPath path => u.setPath path shouldEncode
  | .appendPath path => u.appendPath path shouldEncode
  | .setQuery query => u.setQuery query shouldEncode
  | .appendQuery query => u.appendQuery query shouldEncode
  | .appendQueryPair name value => u.appendQueryPair name value shouldEncode
  | .setFragment fragment => u.setFragment fragment shouldEncode
  | .removeDotSegments => u.removeDotSegments
  | .toString => u.toString.2
  | .authority => u.authority

/-- The URI after the calls, from a default-constructed one. -/
def edits (shouldEncode : Bool) (es : List Edit) : Uri :=
  es.foldl (edit shouldEncode) ⟨[], [], [], ascii "/", [], [], 0⟩

theorem newDefault_eq : newDefault = .ok (edits true []) := by
  decide +kernel

/-! ## What every call keeps -/

structure Editable (u : Uri) : Prop where
  scheme : u.scheme ≠ [] → Components.IsScheme u.scheme
  host : ∀ c ∈ u.host, isUserInfoCharacter c = true ∧ c ≠ 58
  userInfo : ∀ c ∈ u.userInfo, isUserInfoCharacter c = true
  port : ∃ n : Nat, u.port = n ∧ n < 2 ^ 31
  path_head : u.path.head? = some 47
  path : ∀ c ∈ u.path, isPathCharacter c = true
  query : ∀ c ∈ u.query, isQueryCharacter c = true
  fragment : ∀ c ∈ u.fragment, isFragmentCharacter c = true

/-- The URI is printed to a text that is accepted, and parsed to what is left in it. -/
structure Reread (u : Uri) : Prop where
  accepted : validate u.toString.1 = true
  reparsed : new u.toString.1 = .ok u.toString.2

variable {u v : Uri} {xs ys : List UInt8} {component : UriComponent} {d : UInt8}

theorem Editable.path_ne_nil (h : u.Editable) : u.path ≠ [] := by
  intro hnil
  have hhead := h.path_head
  rw [hnil] at hhead
  cases hhead

theorem Editable.canonicalize_eq (h : u.Editable) : u.canonicalize =
    { u with scheme := inplaceTolower u.scheme, host := inplaceTolower u.host } := by
  rw [canonicalize]
  simp only [h.path_ne_nil, h.path_head, and_false, if_false, ne_eq, not_true_eq_false]

theorem isUserInfoCharacter_of_isalpha {c : UInt8} (h : isalpha c = true) :
    isUserInfoCharacter c = true := by
  refine isUserInfoCharacter_of_isUnreserved (isUnreserved_of_isalnum ?_)
  rw [isalnum, h, Bool.true_or]

theorem host_inplaceTolower (h : ∀ c ∈ xs, isUserInfoCharacter c = true ∧ c ≠ 58) :
    ∀ c ∈ inplaceTolower xs, isUserInfoCharacter c = true ∧ c ≠ 58 := by
  refine fun c hc => ⟨forall_mem_inplaceTolower (fun _ => isUserInfoCharacter_of_isalpha)
    (fun c hc => (h c hc).1) c hc, ?_⟩
  obtain ⟨c, hmem, rfl⟩ := List.mem_map.mp hc
  rcases toLowerChImpl_cases c with hsame | ⟨hge, -⟩
  · rw [hsame]
    exact (h c hmem).2
  · intro heq
    rw [heq] at hge
    exact absurd hge (by decide)

theorem Editable.canonicalize (h : u.Editable) : u.canonicalize.Editable := by
  rw [h.canonicalize_eq]
  refine ⟨fun hne => ?_, host_inplaceTolower h.host, h.userInfo, h.port, h.path_head, h.path,
    h.query, h.fragment⟩
  refine isScheme_inplaceTolower (h.scheme fun hnil => hne ?_)
  simp only [hnil]
  rfl

/-- Printing twice is printing once. -/
theorem Editable.toString_canonicalize (h : u.Editable) : u.canonicalize.toString = u.toString := by
  have hidem : u.canonicalize.canonicalize = u.canonicalize := by
    rw [h.canonicalize.canonicalize_eq, h.canonicalize_eq]
    simp only [inplaceTolower_idem]
  rw [Uri.toString, hidem]
  rfl

theorem Editable.legal (h : u.Editable) (hscheme : u.scheme ≠ []) (hhost : u.host ≠ []) :
    u.canonicalize.Legal := by
  obtain ⟨xs, hpath⟩ := List.head?_eq_some_iff.mp h.path_head
  rw [h.canonicalize_eq]
  refine ⟨isScheme_inplaceTolower (h.scheme hscheme), inplaceTolower_idem _, h.userInfo, ?_,
    host_inplaceTolower h.host, inplaceTolower_idem _, h.port, ⟨xs, hpath, fun c hc => ?_⟩,
    h.query, h.fragment⟩
  · exact fun hnil => hhost (List.map_eq_nil_iff.mp hnil)
  · exact h.path c (by rw [hpath]; exact List.mem_cons_of_mem 47 hc)

theorem Editable.reread (h : u.Editable) (hscheme : u.scheme ≠ []) (hhost : u.host ≠ []) :
    Reread u := by
  have hlegal := h.legal hscheme hhost
  have htoString : u.toString = (u.canonicalize.text, u.canonicalize) := by
    rw [← h.toString_canonicalize, hlegal.toString_eq]
  refine ⟨?_, ?_⟩
  · rw [htoString, validate, hlegal.parseFrom_text]
    rfl
  · rw [htoString]
    exact hlegal.new_text

/-! ## The calls -/

theorem encode_host_of_raw (host : RawHost) : encode host.1 .host = host.1 :=
  UriCodec.encode_host fun c hc => (host.2 c hc).2.2

theorem path_setPath (u : Uri) (path : List UInt8) : (u.setPath path).path.head? = some 47 ∧
    ∀ c ∈ (u.setPath path).path, isPathCharacter c = true := by
  simp only [setPath, if_true]
  split
  next hslash => exact ⟨encode_head hslash, isPathCharacter_encode path⟩
  next => exact ⟨rfl, List.forall_mem_cons.mpr ⟨by decide, isPathCharacter_encode path⟩⟩

theorem Editable.setPath (h : u.Editable) (path : List UInt8) : (u.setPath path).Editable :=
  ⟨h.scheme, h.host, h.userInfo, h.port, (path_setPath u path).1, (path_setPath u path).2,
    h.query, h.fragment⟩

theorem Editable.removeDotSegments (h : u.Editable) : u.removeDotSegments.Editable := by
  simp only [Uri.removeDotSegments]
  split
  next => exact h
  next =>
    split
    next => exact h.setPath _
    next => exact h.setPath _

/-- The path stays absolute when something is appended to what is left of it. -/
theorem head_appendPath (h : u.path.head? = some 47) (path : List UInt8) :
    (u.appendPath path).path.head? = some 47 := by
  have hroot : ascii "/" = [47] := by decide
  obtain ⟨xs, hpath⟩ := List.head?_eq_some_iff.mp h
  rw [Uri.appendPath, hroot]
  split
  next =>
    simp only [if_true]
    split
    next =>
      split
      next => rfl
      next hslash => exact encode_head (not_not.mp hslash)
    next hlong =>
      split
      next =>
        have hne : xs ≠ [] := by
          rintro rfl
          exact hlong (.inr hpath)
        rw [hpath, List.dropLast_cons_of_ne_nil hne]
        rfl
      next =>
        split
        next => rw [hpath]; rfl
        next => rw [hpath]; rfl
  next => exact h

theorem Editable.appendPath (h : u.Editable) (path : List UInt8) :
    (u.appendPath path).Editable := by
  have hhead := head_appendPath h.path_head path
  have hframe : u.appendPath path = { u with path := (u.appendPath path).path } := by
    rw [Uri.appendPath]
    split <;> rfl
  rw [hframe]
  refine ⟨h.scheme, h.host, h.userInfo, h.port, hhead, ?_, h.query, h.fragment⟩
  simp only [Uri.appendPath]
  split
  next =>
    simp only [if_true]
    refine List.forall_mem_append.mpr ⟨?_, isPathCharacter_encode path⟩
    split
    next =>
      split
      next => exact List.forall_mem_singleton.mpr (by decide)
      next => exact List.forall_mem_nil _
    next =>
      split
      next => exact fun c hc => h.path c (List.dropLast_subset _ hc)
      next =>
        split
        next =>
          exact List.forall_mem_append.mpr ⟨h.path, List.forall_mem_singleton.mpr (by decide)⟩
        next => exact h.path
  next => exact h.path

/-- The query consists of legal characters if what is appended does. -/
theorem Editable.appendQuery (h : u.Editable) (query : List UInt8) (shouldEncode : Bool)
    (hlegal : shouldEncode = false → ∀ c ∈ query, isQueryCharacter c = true) :
    (u.appendQuery query shouldEncode).Editable := by
  have hframe : u.appendQuery query shouldEncode =
      { u with query := (u.appendQuery query shouldEncode).query } := by
    rw [Uri.appendQuery]
    split <;> rfl
  rw [hframe]
  refine ⟨h.scheme, h.host, h.userInfo, h.port, h.path_head, h.path, ?_, h.fragment⟩
  simp only [Uri.appendQuery]
  split
  next =>
    refine List.forall_mem_append.mpr ⟨?_, ?_⟩
    · split
      next => exact List.forall_mem_nil _
      next =>
        split
        next => exact fun c hc => h.query c (List.dropLast_subset _ hc)
        next =>
          split
          next =>
            exact List.forall_mem_append.mpr ⟨h.query, List.forall_mem_singleton.mpr (by decide)⟩
          next => exact h.query
    · split
      next => exact isQueryCharacter_encode query
      next hencode => exact hlegal (Bool.eq_false_iff.mpr hencode)
  next => exact h.query

theorem isQueryCharacter_encodePart (raw : List UInt8) :
    ∀ c ∈ encodePart raw, isQueryCharacter c = true := by
  refine forall_mem_encodeImpl (by decide) (fun c hc => ?_) fun c _ hc => ?_
  · exact isQueryCharacter_of_isPathCharacter (isPathCharacter_of_isUnreserved
      (isUnreserved_of_isalnum hc))
  · rw [encodeCondition, Bool.or_eq_false_iff, Bool.not_eq_false'] at hc
    exact hc.2

theorem Editable.appendQueryPair (h : u.Editable) (name value : List UInt8) :
    (u.appendQueryPair name value).Editable := by
  refine h.appendQuery _ false fun _ => ?_
  refine List.forall_mem_append.mpr ⟨List.forall_mem_append.mpr
    ⟨isQueryCharacter_encodePart name, List.forall_mem_singleton.mpr (by decide)⟩,
    isQueryCharacter_encodePart value⟩

/-- Step lemma: every call keeps the components legal. -/
theorem Editable.edit (h : u.Editable) (e : Edit) : (u.edit true e).Editable := by
  cases e with
  | setScheme scheme =>
      exact ⟨fun _ => scheme.2, h.host, h.userInfo, h.port, h.path_head, h.path, h.query,
        h.fragment⟩
  | setHost host =>
      refine ⟨h.scheme, ?_, h.userInfo, h.port, h.path_head, h.path, h.query, h.fragment⟩
      change ∀ c ∈ encode host.1 .host, _
      rw [encode_host_of_raw]
      exact fun c hc => ⟨(host.2 c hc).1, (host.2 c hc).2.1⟩
  | setUserInfo userInfo =>
      exact ⟨h.scheme, h.host, isUserInfoCharacter_encode userInfo, h.port, h.path_head, h.path,
        h.query, h.fragment⟩
  | setPort port =>
      exact ⟨h.scheme, h.host, h.userInfo, ⟨port, rfl, port.2⟩, h.path_head, h.path, h.query,
        h.fragment⟩
  | setPath path => exact h.setPath path
  | appendPath path => exact h.appendPath path
  | setQuery query =>
      exact ⟨h.scheme, h.host, h.userInfo, h.port, h.path_head, h.path,
        isQueryCharacter_encode query, h.fragment⟩
  | appendQuery query => exact h.appendQuery query true (by simp)
  | appendQueryPair name value => exact h.appendQueryPair name value
  | setFragment fragment =>
      exact ⟨h.scheme, h.host, h.userInfo, h.port, h.path_head, h.path, h.query,
        isQueryCharacter_encode fragment⟩
  | removeDotSegments => exact h.removeDotSegments
  | toString => exact h.canonicalize
  | authority =>
      exact ⟨h.scheme, h.host, h.userInfo, h.port, rfl, List.forall_mem_singleton.mpr (by decide),
        List.forall_mem_nil _, List.forall_mem_nil _⟩

theorem editable_foldl (h : u.Editable) (es : List Edit) :
    (es.foldl (edit true) u).Editable := by
  induction es generalizing u with
  | nil => exact h
  | cons e es ih => exact ih (h.edit e)

theorem editable_edits (es : List Edit) : (edits true es).Editable := by
  refine editable_foldl ⟨fun hne => absurd rfl hne, List.forall_mem_nil _, List.forall_mem_nil _,
    ⟨0, rfl, by decide⟩, rfl, List.forall_mem_singleton.mpr (by decide), List.forall_mem_nil _,
    List.forall_mem_nil _⟩ es

/-- Whatever calls a URI is built by, once it has a scheme and a host it is printed to a text
that is parsed to the same components. -/
theorem edits_reread (es : List Edit) (hscheme : (edits true es).scheme ≠ [])
    (hhost : (edits true es).host ≠ []) : Reread (edits true es) :=
  (editable_edits es).reread hscheme hhost

/-- A scheme in upper case, escapes in the path and delimiters in the query. -/
def someEdits : List Edit :=
  [.setScheme ⟨ascii "HTTP", 72, ascii "TTP", rfl, by decide, List.all_eq_true.mp (by decide)⟩,
    .setHost ⟨ascii "Host", by
      have hall : ((ascii "Host").all fun c =>
          isUserInfoCharacter c && (c != 58 && decide (c ≤ 127))) = true := by decide
      simpa using hall⟩,
    .appendPath (ascii "a b/"), .appendPath (ascii "/c"), .appendQuery (ascii "x&"),
    .appendQuery (ascii "&y z"), .setPort 8080, .toString]

theorem edits_reread_someEdits : Reread (edits true someEdits) ∧
    (edits true someEdits).text = ascii "http://host:8080/a%20b/c?x&y%20z" :=
  ⟨edits_reread someEdits (by decide +kernel) (by decide +kernel), by decide +kernel⟩

/-! ## Building and encoding -/

/-- The components, each encoded. -/
def encoded (u : Uri) : Uri where
  scheme := u.scheme
  host := encode u.host .host
  userInfo := encode u.userInfo .userInfo
  path := encode u.path .path
  query := encode u.query .query
  fragment := encode u.fragment .query
  port := u.port

/-- The call does not read a component that has been encoded as if it had not. -/
def Edit.transparent : Edit → Bool
  | .appendQueryPair _ _ | .removeDotSegments => false
  | _ => true

/-- The components are decoded to those that they were made of. -/
structure DecodesTo (u raw : Uri) : Prop where
  scheme : u.scheme = raw.scheme
  host : u.host = raw.host
  port : u.port = raw.port
  userInfo : decode u.userInfo = .ok raw.userInfo
  path : decode u.path = .ok raw.path
  query : decode u.query = .ok raw.query
  fragment : decode u.fragment = .ok raw.fragment

theorem encode_eq_nil_iff : encode xs component = [] ↔ xs = [] := by
  cases xs with
  | nil => exact iff_of_true rfl rfl
  | cons c xs =>
      rw [encode_cons]
      split <;> simp

/-- A delimiter of the component. -/
structure Delimits (d : UInt8) (component : UriComponent) : Prop where
  kept : shouldEncode component d = false
  notAlnum : isalnum d = false
  notPercent : d ≠ 37

theorem delimits_slash : Delimits 47 .path := ⟨by decide, by decide, by decide⟩

theorem delimits_ampersand : Delimits 38 .query := ⟨by decide, by decide, by decide⟩

theorem Delimits.encode_singleton (h : Delimits d component) : encode [d] component = [d] := by
  rw [encode_cons, if_neg (by simp [h.kept])]
  rfl

theorem Delimits.head?_encode (h : Delimits d component) :
    (encode xs component).head? = some d ↔ xs.head? = some d := by
  cases xs with
  | nil => rfl
  | cons c xs =>
      rw [encode_cons]
      split
      next hencode =>
        have hne : c ≠ d := by
          rintro rfl
          rw [h.kept] at hencode
          cases hencode
        simp [hne, Ne.symm h.notPercent]
      next => simp

/-- No escape ends in the delimiter. -/
theorem Delimits.getLast?_encode (h : Delimits d component) :
    (encode xs component).getLast? = some d ↔ xs.getLast? = some d := by
  rcases List.eq_nil_or_concat xs with rfl | ⟨init, c, rfl⟩
  · rfl
  · rw [List.concat_eq_append, encode_append, encode_cons, List.getLast?_concat]
    split
    next hencode =>
      have hne : c ≠ d := by
        rintro rfl
        rw [h.kept] at hencode
        cases hencode
      have hhex : hex (c.toNat % 16) ≠ d := by
        intro heq
        have halnum := isalnum_hex (Nat.mod_lt c.toNat (by decide : 0 < 16))
        rw [heq, h.notAlnum] at halnum
        cases halnum
      have hlast : (encode init component ++ ([37, hex (c.toNat / 16 % 16), hex (c.toNat % 16)] ++
          encode [] component)).getLast? = some (hex (c.toNat % 16)) := by
        simp [encode, encodeImpl]
      rw [hlast]
      simp [hne, hhex]
    next =>
      have hlast : (encode init component ++ ([c] ++ encode [] component)).getLast? = some c := by
        simp [encode, encodeImpl]
      rw [hlast]

theorem Delimits.encode_dropLast (h : Delimits d component) (hlast : xs.getLast? = some d) :
    encode xs.dropLast component = (encode xs component).dropLast := by
  obtain ⟨init, rfl⟩ := List.getLast?_eq_some_iff.mp hlast
  rw [encode_append, h.encode_singleton, List.dropLast_concat, List.dropLast_concat]

/-- What is left of a component to which something is appended with one delimiter between. -/
def joinFront (d : UInt8) (front xs : List UInt8) : List UInt8 :=
  if front.getLast? = some d ∧ xs.head? = some d then front.dropLast
  else if front.getLast? ≠ some d ∧ xs.head? ≠ some d then front ++ [d]
  else front

theorem Delimits.encode_joinFront (h : Delimits d component) :
    encode (joinFront d xs ys) component = joinFront d (encode xs component) ys := by
  simp only [joinFront, h.getLast?_encode, ne_eq]
  split
  next hboth => exact h.encode_dropLast hboth.1
  next =>
    split
    next => rw [encode_append, h.encode_singleton]
    next => rfl

theorem encode_eq_root_iff : encode xs .path = [47] ↔ xs = [47] := by
  rw [← delimits_slash.encode_singleton, encode_inj (by decide), delimits_slash.encode_singleton]

theorem encoded_setPath (v : Uri) (path : List UInt8) :
    v.encoded.setPath path = (v.setPath path false).encoded := by
  have hroot : encode (ascii "/") .path = ascii "/" := by decide
  have hpath : (if path.head? = some 47 then [] else ascii "/") ++ encode path .path =
      encode ((if path.head? = some 47 then [] else ascii "/") ++ path) .path := by
    rw [encode_append]
    split
    next => rfl
    next => rw [hroot]
  simp only [setPath, encoded, if_true, if_false, Bool.false_eq_true, hpath]

theorem encoded_appendPath (v : Uri) (path : List UInt8) :
    v.encoded.appendPath path = (v.appendPath path false).encoded := by
  have hroot : ascii "/" = [47] := by decide
  have hfront (front : List UInt8) : encode (joinFront 47 front path) .path =
      joinFront 47 (encode front .path) path := delimits_slash.encode_joinFront
  simp only [joinFront] at hfront
  simp only [Uri.appendPath, hroot, if_true, if_false, Bool.false_eq_true]
  split
  next =>
    have hpath : (encode v.path .path = [] ∨ encode v.path .path = [47]) ↔
        (v.path = [] ∨ v.path = [47]) := or_congr encode_eq_nil_iff encode_eq_root_iff
    simp only [encoded, encode_append, hpath]
    split
    next =>
      split
      next => rw [delimits_slash.encode_singleton]
      next => rfl
    next =>
      rw [hfront]
      rfl
  next => rfl

theorem encoded_appendQuery (v : Uri) (query : List UInt8) :
    v.encoded.appendQuery query = (v.appendQuery query false).encoded := by
  have hfront (front : List UInt8) : encode (joinFront 38 front query) .query =
      joinFront 38 (encode front .query) query := delimits_ampersand.encode_joinFront
  simp only [joinFront] at hfront
  simp only [Uri.appendQuery, if_true, if_false, Bool.false_eq_true]
  split
  next =>
    simp only [encoded, encode_append, encode_eq_nil_iff]
    split
    next => rfl
    next =>
      rw [hfront]
      rfl
  next => rfl

/-- What a run without encoding keeps: the path is absolute, and the host is not changed by
encoding. -/
structure Unencoded (v : Uri) : Prop where
  path_head : v.path.head? = some 47
  host : ∀ c ∈ v.host, c ≤ 127

theorem le_inplaceTolower (h : ∀ c ∈ xs, c ≤ 127) : ∀ c ∈ inplaceTolower xs, c ≤ 127 := by
  refine List.forall_mem_map.mpr fun c hc => ?_
  rcases toLowerChImpl_cases c with hsame | ⟨-, hle⟩
  · rw [hsame]
    exact h c hc
  · exact UInt8.le_trans hle (by decide)

theorem Unencoded.canonicalize_eq (h : v.Unencoded) : v.canonicalize =
    { v with scheme := inplaceTolower v.scheme, host := inplaceTolower v.host } := by
  have hne : v.path ≠ [] := by
    intro hnil
    have hhead := h.path_head
    rw [hnil] at hhead
    cases hhead
  rw [canonicalize]
  simp only [hne, h.path_head, and_false, if_false, ne_eq, not_true_eq_false]

/-- `toString` finds an absolute path before and after encoding. -/
theorem encoded_canonicalize (h : v.Unencoded) :
    v.encoded.canonicalize = v.canonicalize.encoded := by
  have hhost : encode v.host .host = v.host := UriCodec.encode_host h.host
  have hlower : encode (inplaceTolower v.host) .host = inplaceTolower v.host :=
    UriCodec.encode_host (le_inplaceTolower h.host)
  have hunencoded : v.encoded.Unencoded :=
    ⟨delimits_slash.head?_encode.mpr h.path_head, by rw [encoded, hhost]; exact h.host⟩
  rw [hunencoded.canonicalize_eq, h.canonicalize_eq]
  simp only [encoded, hhost, hlower]

theorem head_setPath (v : Uri) (path : List UInt8) :
    (v.setPath path false).path.head? = some 47 := by
  simp only [Uri.setPath, Bool.false_eq_true, if_false]
  split
  next hslash => exact hslash
  next => rfl

theorem Unencoded.edit (h : v.Unencoded) (e : Edit) (he : e.transparent = true) :
    (v.edit false e).Unencoded := by
  cases e with
  | setHost host =>
      refine ⟨h.path_head, fun c hc => ?_⟩
      exact (host.2 c hc).2.2
  | setPath path => exact ⟨head_setPath v path, h.host⟩
  | appendPath path =>
      have hhost : (v.appendPath path false).host = v.host := by
        rw [Uri.appendPath]
        split <;> rfl
      have hencoded : (encode (v.appendPath path false).path .path).head? = some 47 := by
        have hhead := head_appendPath (u := v.encoded)
          (delimits_slash.head?_encode.mpr h.path_head) path
        rwa [encoded_appendPath] at hhead
      exact ⟨delimits_slash.head?_encode.mp hencoded, by
        change ∀ c ∈ (v.appendPath path false).host, _
        rw [hhost]
        exact h.host⟩
  | appendQuery query =>
      have hframe : v.appendQuery query false =
          { v with query := (v.appendQuery query false).query } := by
        rw [Uri.appendQuery]
        split <;> rfl
      change (v.appendQuery query false).Unencoded
      rw [hframe]
      exact ⟨h.path_head, h.host⟩
  | toString =>
      change v.canonicalize.Unencoded
      rw [h.canonicalize_eq]
      exact ⟨h.path_head, le_inplaceTolower h.host⟩
  | authority => exact ⟨rfl, h.host⟩
  | appendQueryPair name value => cases he
  | removeDotSegments => cases he
  | _ => exact ⟨h.path_head, h.host⟩

/-- Step lemma: a call commutes with encoding the components. -/
theorem encoded_edit (h : v.Unencoded) (e : Edit) (he : e.transparent = true) :
    v.encoded.edit true e = (v.edit false e).encoded := by
  cases e with
  | setPath path => exact encoded_setPath v path
  | appendPath path => exact encoded_appendPath v path
  | appendQuery query => exact encoded_appendQuery v query
  | toString => exact encoded_canonicalize h
  | appendQueryPair name value => cases he
  | removeDotSegments => cases he
  | _ => rfl

theorem encoded_foldl (h : v.Unencoded) (es : List Edit) (hes : ∀ e ∈ es, e.transparent = true) :
    es.foldl (edit true) v.encoded = (es.foldl (edit false) v).encoded ∧
      (es.foldl (edit false) v).Unencoded := by
  induction es generalizing v with
  | nil => exact ⟨rfl, h⟩
  | cons e es ih =>
      have he := hes e List.mem_cons_self
      rw [List.foldl_cons, List.foldl_cons, encoded_edit h e he]
      exact ih (h.edit e he) fun e hmem => hes e (List.mem_cons_of_mem _ hmem)

/-- Building with encoding and decoding is building without encoding: no call mixes up what it is
given with the delimiters. -/
theorem edits_decode (es : List Edit) (hes : ∀ e ∈ es, e.transparent = true) :
    DecodesTo (edits true es) (edits false es) := by
  obtain ⟨hencoded, hunencoded⟩ := encoded_foldl (v := ⟨[], [], [], ascii "/", [], [], 0⟩)
    ⟨rfl, List.forall_mem_nil _⟩ es hes
  have hu : edits true es = (edits false es).encoded := hencoded
  rw [hu]
  exact ⟨rfl, UriCodec.encode_host hunencoded.host, rfl, decode_encode (by decide) _,
    decode_encode (by decide) _, decode_encode (by decide) _, decode_encode (by decide) _⟩

theorem edits_decode_someEdits : DecodesTo (edits true someEdits) (edits false someEdits) ∧
    (edits false someEdits).path = ascii "/a b/c" :=
  ⟨edits_decode someEdits (by decide +kernel), by decide +kernel⟩

end Uri

end Netpp
