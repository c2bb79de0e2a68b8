import Mathlib.Data.List.Induction
import Netpp.Library.Split
import Netpp.Uri.Encoding
import Netpp.Uri.Uri
import Std.Data.TreeMap.Lemmas

/-!
# Queries

A query is a list of pieces, each with a name and a value. `splitQuery` goes over the
rest of the query and cuts it at the next `&`, and only if there is none at the next `;`,
so that a `;` before the last `&` does not separate pieces. Queries that `appendQuery` has
made of pairs have no `;` and are split into the pairs again.
-/

namespace Netpp

open Text (ascii)

namespace Uri

open UriCodec

/-- `std::map<utf8string, utf8string>`. -/
abbrev QueryMap := Std.TreeMap (List UInt8) (List UInt8) compare

def appendQuery (u : Uri) (query : List UInt8) (shouldEncode : Bool := true) : Uri :=
  if query ≠ [] then
    let thisQuery :=
      if u.query = [] then []
      else if u.query.getLast? = some 38 ∧ query.head? = some 38 then u.query.dropLast
      else if u.query.getLast? ≠ some 38 ∧ query.head? ≠ some 38 then u.query ++ [38]
      else u.query
    { u with query := thisQuery ++ if shouldEncode then encode query .query else query }
  else u

/-- The characters that are encoded in a name or a value: those that delimit it too. -/
def encodeCondition (ch : UInt8) : Bool := (ascii "&;=%+").contains ch || !isQueryCharacter ch

def appendQueryEncodeImpl (u : Uri) (name value : List UInt8) (shouldEncode : Bool) : Uri :=
  if shouldEncode then
    u.appendQuery (encodeImpl name encodeCondition ++ [61] ++ encodeImpl value encodeCondition)
      false
  else u.appendQuery (name ++ [61] ++ value) false

/-- The overload of `appendQuery` for a name and a value that is a string. -/
def appendQueryPair (u : Uri) (name value : List UInt8) (shouldEncode : Bool := true) : Uri :=
  u.appendQueryEncodeImpl name value shouldEncode

/-- What a piece does to the results. -/
def storePair (results : QueryMap) (keyValuePair : List UInt8) : QueryMap :=
  match keyValuePair.idxOf? 61 with
  | none => results
  | some equalsIndex =>
      if equalsIndex = 0 then results.insert [] (keyValuePair.drop (equalsIndex + 1))
      else
        results.insert (keyValuePair.take equalsIndex) (keyValuePair.drop (equalsIndex + 1))

/-- The loop of `splitQuery`, on the query from `prev_amp_index` on. -/
def splitQueryLoop (query : List UInt8) (results : QueryMap) : QueryMap :=
  match _h : (query.idxOf? 38).or (query.idxOf? 59) with
  | none => storePair results query
  | some ampIndex =>
      splitQueryLoop (query.drop (ampIndex + 1)) (storePair results (query.take ampIndex))
termination_by query.length
decreasing_by
  have hlt : ampIndex < query.length := by
    rcases Option.or_eq_some_iff.mp _h with hsome | ⟨-, hsome⟩
    · exact (List.idxOf?_eq_some_iff.mp hsome).1
    · exact (List.idxOf?_eq_some_iff.mp hsome).1
  rw [List.length_drop]
  omega

def splitQuery (u : Uri) : QueryMap := splitQueryLoop u.query ∅

/-! ## Pieces -/

/-- The name in a piece. -/
def nameOf (piece : List UInt8) : List UInt8 := piece.takeWhile (· ≠ 61)

/-- The value in a piece that has a `=`. -/
def valueIn (piece : List UInt8) : List UInt8 := (piece.dropWhile (· ≠ 61)).tail

/-- The value that the pieces give to a name, the last one if there are several. -/
def valueOf : List (List UInt8) → List UInt8 → Option (List UInt8)
  | [], _ => none
  | piece :: pieces, name =>
      (valueOf pieces name).or
        (if 61 ∈ piece ∧ nameOf piece = name then some (valueIn piece) else none)

/-- The pieces that `splitQuery` finds: it cuts what follows the last `&` at each `;`. -/
def piecesOf (query : List UInt8) : List (List UInt8) :=
  (query.splitOn 38).dropLast ++ ((query.splitOn 38).getLastD []).splitOn 59

variable {query piece name value x r : List UInt8} {pieces : List (List UInt8)}

theorem piece_spec (hx : 61 ∉ x) : 61 ∈ x ++ 61 :: r ∧ nameOf (x ++ 61 :: r) = x ∧
    valueIn (x ++ 61 :: r) = r := by
  have hall : ∀ c ∈ x, decide (c ≠ 61) = true := fun c hc =>
    decide_eq_true fun heq => hx (heq ▸ hc)
  refine ⟨by simp, ?_, ?_⟩
  · rw [nameOf, List.takeWhile_append_of_pos hall]
    simp
  · rw [valueIn, List.dropWhile_append_of_pos hall]
    simp

theorem idxOf?_append {c : UInt8} (hx : c ∉ x) : (x ++ c :: r).idxOf? c = some x.length := by
  induction x with
  | nil => simp [List.idxOf?_cons]
  | cons d x ih =>
      rw [List.mem_cons, not_or] at hx
      rw [List.cons_append, List.idxOf?_cons, ih hx.2, if_neg (by simpa using Ne.symm hx.1)]
      rfl

theorem exists_of_idxOf? {c : UInt8} {i : Nat} (h : query.idxOf? c = some i) :
    ∃ x r, query = x ++ c :: r ∧ c ∉ x ∧ i = x.length := by
  have hmem : c ∈ query := by
    rw [← List.isSome_idxOf?, h]
    rfl
  obtain ⟨x, r, rfl, hx⟩ := List.eq_append_cons_of_mem hmem
  rw [idxOf?_append hx] at h
  exact ⟨x, r, rfl, hx, (Option.some_inj.mp h).symm⟩

theorem drop_piece (x r : List UInt8) (c : UInt8) : (x ++ c :: r).drop (x.length + 1) = r := by
  simp

/-- A piece gives its value to its name. -/
theorem getElem?_storePair (results : QueryMap) (piece name : List UInt8) :
    (storePair results piece)[name]? =
      (if 61 ∈ piece ∧ nameOf piece = name then some (valueIn piece) else none).or
        results[name]? := by
  unfold storePair
  by_cases hmem : 61 ∈ piece
  · obtain ⟨x, r, rfl, hx⟩ := List.eq_append_cons_of_mem hmem
    obtain ⟨-, hname, hvalue⟩ := piece_spec (r := r) hx
    -- the branch for an empty name does what the other one would do
    have hinsert : (if x.length = 0 then results.insert [] r
        else results.insert ((x ++ 61 :: r).take x.length) r) = results.insert x r := by
      rw [List.take_left]
      split
      next hzero => rw [List.length_eq_zero_iff.mp hzero]
      next => rfl
    simp only [idxOf?_append hx, drop_piece, hinsert, hname, hvalue, hmem, true_and]
    rw [Std.TreeMap.getElem?_insert]
    by_cases heq : x = name
    · simp [heq]
    · simp [heq]
  · rw [List.idxOf?_eq_none_iff.mpr hmem, if_neg fun h => hmem h.1]
    rfl

/-! ## The loop -/

theorem piecesOf_of_notMem (hquery : 38 ∉ query) : piecesOf query = query.splitOn 59 := by
  rw [piecesOf, List.splitOn_eq_singleton hquery]
  rfl

theorem piecesOf_append (hx : 38 ∉ x) : piecesOf (x ++ 38 :: r) = x :: piecesOf r := by
  rw [piecesOf, List.splitOn_append_cons_self_of_not_mem hx, List.getLastD_cons,
    List.dropLast_cons_of_ne_nil (List.splitOn_ne_nil 38 r), piecesOf, List.cons_append]
  obtain ⟨p, ps, hsplit⟩ := List.exists_cons_of_ne_nil (List.splitOn_ne_nil 38 r)
  rw [hsplit, List.getLastD_cons, List.getLastD_cons]

/-- The loop stores the pieces one after the other, by induction on the rest of the query. -/
theorem getElem?_splitQueryLoop (query : List UInt8) (results : QueryMap) (name : List UInt8) :
    (splitQueryLoop query results)[name]? =
      (valueOf (piecesOf query) name).or results[name]? := by
  fun_induction splitQueryLoop query results with
  | case1 query results hnone =>
      obtain ⟨hamp, hsemi⟩ := Option.or_eq_none_iff.mp hnone
      rw [List.idxOf?_eq_none_iff] at hamp hsemi
      rw [getElem?_storePair, piecesOf_of_notMem hamp, List.splitOn_eq_singleton hsemi, valueOf,
        valueOf, Option.none_or]
  | case2 query results ampIndex hsome ih =>
      have hpieces : piecesOf query =
          query.take ampIndex :: piecesOf (query.drop (ampIndex + 1)) := by
        rcases Option.or_eq_some_iff.mp hsome with hamp | ⟨hnone, hsemi⟩
        · obtain ⟨x, r, rfl, hx, rfl⟩ := exists_of_idxOf? hamp
          rw [piecesOf_append hx, List.take_left, drop_piece]
        · rw [List.idxOf?_eq_none_iff] at hnone
          obtain ⟨x, r, rfl, hx, rfl⟩ := exists_of_idxOf? hsemi
          have hr : 38 ∉ r := fun hmem =>
            hnone (List.mem_append_right x (List.mem_cons_of_mem 59 hmem))
          rw [piecesOf_of_notMem hnone, List.splitOn_append_cons_self_of_not_mem hx, List.take_left,
            drop_piece, piecesOf_of_notMem hr]
      rw [ih, getElem?_storePair, hpieces, valueOf, Option.or_assoc]

/-- The results of `splitQuery` are the values of its pieces. -/
theorem getElem?_splitQuery (u : Uri) (name : List UInt8) :
    u.splitQuery[name]? = valueOf (piecesOf u.query) name := by
  rw [splitQuery, getElem?_splitQueryLoop, Std.TreeMap.getElem?_emptyc, Option.or_none]

/-! ## Both separators -/

/-- The query, cut at every `&` and at every `;`. -/
def separated (query : List UInt8) : List (List UInt8) :=
  query.splitOnP fun c => c == 38 || c == 59

/-- Both separators separate pieces everywhere. -/
def SplitsEverywhere (u : Uri) : Prop :=
  ∀ name, u.splitQuery[name]? = valueOf (separated u.query) name

/-- A name in a piece with a `;` is given again by a later piece without one. -/
def NamedAgain (pieces : List (List UInt8)) : Prop :=
  ∀ pre piece post, pieces = pre ++ piece :: post → 59 ∈ piece → 61 ∈ piece →
    ∃ later ∈ post, 59 ∉ later ∧ 61 ∈ later ∧ nameOf later = nameOf piece

theorem eq_of_mem (h : 61 ∈ piece) : piece = nameOf piece ++ 61 :: valueIn piece := by
  obtain ⟨x, r, rfl, hx⟩ := List.eq_append_cons_of_mem h
  obtain ⟨-, hname, hvalue⟩ := piece_spec (r := r) hx
  rw [hname, hvalue]

/-- The value of a name comes from a piece. -/
theorem exists_of_valueOf (h : valueOf pieces name = some value) :
    ∃ piece ∈ pieces, 61 ∈ piece ∧ nameOf piece = name ∧ valueIn piece = value := by
  induction pieces with
  | nil => cases h
  | cons piece pieces ih =>
      rcases Option.or_eq_some_iff.mp h with hlater | ⟨-, hhere⟩
      · obtain ⟨later, hmem, hlater⟩ := ih hlater
        exact ⟨later, List.mem_cons_of_mem piece hmem, hlater⟩
      · split at hhere
        next hpiece =>
          exact ⟨piece, List.mem_cons_self .., hpiece.1, hpiece.2, by simpa using hhere⟩
        next => cases hhere

theorem valueOf_ne_none (hmem : piece ∈ pieces) (hpiece : 61 ∈ piece) :
    valueOf pieces (nameOf piece) ≠ none := by
  induction pieces with
  | nil => cases hmem
  | cons p pieces ih =>
      rw [valueOf, ne_eq, Option.or_eq_none_iff, not_and_or]
      rcases List.mem_cons.mp hmem with rfl | hmem
      · exact .inr (by rw [if_pos ⟨hpiece, rfl⟩]; exact Option.some_ne_none _)
      · exact .inl (ih hmem)

theorem valueOf_append (pre post : List (List UInt8)) (name : List UInt8) :
    valueOf (pre ++ post) name = (valueOf post name).or (valueOf pre name) := by
  induction pre with
  | nil => exact (Option.or_none).symm
  | cons piece pre ih => rw [List.cons_append, valueOf, ih, valueOf, Option.or_assoc]

theorem NamedAgain.tail (h : NamedAgain (piece :: pieces)) : NamedAgain pieces := by
  rintro pre x post rfl
  exact h (piece :: pre) x post rfl

/-- What a part of a piece with a `;` gives to a name that no later part gives a value is
what the pieces before it say without the ones with a `;`. -/
def NothingMissed (pieces : List (List UInt8)) : Prop :=
  ∀ pre piece post before part after, pieces = pre ++ piece :: post → 59 ∈ piece →
    piece.splitOn 59 = before ++ part :: after → 61 ∈ part →
    (∃ later ∈ after ++ post.flatMap (·.splitOn 59), 61 ∈ later ∧ nameOf later = nameOf part) ∨
      valueOf (pre.filter (59 ∉ ·)) (nameOf part) = some (valueIn part)

/-- If the names are given again, the pieces with a `;` have no effect. -/
theorem NamedAgain.valueOf_filter (h : NamedAgain pieces) (name : List UInt8) :
    valueOf (pieces.filter (59 ∉ ·)) name = valueOf pieces name := by
  induction pieces with
  | nil => rfl
  | cons piece pieces ih =>
      by_cases hsemi : 59 ∈ piece
      · rw [List.filter_cons_of_neg (by simpa using hsemi), ih h.tail, valueOf]
        split
        next hpiece =>
          obtain ⟨hequals, rfl⟩ := hpiece
          obtain ⟨later, hmem, -, hlater, hname⟩ := h [] piece pieces rfl hsemi hequals
          obtain ⟨value, hvalue⟩ := Option.ne_none_iff_exists'.mp (valueOf_ne_none hmem hlater)
          rw [← hname, hvalue, Option.some_or]
        next => rw [Option.or_none]
      · rw [List.filter_cons_of_pos (by simpa using hsemi), valueOf, valueOf, ih h.tail]

/-- Results without a `;` come from pieces without one. -/
theorem namedAgain_of_forall
    (h : ∀ name value, valueOf pieces name = some value → 59 ∉ name ∧ 59 ∉ value) :
    NamedAgain pieces := by
  rintro pre piece post rfl hsemi hequals
  obtain ⟨value, hvalue⟩ := Option.ne_none_iff_exists'.mp
    (valueOf_ne_none (List.mem_cons_self (l := post)) hequals)
  obtain ⟨last, hmem, hlast, hname, hlast'⟩ := exists_of_valueOf hvalue
  have hfinal : valueOf (pre ++ piece :: post) (nameOf last) = some (valueIn last) := by
    rw [valueOf_append, hname, hvalue, Option.some_or, hlast']
  have hclean : 59 ∉ last := by
    obtain ⟨hname', hvalue'⟩ := h _ _ hfinal
    rw [eq_of_mem hlast, List.mem_append, List.mem_cons, not_or, not_or]
    exact ⟨hname', by decide, hvalue'⟩
  rcases List.mem_cons.mp hmem with rfl | hmem
  · exact absurd hsemi hclean
  · exact ⟨last, hmem, hclean, hlast, hname⟩

/-! ### Parts of pieces -/

theorem valueOf_eq_none_iff : valueOf pieces name = none ↔
    ∀ piece ∈ pieces, 61 ∈ piece → nameOf piece ≠ name := by
  constructor
  · rintro hnone piece hmem hpiece rfl
    exact valueOf_ne_none hmem hpiece hnone
  · intro h
    cases hvalue : valueOf pieces name with
    | none => rfl
    | some value =>
        obtain ⟨piece, hmem, hpiece, hname, -⟩ := exists_of_valueOf hvalue
        exact absurd hname (h piece hmem hpiece)

/-- The value of a name comes from the last piece with this name. -/
theorem exists_last_of_valueOf (h : valueOf pieces name = some value) :
    ∃ pre piece post, pieces = pre ++ piece :: post ∧ 61 ∈ piece ∧ nameOf piece = name ∧
      valueIn piece = value ∧ valueOf post name = none := by
  induction pieces with
  | nil => cases h
  | cons piece pieces ih =>
      rcases Option.or_eq_some_iff.mp h with hlater | ⟨hnone, hhere⟩
      · obtain ⟨pre, last, post, rfl, hlast⟩ := ih hlater
        exact ⟨piece :: pre, last, post, rfl, hlast⟩
      · split at hhere
        next hpiece =>
          exact ⟨[], piece, pieces, rfl, hpiece.1, hpiece.2, Option.some_inj.mp hhere, hnone⟩
        next => cases hhere

theorem exists_part_of_valueOf {f : List UInt8 → List (List UInt8)}
    (h : valueOf (pieces.flatMap f) name = some value) :
    ∃ pre piece post before part after, pieces = pre ++ piece :: post ∧
      f piece = before ++ part :: after ∧ 61 ∈ part ∧ nameOf part = name ∧
      valueIn part = value ∧ valueOf (after ++ post.flatMap f) name = none := by
  induction pieces with
  | nil => cases h
  | cons p pieces ih =>
      rw [List.flatMap_cons, valueOf_append] at h
      rcases Option.or_eq_some_iff.mp h with hlater | ⟨hnone, hhere⟩
      · obtain ⟨pre, piece, post, before, part, after, rfl, hlast⟩ := ih hlater
        exact ⟨p :: pre, piece, post, before, part, after, rfl, hlast⟩
      · obtain ⟨before, part, after, hp, hpart, hname, hvalue, hafter⟩ :=
          exists_last_of_valueOf hhere
        refine ⟨[], p, pieces, before, part, after, rfl, hp, hpart, hname, hvalue, ?_⟩
        rw [valueOf_append, hnone, hafter]
        rfl

/-- A piece without a `;` is its only part. -/
theorem mem_flatMap_of_mem_filter (h : piece ∈ pieces.filter (59 ∉ ·)) :
    piece ∈ pieces.flatMap (·.splitOn 59) := by
  obtain ⟨hmem, hsemi⟩ := List.mem_filter.mp h
  refine List.mem_flatMap.mpr ⟨piece, hmem, ?_⟩
  rw [List.splitOn_eq_singleton (by simpa using hsemi)]
  exact List.mem_singleton_self piece

theorem valueOf_filter_eq_none (h : valueOf (pieces.flatMap (·.splitOn 59)) name = none) :
    valueOf (pieces.filter (59 ∉ ·)) name = none :=
  valueOf_eq_none_iff.mpr fun piece hmem =>
    valueOf_eq_none_iff.mp h piece (mem_flatMap_of_mem_filter hmem)

/-- The parts give the same values as the pieces without a `;` exactly if the parts of the
other ones give nothing new. -/
theorem nothingMissed_iff : NothingMissed pieces ↔ ∀ name,
    valueOf (pieces.filter (59 ∉ ·)) name = valueOf (pieces.flatMap (·.splitOn 59)) name := by
  constructor
  · intro h name
    cases hvalue : valueOf (pieces.flatMap (·.splitOn 59)) name with
    | none => exact valueOf_filter_eq_none hvalue
    | some value =>
        obtain ⟨pre, piece, post, before, part, after, rfl, hpiece, hpart, rfl, rfl, hlater⟩ :=
          exists_part_of_valueOf hvalue
        have hpost : valueOf (post.filter (59 ∉ ·)) (nameOf part) = none := by
          rw [valueOf_append, Option.or_eq_none_iff] at hlater
          exact valueOf_filter_eq_none hlater.1
        by_cases hsemi : 59 ∈ piece
        · rcases h pre piece post before part after rfl hsemi hpiece hpart with hagain | hsaid
          · obtain ⟨later, hmem, hequals, hname⟩ := hagain
            exact absurd hname (valueOf_eq_none_iff.mp hlater later hmem hequals)
          · rw [List.filter_append, List.filter_cons_of_neg (by simpa using hsemi),
              valueOf_append, hpost, hsaid]
            rfl
        · -- the piece is its only part, and the last piece with the name
          rw [List.splitOn_eq_singleton hsemi] at hpiece
          obtain ⟨rfl, rfl, rfl⟩ : before = [] ∧ piece = part ∧ after = [] := by
            cases before with
            | nil => exact ⟨rfl, List.cons.inj hpiece.symm |>.imp Eq.symm id⟩
            | cons p before => simp at hpiece
          rw [List.filter_append, List.filter_cons_of_pos (by simpa using hsemi),
            valueOf_append, valueOf, hpost, if_pos ⟨hpart, rfl⟩]
          rfl
  · rintro h pre piece post before part after rfl hsemi hpiece hpart
    by_cases hagain : ∃ later ∈ after ++ post.flatMap (·.splitOn 59),
        61 ∈ later ∧ nameOf later = nameOf part
    · exact .inl hagain
    · refine .inr ?_
      have hnone : valueOf (after ++ post.flatMap (·.splitOn 59)) (nameOf part) = none :=
        valueOf_eq_none_iff.mpr fun later hmem hlater hname =>
          hagain ⟨later, hmem, hlater, hname⟩
      have hpost : valueOf (post.filter (59 ∉ ·)) (nameOf part) = none := by
        rw [valueOf_append, Option.or_eq_none_iff] at hnone
        exact valueOf_filter_eq_none hnone.1
      have hsame := h (nameOf part)
      rw [List.filter_append, List.filter_cons_of_neg (by simpa using hsemi), valueOf_append,
        hpost, Option.none_or, List.flatMap_append, List.flatMap_cons, hpiece, List.append_assoc,
        valueOf_append, List.cons_append, valueOf_append, valueOf, hnone,
        if_pos ⟨hpart, rfl⟩] at hsame
      exact hsame

/-! ### The query -/

theorem separated_eq (query : List UInt8) :
    separated query = (piecesOf query).flatMap (·.splitOn 59) := by
  obtain ⟨pieces, last, hsplit⟩ : ∃ pieces last, query.splitOn 38 = pieces ++ [last] :=
    ⟨_, _, (List.dropLast_append_getLast (List.splitOn_ne_nil 38 query)).symm⟩
  -- the last piece is cut already
  have hparts : (last.splitOn 59).flatMap (·.splitOn 59) = last.splitOn 59 := by
    have hself : ∀ part ∈ last.splitOn 59, part.splitOn 59 = [part] := fun part hpart =>
      List.splitOn_eq_singleton (Split.notMem_of_mem_splitOn hpart)
    rw [List.flatMap_congr hself, List.flatMap_singleton']
  have hlast : (query.splitOn 38).getLastD [] = last := by
    rw [hsplit, List.getLastD_concat]
  rw [separated, Split.splitOnP_or, ← List.splitOn_eq_splitOnP, piecesOf, hlast, hsplit,
    List.dropLast_concat, List.flatMap_append, List.flatMap_append, hparts,
    List.flatMap_singleton]
  rfl

theorem notMem_separated (hmem : piece ∈ separated query) : 59 ∉ piece := by
  intro hsemi
  exact absurd (Split.mem_of_mem_splitOnP hmem hsemi).2 (by decide)

/-- `splitQuery` cuts the query at both separators exactly if the pieces in which it misses
a `;` make no difference: their names are given again later, and so are the names in their
parts, or they have the values that the parts give them. -/
theorem splitsEverywhere_iff (u : Uri) : SplitsEverywhere u ↔
    NamedAgain (piecesOf u.query) ∧ NothingMissed (piecesOf u.query) := by
  rw [nothingMissed_iff, ← separated_eq]
  constructor
  · intro h
    have hnamed : NamedAgain (piecesOf u.query) := by
      refine namedAgain_of_forall fun name value hvalue => ?_
      rw [← getElem?_splitQuery, h name] at hvalue
      obtain ⟨piece, hmem, hpiece, rfl, rfl⟩ := exists_of_valueOf hvalue
      have hclean := notMem_separated hmem
      rw [eq_of_mem hpiece, List.mem_append, List.mem_cons, not_or, not_or] at hclean
      exact ⟨hclean.1, hclean.2.2⟩
    refine ⟨hnamed, fun name => ?_⟩
    rw [hnamed.valueOf_filter, ← getElem?_splitQuery, h name]
  · rintro ⟨hnamed, hsame⟩ name
    rw [getElem?_splitQuery, ← hnamed.valueOf_filter, hsame]

/-- In `a=1;b=2&c=3` the first `;` is missed. -/
theorem splitsEverywhere_fails :
    ¬SplitsEverywhere ⟨[], [], [], [], ascii "a=1;b=2&c=3", [], 0⟩ := by
  intro h
  have hb := h (ascii "b")
  rw [getElem?_splitQuery] at hb
  exact absurd hb (by decide)

/-! ## Pairs -/

/-- `appendQuery` is called for each of the pairs. -/
def appendPairs (u : Uri) (pairs : List (List UInt8 × List UInt8)) : Uri :=
  pairs.foldl (fun u pair => u.appendQueryPair pair.1 pair.2) u

/-- The last value that the pairs give to a name. -/
def lastValue : List (List UInt8 × List UInt8) → List UInt8 → Option (List UInt8)
  | [], _ => none
  | pair :: pairs, name =>
      (lastValue pairs name).or (if pair.1 = name then some pair.2 else none)

/-- The decoded results are the pairs, each name with its last value. -/
structure RoundTrips (pairs : List (List UInt8 × List UInt8)) (results : QueryMap) : Prop where
  pair : ∀ name value, lastValue pairs name = some value →
    ∃ key text, results[key]? = some text ∧ decode key = .ok name ∧ decode text = .ok value
  entry : ∀ key text, results[key]? = some text →
    ∃ name value, decode key = .ok name ∧ decode text = .ok value ∧
      lastValue pairs name = some value
  inj : ∀ key key', key ∈ results → key' ∈ results → decode key = decode key' → key = key'

/-- A name or a value as it stands in a query. -/
def encodePart (raw : List UInt8) : List UInt8 := encodeImpl raw encodeCondition

/-- A pair as it stands in a query. -/
def encodePair (pair : List UInt8 × List UInt8) : List UInt8 :=
  encodePart pair.1 ++ 61 :: encodePart pair.2

variable {raw raw' : List UInt8} {pairs : List (List UInt8 × List UInt8)}

theorem decode_encodePart (raw : List UInt8) : decode (encodePart raw) = .ok raw :=
  decode_encodeImpl (by decide) raw

theorem encodePart_inj (h : encodePart raw = encodePart raw') : raw = raw' := by
  have hdecode := decode_encodePart raw
  rw [h, decode_encodePart] at hdecode
  exact (Except.ok.inj hdecode).symm

/-- No character that delimits a name or a value is left in it. -/
theorem notMem_encodePart (raw : List UInt8) {c : UInt8} (hc : (ascii "&;=").contains c = true) :
    c ∉ encodePart raw := by
  have halnum (d : UInt8) (hd : isalnum d = true) : encodeCondition d = false := by
    have hno : (ascii "&;=%+").contains d = false := by
      rw [Bool.eq_false_iff, ne_eq, List.contains_iff_mem]
      exact InnerParseOut.notMem_of_legal (by decide) hd
    rw [encodeCondition, hno, isQueryCharacter_of_isPathCharacter
      (isPathCharacter_of_isUnreserved (isUnreserved_of_isalnum hd))]
    rfl
  have hplain : ∀ d ∈ encodePart raw, (d == 37 || !encodeCondition d) = true := by
    refine forall_mem_encodeImpl (by decide) ?_ ?_
    · intro d hd
      rw [halnum d hd]
      exact Bool.or_true _
    · intro d _ hd
      rw [hd]
      exact Bool.or_true _
  intro hmem
  rcases (Bool.or_eq_true ..).mp (hplain c hmem) with hpercent | hkept
  · rw [beq_iff_eq.mp hpercent] at hc
    exact absurd hc (by decide)
  · rw [encodeCondition, contains_mono (by decide) hc] at hkept
    cases hkept

theorem notMem_encodePair (pair : List UInt8 × List UInt8) {c : UInt8}
    (hc : (ascii "&;").contains c = true) : c ∉ encodePair pair := by
  have hpart : (ascii "&;=").contains c = true := contains_mono (by decide) hc
  rw [encodePair, List.mem_append, List.mem_cons, not_or, not_or]
  refine ⟨notMem_encodePart pair.1 hpart, ?_, notMem_encodePart pair.2 hpart⟩
  rintro rfl
  exact absurd hc (by decide)

theorem encodePair_ne_nil (pair : List UInt8 × List UInt8) : encodePair pair ≠ [] :=
  List.append_ne_nil_of_right_ne_nil _ (List.cons_ne_nil 61 _)

/-- What the query is after the calls: the pairs with a `&` between them. -/
def Holds (query : List UInt8) (pairs : List (List UInt8 × List UInt8)) : Prop :=
  (query = [] ∧ pairs = []) ∨
    (query ≠ [] ∧ pairs ≠ [] ∧ query.splitOn 38 = pairs.map encodePair)

/-- A query of pairs does not end with a separator. -/
theorem Holds.getLast?_ne (h : Holds query pairs) : query.getLast? ≠ some 38 := by
  rcases h with ⟨rfl, -⟩ | ⟨-, -, hsplit⟩
  · exact nofun
  · intro hlast
    obtain ⟨pre, rfl⟩ := List.getLast?_eq_some_iff.mp hlast
    have hmem : [] ∈ pairs.map encodePair := by
      rw [← hsplit, List.splitOn_append_cons_self, List.splitOn_nil]
      exact List.mem_append_right _ (List.mem_singleton_self [])
    obtain ⟨pair, -, hnil⟩ := List.mem_map.mp hmem
    exact encodePair_ne_nil pair hnil

theorem appendQueryPair_query (u : Uri) (pair : List UInt8 × List UInt8) :
    (u.appendQueryPair pair.1 pair.2).query = (u.appendQuery (encodePair pair) false).query := by
  rw [appendQueryPair, appendQueryEncodeImpl, if_pos rfl, encodePair, List.append_assoc]
  rfl

/-- One call adds one pair. -/
theorem Holds.appendQueryPair {u : Uri} (h : Holds u.query pairs)
    (pair : List UInt8 × List UInt8) :
    Holds (u.appendQueryPair pair.1 pair.2).query (pairs ++ [pair]) := by
  have hpair : (encodePair pair).splitOn 38 = [encodePair pair] :=
    List.splitOn_eq_singleton (notMem_encodePair pair (by decide))
  have hhead : (encodePair pair).head? ≠ some 38 := fun hhead =>
    notMem_encodePair pair (by decide) (List.mem_of_mem_head? hhead)
  rw [appendQueryPair_query, appendQuery, if_pos (encodePair_ne_nil pair)]
  have hlast := h.getLast?_ne
  rcases h with ⟨hquery, rfl⟩ | ⟨hquery, hpairs, hsplit⟩
  · refine .inr ⟨?_, by simp, ?_⟩
    · rw [if_pos hquery]
      exact encodePair_ne_nil pair
    · rw [if_pos hquery]
      exact hpair
  · rw [if_neg hquery, if_neg fun hboth => hhead hboth.2, if_pos ⟨hlast, hhead⟩]
    refine .inr ⟨by simp, by simp, ?_⟩
    change (u.query ++ [38] ++ encodePair pair).splitOn 38 = _
    rw [List.append_assoc, List.singleton_append, List.splitOn_append_cons_self, hsplit, hpair,
      List.map_append]
    rfl

theorem holds_appendPairs (u : Uri) (pairs : List (List UInt8 × List UInt8)) :
    Holds ((u.setQuery []).appendPairs pairs).query pairs := by
  induction pairs using List.reverseRecOn with
  | nil => exact .inl ⟨rfl, rfl⟩
  | append_singleton pairs pair ih =>
      rw [appendPairs, List.foldl_append]
      exact ih.appendQueryPair pair

/-- The pieces of the query are the pairs. -/
theorem Holds.valueOf_eq (h : Holds query pairs) (name : List UInt8) :
    valueOf (piecesOf query) name = valueOf (pairs.map encodePair) name := by
  rcases h with ⟨rfl, rfl⟩ | ⟨-, hpairs, hsplit⟩
  · rfl
  · obtain ⟨pairs, pair, rfl⟩ := (List.eq_nil_or_concat' pairs).resolve_left hpairs
    rw [piecesOf, hsplit, List.map_append, List.map_singleton, List.dropLast_concat,
      List.getLastD_concat, List.splitOn_eq_singleton (notMem_encodePair pair (by decide))]

theorem encodePair_spec (pair : List UInt8 × List UInt8) : 61 ∈ encodePair pair ∧
    nameOf (encodePair pair) = encodePart pair.1 ∧
      valueIn (encodePair pair) = encodePart pair.2 :=
  piece_spec (notMem_encodePart pair.1 (by decide))

theorem valueOf_encodePart (pairs : List (List UInt8 × List UInt8)) (name : List UInt8) :
    valueOf (pairs.map encodePair) (encodePart name) = (lastValue pairs name).map encodePart := by
  induction pairs with
  | nil => rfl
  | cons pair pairs ih =>
      obtain ⟨hequals, hname, hvalue⟩ := encodePair_spec pair
      rw [List.map_cons, valueOf, ih, hname, hvalue, lastValue, Option.map_or]
      by_cases heq : pair.1 = name
      · rw [if_pos ⟨hequals, congrArg encodePart heq⟩, if_pos heq]
        rfl
      · rw [if_neg fun h => heq (encodePart_inj h.2), if_neg heq]
        rfl

/-- Splitting the query gives back the pairs that it was made of. -/
theorem splitQuery_appendPairs (u : Uri) (pairs : List (List UInt8 × List UInt8)) :
    RoundTrips pairs ((u.setQuery []).appendPairs pairs).splitQuery := by
  have hresults (name : List UInt8) :
      ((u.setQuery []).appendPairs pairs).splitQuery[name]? =
        valueOf (pairs.map encodePair) name := by
    rw [getElem?_splitQuery, (holds_appendPairs u pairs).valueOf_eq]
  -- every name in the results is an encoded one
  have hkey {key text : List UInt8}
      (h : ((u.setQuery []).appendPairs pairs).splitQuery[key]? = some text) :
      ∃ name, key = encodePart name := by
    rw [hresults] at h
    obtain ⟨piece, hmem, -, rfl, -⟩ := exists_of_valueOf h
    obtain ⟨pair, -, rfl⟩ := List.mem_map.mp hmem
    exact ⟨pair.1, (encodePair_spec pair).2.1⟩
  refine ⟨?_, ?_, ?_⟩
  · intro name value hvalue
    refine ⟨encodePart name, encodePart value, ?_, decode_encodePart name,
      decode_encodePart value⟩
    rw [hresults, valueOf_encodePart, hvalue]
    rfl
  · intro key text htext
    obtain ⟨name, rfl⟩ := hkey htext
    rw [hresults, valueOf_encodePart] at htext
    obtain ⟨value, hvalue, rfl⟩ := Option.map_eq_some_iff.mp htext
    exact ⟨name, value, decode_encodePart name, decode_encodePart value, hvalue⟩
  · intro key key' hmem hmem' heq
    rw [Std.TreeMap.mem_iff_isSome_getElem?, Option.isSome_iff_exists] at hmem hmem'
    obtain ⟨text, htext⟩ := hmem
    obtain ⟨text', htext'⟩ := hmem'
    obtain ⟨name, rfl⟩ := hkey htext
    obtain ⟨name', rfl⟩ := hkey htext'
    rw [decode_encodePart, decode_encodePart] at heq
    rw [Except.ok.inj heq]

end Uri

end Netpp
