import Netpp.Library.DotSegments
import Netpp.Uri.Encoding
import Netpp.Uri.Uri

/-!
# Paths

`splitPath` has no empty segments: `removeDotSegments`, which splits the path and puts it
together again, loses them.
-/

namespace Netpp

open Text (ascii)

namespace Uri

open UriCodec DotSegments

/-- `std::getline`: the characters before the delimiter, and the rest of the stream. It
fails at the end of the stream. -/
def getline (delim : UInt8) (stream : List UInt8) : Option (List UInt8 × List UInt8) :=
  if stream = [] then none
  else some (stream.takeWhile (· ≠ delim), (stream.dropWhile (· ≠ delim)).tail)

theorem getline_length {delim : UInt8} {stream s rest : List UInt8}
    (h : getline delim stream = some (s, rest)) : rest.length < stream.length := by
  unfold getline at h
  split at h
  next => cases h
  next hne =>
    cases h
    have hpos := List.length_pos_iff.mpr hne
    have hle := (List.dropWhile_sublist (fun c => decide (c ≠ delim)) (l := stream)).length_le
    rw [List.length_tail]
    omega

/-- The loop of `splitPath`. -/
def splitLoop (iss : List UInt8) : List (List UInt8) :=
  match _h : getline 47 iss with
  | none => []
  | some (s, iss') => if s ≠ [] then s :: splitLoop iss' else splitLoop iss'
termination_by iss.length
decreasing_by all_goals exact getline_length _h

def splitPath (u : Uri) : List (List UInt8) := splitLoop u.path

def appendPath (u : Uri) (path : List UInt8) (shouldEncode : Bool := true) : Uri :=
  if path ≠ [] ∧ path ≠ ascii "/" then
    let thisPath :=
      if u.path = [] ∨ u.path = ascii "/" then if path.head? ≠ some 47 then [47] else []
      else if u.path.getLast? = some 47 ∧ path.head? = some 47 then u.path.dropLast
      else if u.path.getLast? ≠ some 47 ∧ path.head? ≠ some 47 then u.path ++ [47]
      else u.path
    { u with path := thisPath ++ if shouldEncode then encode path .path else path }
  else u

def mergePaths (base relative : List UInt8) : List UInt8 :=
  if 47 ∉ base then base ++ [47] ++ relative
  else if base.getLast? = some 47 then base ++ relative
  -- path contains and does not end with '/', we remove segment after last '/'
  else base.rdropWhile (· ≠ 47) ++ relative

/-- The loop of `removeDotSegments` over the segments. -/
def removeLoop (result : List (List UInt8)) (segment : List UInt8) : List (List UInt8) :=
  if segment = ascii "." then result
  else if segment ≠ ascii ".." then result ++ [segment]
  else result.dropLast

def removeDotSegments (uri : Uri) : Uri :=
  if 46 ∉ uri.path then uri
  else
    let segments := uri.splitPath
    match segments.foldl removeLoop [] with
    | [] => uri.setPath []
    | front :: result =>
        let path := front ++ result.flatMap fun segment => 47 :: segment
        let path :=
          if segments.getLast? = some (ascii "..") ∨ segments.getLast? = some (ascii ".") ∨
              uri.path.getLast? = some 47 then path ++ [47]
          else path
        uri.setPath path

variable {u : Uri} {segments : List (List UInt8)} {s : List UInt8}

/-! ## Splitting -/

theorem getline_segment (hs : 47 ∉ s) (t : List UInt8) :
    getline 47 (s ++ 47 :: t) = some (s, t) := by
  obtain ⟨htake, hdrop⟩ := takeWhile_segment hs (.inr ⟨t, rfl⟩)
  rw [getline, if_neg (by simp), htake, hdrop]
  rfl

theorem getline_last (hs : 47 ∉ s) (hnil : s ≠ []) : getline 47 s = some (s, []) := by
  obtain ⟨htake, hdrop⟩ := takeWhile_segment hs (.inl rfl)
  rw [List.append_nil] at htake hdrop
  rw [getline, if_neg hnil, htake, hdrop]
  rfl

/-- The loop leaves out the empty segments. -/
theorem splitLoop_append_join (hs : 47 ∉ s) (hslash : ∀ t ∈ segments, 47 ∉ t) :
    splitLoop (s ++ join 47 segments) = (s :: segments).filter (· ≠ []) := by
  have hfilter (s : List UInt8) (rest : List (List UInt8)) : (s :: rest).filter (· ≠ []) =
      if s ≠ [] then s :: rest.filter (· ≠ []) else rest.filter (· ≠ []) := by
    by_cases hnil : s = []
    · simp [hnil]
    · simp [hnil]
  induction segments generalizing s with
  | nil =>
      rw [join_nil, List.append_nil, hfilter, splitLoop.eq_def]
      by_cases hnil : s = []
      · subst hnil
        rfl
      · split
        next hnone => simp [getline, hnil] at hnone
        next s' iss' hsome =>
          rw [getline_last hs hnil] at hsome
          cases hsome
          rw [splitLoop.eq_def]
          rfl
  | cons t segments ih =>
      obtain ⟨ht, hslash⟩ := List.forall_mem_cons.mp hslash
      rw [join_cons, splitLoop.eq_def]
      split
      next hnone => simp [getline] at hnone
      next s' iss' hsome =>
        rw [getline_segment hs] at hsome
        cases hsome
        rw [ih ht hslash, hfilter s]

/-- What lies between the slashes of an absolute path. -/
def segmentsOf (path : List UInt8) : List (List UInt8) := (path.splitOn 47).tail

theorem segmentsOf_join (hslash : ∀ s ∈ segments, 47 ∉ s) :
    segmentsOf (join 47 segments) = segments := by
  rw [segmentsOf, splitOn_join hslash, List.tail_cons]

/-- An absolute path is its segments with slashes. -/
theorem exists_segments (xs : List UInt8) : ∃ segments : List (List UInt8), segments ≠ [] ∧
    (∀ s ∈ segments, 47 ∉ s) ∧ 47 :: xs = join 47 segments := by
  obtain ⟨s, segments, hcons, hxs⟩ := splitOn_eq_cons 47 xs
  refine ⟨xs.splitOn 47, List.splitOn_ne_nil 47 xs, fun s => Split.notMem_of_mem_splitOn, ?_⟩
  rw [hcons, join_cons, ← hxs]

theorem splitPath_join (hpath : u.path = join 47 segments) (hslash : ∀ s ∈ segments, 47 ∉ s) :
    u.splitPath = segments.filter (· ≠ []) := by
  have hloop := splitLoop_append_join (s := []) List.not_mem_nil hslash
  rw [List.nil_append, List.filter_cons_of_neg (by simp)] at hloop
  rw [splitPath, hpath, hloop]

/-! ## Removing dot segments -/

/-- The loop is the walk over the segments. -/
theorem foldl_removeLoop (segments above : List (List UInt8)) :
    segments.foldl removeLoop above.reverse = (segments.foldl (visit 46) above).reverse := by
  induction segments generalizing above with
  | nil => rfl
  | cons s segments ih =>
      have hvisit : removeLoop above.reverse s = (visit 46 above s).reverse := by
        have hdot : ascii "." = [46] := by decide
        have hdotDot : ascii ".." = [46, 46] := by decide
        rw [removeLoop, visit, hdot, hdotDot, ite_not]
        split
        next => rfl
        next =>
          split
          next => exact List.dropLast_reverse
          next => exact List.reverse_cons.symm
      rw [List.foldl_cons, List.foldl_cons, hvisit, ih]

/-! ## Encoded paths -/

theorem encode_append (xs ys : List UInt8) (component : UriComponent) :
    encode (xs ++ ys) component = encode xs component ++ encode ys component :=
  List.flatMap_append

theorem encode_join (segments : List (List UInt8)) :
    encode (join 47 segments) .path = join 47 (segments.map fun s => encode s .path) := by
  induction segments with
  | nil => rfl
  | cons s segments ih =>
      rw [join_cons, List.map_cons, join_cons, ← ih, ← encode_append]
      rfl

/-- A path that is set without its first slash is set with it. -/
theorem setPath_join {front : List UInt8} {rest : List (List UInt8)} (hfront : front ≠ [])
    (hslash : 47 ∉ front) : (u.setPath (front ++ join 47 rest)).path =
      join 47 ((front :: rest).map fun s => encode s .path) := by
  have hhead : ¬(front ++ join 47 rest).head? = some 47 := by
    obtain ⟨c, front, rfl⟩ := List.exists_cons_of_ne_nil hfront
    intro heq
    injection heq with heq
    exact hslash (heq ▸ List.mem_cons_self ..)
  change (if (front ++ join 47 rest).head? = some 47 then [] else ascii "/") ++
    encode (front ++ join 47 rest) .path = _
  rw [if_neg hhead, ← encode_join, join_cons]
  rfl

theorem kept_concat_of_not_isDots (init : List (List UInt8)) (hdots : ¬IsDots 46 s) :
    kept 46 (init ++ [s]) = kept 46 init ++ [s] := by
  have hvisit (above : List (List UInt8)) : visit 46 above s = s :: above := by
    rw [visit, if_neg fun h => hdots (.inl h), if_neg fun h => hdots (.inr h)]
  rw [kept, List.foldl_append, List.foldl_cons, List.foldl_nil, hvisit, List.reverse_cons]
  rfl

/-- The segments that `removeDotSegments` leaves, with an empty one for a final slash. -/
def leftSegments (segments : List (List UInt8)) : List (List UInt8) :=
  kept 46 ((closed 46 segments).1.filter (· ≠ [])) ++ [(closed 46 segments).2]

variable {init : List (List UInt8)} {last : List UInt8}

theorem closed_concat_of_isDots (hdots : IsDots 46 last) :
    closed 46 (init ++ [last]) = (init ++ [last], []) := by
  rw [closed, List.getLastD_concat, if_pos hdots]

theorem closed_concat_of_not_isDots (hdots : ¬IsDots 46 last) :
    closed 46 (init ++ [last]) = (init, last) := by
  rw [closed, List.getLastD_concat, if_neg hdots, List.dropLast_concat]

/-- The loop and the final slash, as `removeDotSegments` has them. -/
theorem leftSegments_concat : leftSegments (init ++ [last]) =
    kept 46 ((init ++ [last]).filter (· ≠ [])) ++
      if IsDots 46 last ∨ last = [] then [[]] else [] := by
  by_cases hdots : IsDots 46 last
  · rw [leftSegments, closed_concat_of_isDots hdots, if_pos (.inl hdots)]
  · rw [leftSegments, closed_concat_of_not_isDots hdots]
    by_cases hnil : last = []
    · rw [if_pos (.inr hnil), hnil, List.filter_append, List.filter_cons_of_neg (by simp),
        List.filter_nil, List.append_nil]
    · rw [if_neg (by rintro (h | h); exacts [hdots h, hnil h]), List.filter_append,
        List.filter_cons_of_pos (by simpa using hnil), List.filter_nil,
        kept_concat_of_not_isDots _ hdots, List.append_nil]

/-- The tests for a final slash. -/
theorem final_slash_iff (hpath : u.path = join 47 (init ++ [last]))
    (hslash : ∀ s ∈ init ++ [last], 47 ∉ s) :
    (u.splitPath.getLast? = some (ascii "..") ∨ u.splitPath.getLast? = some (ascii ".") ∨
      u.path.getLast? = some 47) ↔ IsDots 46 last ∨ last = [] := by
  have hdot : ascii "." = [46] := by decide
  have hdotDot : ascii ".." = [46, 46] := by decide
  rw [splitPath_join hpath hslash, hpath, join_append, join_singleton, hdot, hdotDot]
  by_cases hnil : last = []
  · simp [hnil]
  · have hlast : (47 : UInt8) ∉ last := hslash last (by simp)
    have hend : ¬(47 :: last).getLast? = some 47 := by
      obtain ⟨c, cs, rfl⟩ := List.exists_cons_of_ne_nil hnil
      rw [List.getLast?_cons_cons]
      exact fun h => hlast (List.mem_of_getLast? h)
    have hfilter : (init ++ [last]).filter (· ≠ []) = init.filter (· ≠ []) ++ [last] := by
      rw [List.filter_append, List.filter_cons_of_pos (by simpa using hnil), List.filter_nil]
    rw [hfilter, List.getLast?_append_of_ne_nil _ (List.cons_ne_nil 47 last)]
    simp only [List.getLast?_concat, Option.some_inj, hend, hnil, or_false]
    exact or_comm

/-- The path that `removeDotSegments` leaves: the remaining segments are encoded again. -/
theorem removeDotSegments_path (hdot : 46 ∈ u.path) (hpath : u.path = join 47 segments)
    (hsegments : segments ≠ []) (hslash : ∀ s ∈ segments, 47 ∉ s) :
    (removeDotSegments u).path = join 47 ((leftSegments segments).map fun s => encode s .path) := by
  obtain ⟨init, last, rfl⟩ := (List.eq_nil_or_concat' segments).resolve_left hsegments
  have hfold : u.splitPath.foldl removeLoop [] = kept 46 ((init ++ [last]).filter (· ≠ [])) := by
    rw [splitPath_join hpath hslash]
    exact foldl_removeLoop _ []
  have hfinal := final_slash_iff hpath hslash
  have hkept : ∀ s ∈ kept 46 ((init ++ [last]).filter (· ≠ [])), s ≠ [] ∧ 47 ∉ s := by
    intro s hs
    obtain ⟨hmem, hnil⟩ := List.mem_filter.mp (mem_of_mem_kept hs)
    exact ⟨of_decide_eq_true hnil, hslash s hmem⟩
  simp only [removeDotSegments, not_not.mpr hdot, if_false, hfold, leftSegments_concat]
  cases hresult : kept 46 ((init ++ [last]).filter (· ≠ [])) with
  | nil =>
      have hslashed : IsDots 46 last ∨ last = [] := by
        by_contra hnot
        obtain ⟨hdots, hnil⟩ := not_or.mp hnot
        rw [List.filter_append, List.filter_cons_of_pos (by simpa using hnil), List.filter_nil,
          kept_concat_of_not_isDots _ hdots] at hresult
        simp at hresult
      rw [if_pos hslashed]
      rfl
  | cons front result =>
      obtain ⟨hfront, hfront'⟩ := hkept front (hresult ▸ List.mem_cons_self ..)
      simp only
      by_cases hslashed : IsDots 46 last ∨ last = []
      · have hjoin : front ++ (result.flatMap fun segment => 47 :: segment) ++ [47] =
            front ++ join 47 (result ++ [[]]) := by
          rw [join_append, join_singleton, List.append_assoc]
          rfl
        rw [if_pos (hfinal.mpr hslashed), if_pos hslashed, hjoin]
        exact setPath_join hfront hfront'
      · rw [if_neg fun h => hslashed (hfinal.mp h), if_neg hslashed, List.append_nil]
        exact setPath_join hfront hfront'

/-! ## The algorithm of the RFC -/

/-- Nothing is lost with the empty segments: the path has no dot, or all that the RFC
leaves of it lies behind its empty segments. An empty segment at the end is the final
slash. -/
def LosesNothing (path : List UInt8) : Prop :=
  46 ∉ path ∨ EmptiesVanish 46 (closed 46 (segmentsOf path)).1

theorem mem_closed (h : s ∈ (closed 46 segments).1 ++ [(closed 46 segments).2]) :
    s ∈ segments ∨ s = [] := by
  obtain rfl | ⟨init, last, rfl⟩ := List.eq_nil_or_concat' segments
  · exact .inr (List.mem_singleton.mp h)
  · by_cases hdots : IsDots 46 last
    · rw [closed_concat_of_isDots hdots] at h
      exact (List.mem_append.mp h).imp_right List.mem_singleton.mp
    · rw [closed_concat_of_not_isDots hdots] at h
      exact .inl h

/-- The remaining segments are segments of the path, or empty. -/
theorem mem_leftSegments (h : s ∈ leftSegments segments) : s ∈ segments ∨ s = [] := by
  rcases List.mem_append.mp h with h | h
  · exact mem_closed (List.mem_append_left _ (List.mem_filter.mp (mem_of_mem_kept h)).1)
  · exact mem_closed (List.mem_append_right _ h)

/-- The path of the RFC, by segments. -/
theorem removeDotSegments_rfc (hsegments : segments ≠ []) (hslash : ∀ s ∈ segments, 47 ∉ s) :
    DotSegments.removeDotSegments 47 46 (join 47 segments) =
      join 47 (kept 46 (closed 46 segments).1 ++ [(closed 46 segments).2]) :=
  removeDotSegments_join (by decide) hsegments hslash

/-- The remaining segments are those of the RFC exactly if nothing is lost. -/
theorem leftSegments_eq_iff (segments : List (List UInt8)) :
    leftSegments segments = kept 46 (closed 46 segments).1 ++ [(closed 46 segments).2] ↔
      EmptiesVanish 46 (closed 46 segments).1 := by
  rw [leftSegments, List.append_left_inj, kept_filter_iff]

theorem notMem_of_mem_leftSegments (hslash : ∀ s ∈ segments, 47 ∉ s)
    (hs : s ∈ leftSegments segments) : 47 ∉ s := by
  rcases mem_leftSegments hs with hmem | rfl
  · exact hslash s hmem
  · exact List.not_mem_nil

theorem notMem_of_mem_rfc (hslash : ∀ s ∈ segments, 47 ∉ s)
    (hs : s ∈ kept 46 (closed 46 segments).1 ++ [(closed 46 segments).2]) : 47 ∉ s := by
  rcases mem_closed ((List.mem_append.mp hs).elim
    (fun h => List.mem_append_left _ (mem_of_mem_kept h)) (List.mem_append_right _)) with hmem | rfl
  · exact hslash s hmem
  · exact List.not_mem_nil

theorem mem_rfc {xs : List UInt8} {c : UInt8}
    (hc : c ∈ DotSegments.removeDotSegments 47 46 (47 :: xs)) : c ∈ 47 :: xs := by
  obtain ⟨segments, hsegments, hslash, hjoin⟩ := exists_segments xs
  rw [hjoin, removeDotSegments_rfc hsegments hslash] at hc
  obtain ⟨s, hs, hcs⟩ := List.mem_flatMap.mp hc
  rcases List.mem_cons.mp hcs with rfl | hcs
  · exact List.mem_cons_self ..
  · rcases mem_closed ((List.mem_append.mp hs).elim
      (fun h => List.mem_append_left _ (mem_of_mem_kept h)) (List.mem_append_right _))
      with hmem | rfl
    · rw [hjoin]
      exact List.mem_flatMap.mpr ⟨s, hmem, List.mem_cons_of_mem 47 hcs⟩
    · cases hcs

/-! ### Encoded segments -/

theorem encode_eq_dots_iff (s : List UInt8) : (encode s .path = [46] ↔ s = [46]) ∧
    (encode s .path = [46, 46] ↔ s = [46, 46]) := by
  have hdot : encode s .path = encode [46] .path ↔ s = [46] := encode_inj (by decide)
  have hdotDot : encode s .path = encode [46, 46] .path ↔ s = [46, 46] := encode_inj (by decide)
  exact ⟨hdot, hdotDot⟩

/-- An encoded segment is empty if the segment is. -/
theorem filter_map_encode (segments : List (List UInt8)) :
    (segments.map fun s => encode s .path).filter (· ≠ []) =
      (segments.filter (· ≠ [])).map fun s => encode s .path := by
  have hnil (s : List UInt8) : encode s .path = encode [] .path ↔ s = [] :=
    encode_inj (by decide)
  rw [List.filter_map]
  refine congrArg _ (List.filter_congr fun s _ => ?_)
  exact decide_eq_decide.mpr (not_congr (hnil s))

theorem leftSegments_map (segments : List (List UInt8)) :
    leftSegments (segments.map fun s => encode s .path) =
      (leftSegments segments).map fun s => encode s .path := by
  have hdot (s : List UInt8) := (encode_eq_dots_iff s).1
  have hdotDot (s : List UInt8) := (encode_eq_dots_iff s).2
  rw [leftSegments, leftSegments, closed_map hdot hdotDot rfl, filter_map_encode,
    kept_map hdot hdotDot, List.map_append]
  rfl

theorem notMem_encode {s : List UInt8} (hs : 47 ∉ s) : 47 ∉ encode s .path := by
  rwa [mem_encode_iff (by decide) (by decide) (by decide)]

/-- The segments are encoded twice, and these are the ones of the RFC only if nothing is
encoded and nothing is lost. -/
theorem map_leftSegments_eq_iff (hslash : ∀ s ∈ segments, 47 ∉ s) :
    join 47 ((leftSegments segments).map fun s => encode (encode s .path) .path) =
        join 47 (kept 46 (closed 46 segments).1 ++ [(closed 46 segments).2]) ↔
      EmptiesVanish 46 (closed 46 segments).1 ∧
        encode (join 47 (kept 46 (closed 46 segments).1 ++ [(closed 46 segments).2])) .path =
          join 47 (kept 46 (closed 46 segments).1 ++ [(closed 46 segments).2]) := by
  have hleft : ∀ s ∈ (leftSegments segments).map fun s => encode (encode s .path) .path,
      47 ∉ s := by
    refine List.forall_mem_map.mpr fun s hs => ?_
    exact notMem_encode (notMem_encode (notMem_of_mem_leftSegments hslash hs))
  have hrfc : ∀ s ∈ kept 46 (closed 46 segments).1 ++ [(closed 46 segments).2], 47 ∉ s :=
    fun s => notMem_of_mem_rfc hslash
  have hencoded : ∀ s ∈ (kept 46 (closed 46 segments).1 ++ [(closed 46 segments).2]).map
      (fun s => encode s .path), 47 ∉ s :=
    List.forall_mem_map.mpr fun s hs => notMem_encode (hrfc s hs)
  have hself {xs : List (List UInt8)} {f : List UInt8 → List UInt8} :
      xs.map f = xs ↔ ∀ s ∈ xs, f s = s := by
    simpa using List.map_inj_left (l := xs) (f := f) (g := id)
  rw [join_inj hleft hrfc, encode_join, join_inj hencoded hrfc, ← leftSegments_eq_iff]
  constructor
  · intro h
    have hlength : (leftSegments segments).length =
        (kept 46 (closed 46 segments).1 ++ [(closed 46 segments).2]).length := by
      rw [← h, List.length_map]
    have hsame := List.Sublist.eq_of_length
      ((kept_filter_sublist 46 (closed 46 segments).1).append_right [(closed 46 segments).2])
      hlength
    refine ⟨hsame, ?_⟩
    change leftSegments segments = _ at hsame
    rw [← hsame, hself] at h ⊢
    exact fun s hs => (encode_encode_eq_self_iff .path s).mp (h s hs)
  · rintro ⟨hsame, hplain⟩
    rw [hsame, hself]
    rw [hself] at hplain
    exact fun s hs => (encode_encode_eq_self_iff .path s).mpr (hplain s hs)

/-- An absolute path that has been encoded loses its dot segments as the RFC says exactly if
nothing is lost with its empty segments and nothing that is left is encoded. -/
theorem removeDotSegments_encoded_iff {p xs : List UInt8} (hp : p = 47 :: xs)
    (hpath : u.path = encode p .path) :
    (removeDotSegments u).path = DotSegments.removeDotSegments 47 46 p ↔
      LosesNothing p ∧ encode (DotSegments.removeDotSegments 47 46 p) .path =
        DotSegments.removeDotSegments 47 46 p := by
  obtain ⟨segments, hsegments, hslash, hjoin⟩ := exists_segments xs
  have hdots : 46 ∈ u.path ↔ 46 ∈ p := by
    rw [hpath, mem_encode_iff (by decide) (by decide) (by decide)]
  by_cases hdot : 46 ∈ p
  · have hu : u.path = join 47 (segments.map fun s => encode s .path) := by
      rw [hpath, hp, hjoin, encode_join]
    have hslash' : ∀ s ∈ segments.map fun s => encode s .path, 47 ∉ s :=
      List.forall_mem_map.mpr fun s hs => notMem_encode (hslash s hs)
    rw [removeDotSegments_path (hdots.mpr hdot) hu (by simpa using hsegments) hslash',
      leftSegments_map, List.map_map, LosesNothing, hp, hjoin, segmentsOf_join hslash,
      removeDotSegments_rfc hsegments hslash, ← hjoin, ← hp]
    simp only [hdot, not_true_eq_false, false_or]
    exact map_leftSegments_eq_iff hslash
  · have hsame : removeDotSegments u = u := by
      rw [removeDotSegments, if_pos fun h => hdot (hdots.mp h)]
    have hrfc : DotSegments.removeDotSegments 47 46 p = p :=
      (removeDotSegments_eq_self_iff (by decide) p).mpr (noDotSegment_of_dot_notMem hdot)
    rw [hsame, hrfc, hpath, LosesNothing]
    simp [hdot]

/-- An absolute path of characters that are not encoded loses its dot segments as the RFC
says exactly if nothing is lost with its empty segments. -/
theorem removeDotSegments_agrees_iff (u : Uri) {xs : List UInt8} (hpath : u.path = 47 :: xs)
    (hchars : ∀ c ∈ u.path, isPathCharacter c = true ∧ c ≠ 37 ∧ c ≠ 43) :
    (removeDotSegments u).path = DotSegments.removeDotSegments 47 46 u.path ↔
      LosesNothing u.path := by
  have hself {ys : List UInt8} (hys : ∀ c ∈ ys, c ∈ u.path) : encode ys .path = ys := by
    refine (encode_eq_self_iff .path ys).mpr fun c hc => ?_
    obtain ⟨hchar, hpercent, hplus⟩ := hchars c (hys c hc)
    simp [shouldEncode, hchar, hpercent, hplus]
  have hrfc : encode (DotSegments.removeDotSegments 47 46 u.path) .path =
      DotSegments.removeDotSegments 47 46 u.path := by
    refine hself fun c hc => ?_
    rw [hpath] at hc ⊢
    exact mem_rfc hc
  rw [removeDotSegments_encoded_iff hpath (hself fun c hc => hc).symm, hrfc]
  exact and_iff_left rfl

/-- A URI with nothing but a path. -/
def ofPath (path : List UInt8) : Uri := ⟨[], [], [], path, [], [], 0⟩

/-- The `..` behind the empty segments goes up to the top, and nothing is lost. -/
theorem removeDotSegments_agrees_iff_up :
    (removeDotSegments (ofPath (ascii "/a//../../b"))).path =
        DotSegments.removeDotSegments 47 46 (ascii "/a//../../b") ↔
      LosesNothing (ascii "/a//../../b") :=
  removeDotSegments_agrees_iff (ofPath (ascii "/a//../../b"))
    (by decide : ascii "/a//../../b" = 47 :: ascii "a//../../b")
    fun c hc => by
      have hall : (ascii "/a//../../b").all (fun c => isPathCharacter c && c != 37 && c != 43) =
          true := by decide
      have hchar := List.all_eq_true.mp hall c hc
      simpa [and_assoc] using hchar

/-- An empty segment that the RFC keeps. -/
theorem removeDotSegments_agrees_fails :
    (removeDotSegments (ofPath (ascii "/a//./b"))).path = ascii "/a/b" ∧
      DotSegments.removeDotSegments 47 46 (ofPath (ascii "/a//./b")).path = ascii "/a//b" ∧
      (∀ c ∈ (ofPath (ascii "/a//./b")).path, isPathCharacter c = true ∧ c ≠ 37 ∧ c ≠ 43) ∧
      (removeDotSegments (ofPath (ascii "/a//./b"))).path ≠
        DotSegments.removeDotSegments 47 46 (ofPath (ascii "/a//./b")).path := by
  refine ⟨by decide +kernel, by decide +kernel, fun c hc => ?_, by decide +kernel⟩
  have hall : (ascii "/a//./b").all (fun c => isPathCharacter c && c != 37 && c != 43) =
      true := by decide
  have hchar := List.all_eq_true.mp hall c hc
  simpa [and_assoc] using hchar

end Uri

end Netpp
