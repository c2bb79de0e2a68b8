import Netpp.Library.Split
import Netpp.Uri.Path

/-!
# Appending paths

`appendPath` puts exactly one slash between the path and what is appended to it, unless
there are more of them on one side. `splitPath` leaves out the empty segments, so the
segments of what is appended, each of them encoded, come behind the segments that there are.
-/

namespace Netpp

open Text (ascii)

namespace Uri

open UriCodec DotSegments Split

/-- The default constructor. -/
def newDefault : Except UriException Uri := new (ascii "/")

/-- `appendPath` is called for each of the paths, and it encodes them. -/
def appendPaths (u : Uri) (paths : List (List UInt8)) : Uri :=
  paths.foldl (fun u path => u.appendPath path) u

/-- The segments of a path that are not empty, each as it is encoded. -/
def encodedSegments (path : List UInt8) : List (List UInt8) :=
  (pieces 47 path).map fun s => encode s .path

theorem splitPath_eq_pieces (u : Uri) : u.splitPath = pieces 47 u.path := by
  obtain ⟨s, segments, hsplit, hpath, hs, hslash⟩ := exists_splitOn_eq_cons 47 u.path
  rw [pieces, hsplit, splitPath, hpath, splitLoop_append_join hs hslash]

/-- The segments of an encoded path are the encoded ones. -/
theorem pieces_encode (path : List UInt8) :
    pieces 47 (encode path .path) = encodedSegments path := by
  obtain ⟨s, segments, hsplit, hpath, hs, hslash⟩ := exists_splitOn_eq_cons 47 path
  have hencoded : ∀ t ∈ segments.map fun t => encode t .path, 47 ∉ t :=
    List.forall_mem_map.mpr fun t ht => notMem_encode (hslash t ht)
  rw [encodedSegments, pieces, pieces, hsplit, hpath, encode_append, encode_join,
    splitOn_append_join (notMem_encode hs) hencoded, ← filter_map_encode]
  rfl

theorem encode_head {path : List UInt8} (h : path.head? = some 47) :
    (encode path .path).head? = some 47 := by
  obtain ⟨rest, rfl⟩ := List.head?_eq_some_iff.mp h
  rfl

/-- Step lemma: the segments of the path that is appended come behind those there are. -/
theorem splitPath_appendPath (u : Uri) (path : List UInt8) :
    (u.appendPath path).splitPath = u.splitPath ++ encodedSegments path := by
  have hroot : ascii "/" = [47] := by decide
  rw [splitPath_eq_pieces, splitPath_eq_pieces, ← pieces_encode, appendPath, hroot]
  by_cases hpath : path ≠ [] ∧ path ≠ [47]
  · rw [if_pos hpath]
    simp only [if_true]
    by_cases hempty : u.path = [] ∨ u.path = [47]
    · -- the path begins anew, with one slash
      have hnone : pieces 47 u.path = [] := by
        rcases hempty with h | h
        · rw [h, pieces_nil]
        · rw [h, pieces_cons_self, pieces_nil]
      rw [if_pos hempty, hnone, List.nil_append]
      split
      next => exact pieces_cons_self ..
      next => rfl
    · rw [if_neg hempty]
      by_cases hhead : path.head? = some 47
      · have hencoded := encode_head hhead
        by_cases hlast : u.path.getLast? = some 47
        · obtain ⟨init, hinit⟩ := List.getLast?_eq_some_iff.mp hlast
          rw [if_pos ⟨hlast, hhead⟩, hinit, List.dropLast_concat, pieces_concat_self]
          exact pieces_append (.inr hencoded)
        · rw [if_neg fun h => hlast h.1, if_neg fun h => h.2 hhead]
          exact pieces_append (.inr hencoded)
      · rw [if_neg fun h => hhead h.2]
        by_cases hlast : u.path.getLast? = some 47
        · rw [if_neg fun h => h.1 hlast]
          exact pieces_append (.inl hlast)
        · rw [if_pos ⟨hlast, hhead⟩, List.append_assoc, List.singleton_append]
          exact pieces_append_cons ..
  · -- nothing is appended, and there is no segment in it
    have hnone : pieces 47 (encode path .path) = [] := by
      by_cases hnil : path = []
      · rw [hnil]
        rfl
      · have hslash : path = [47] := by
          by_contra hne
          exact hpath ⟨hnil, hne⟩
        rw [hslash]
        exact (pieces_cons_self ..).trans (pieces_nil 47)
    rw [if_neg hpath, hnone, List.append_nil]

/-- Run lemma: any number of paths. -/
theorem splitPath_foldl (u : Uri) (paths : List (List UInt8)) :
    (u.appendPaths paths).splitPath = u.splitPath ++ paths.flatMap encodedSegments := by
  induction paths generalizing u with
  | nil => exact (List.append_nil _).symm
  | cons path paths ih =>
      rw [appendPaths, List.foldl_cons, ← appendPaths, ih, splitPath_appendPath,
        List.flatMap_cons, List.append_assoc]

/-- Slashes at the ends and between the segments make no difference. -/
example (u : Uri) : (u.appendPaths [ascii "a/", ascii "//b c//d", [], ascii "/"]).splitPath =
    u.splitPath ++ [ascii "a", ascii "b%20c", ascii "d"] := by
  rw [splitPath_foldl]
  exact congrArg _ (by decide)

/-- Decoding the segments gives back those of the paths that have been appended. -/
theorem decode_splitPath (u : Uri) (paths : List (List UInt8)) :
    (u.appendPaths paths).splitPath.map decode =
      u.splitPath.map decode ++ (paths.flatMap (pieces 47)).map .ok := by
  have hdecode (path : List UInt8) : (encodedSegments path).map decode =
      (pieces 47 path).map .ok := by
    rw [encodedSegments, List.map_map]
    exact List.map_congr_left fun s _ => decode_encode (by decide) s
  rw [splitPath_foldl, List.map_append, List.map_flatMap, List.map_flatMap]
  simp only [hdecode]

/-- The segments of a URI to which paths have been appended are the encoded segments of the
paths, in order. -/
theorem splitPath_appendPaths (paths : List (List UInt8)) :
    newDefault.map (fun u => (u.appendPaths paths).splitPath) =
      .ok (paths.flatMap encodedSegments) := by
  have hnew : newDefault = .ok (ofPath (ascii "/")) := rfl
  rw [hnew, Except.map, splitPath_foldl, splitPath_eq_pieces]
  rfl

end Uri

end Netpp
