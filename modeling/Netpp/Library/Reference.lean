import Netpp.Library.DotSegments

/-!
# References and their targets

A reference has components that may be missing. `transform` is the algorithm of RFC 3986,
section 5.2.2, which takes the target of a reference from it and from a base. The lemmas
name the four kinds of references.
-/

structure Reference (α Authority : Type*) where
  scheme : Option (List α)
  authority : Option Authority
  path : List α
  query : Option (List α)
  fragment : Option (List α)

namespace Reference

open DotSegments

variable {α Authority : Type*} [DecidableEq α]

/-- Section 5.2.3. -/
def merge (slash : α) (base : Reference α Authority) (path : List α) : List α :=
  if base.authority.isSome ∧ base.path = [] then slash :: path
  else base.path.rdropWhile (· ≠ slash) ++ path

def transform (slash dot : α) (base r : Reference α Authority) : Reference α Authority :=
  if r.scheme.isSome then { r with path := removeDotSegments slash dot r.path }
  else if r.authority.isSome then
    { r with scheme := base.scheme, path := removeDotSegments slash dot r.path }
  else if r.path = [] then
    { base with query := r.query.or base.query, fragment := r.fragment }
  else
    { base with
      path := removeDotSegments slash dot
        (if r.path.head? = some slash then r.path else merge slash base r.path)
      query := r.query
      fragment := r.fragment }

variable {slash dot : α} {base r : Reference α Authority}

theorem transform_of_scheme (h : r.scheme ≠ none) : transform slash dot base r =
    { r with path := removeDotSegments slash dot r.path } :=
  if_pos (Option.isSome_iff_ne_none.mpr h)

theorem transform_of_authority (hscheme : r.scheme = none) (h : r.authority ≠ none) :
    transform slash dot base r =
      { r with scheme := base.scheme, path := removeDotSegments slash dot r.path } := by
  rw [transform, if_neg (by simp [hscheme]), if_pos (Option.isSome_iff_ne_none.mpr h)]

theorem transform_of_no_path (hscheme : r.scheme = none) (hauthority : r.authority = none)
    (h : r.path = []) : transform slash dot base r =
      { base with query := r.query.or base.query, fragment := r.fragment } := by
  rw [transform, if_neg (by simp [hscheme]), if_neg (by simp [hauthority]), if_pos h]

theorem transform_of_path (hscheme : r.scheme = none) (hauthority : r.authority = none)
    (h : r.path ≠ []) : transform slash dot base r =
      { base with
        path := removeDotSegments slash dot
          (if r.path.head? = some slash then r.path else merge slash base r.path)
        query := r.query
        fragment := r.fragment } := by
  rw [transform, if_neg (by simp [hscheme]), if_neg (by simp [hauthority]), if_neg h]

/-- The base of an absolute path is the path up to the last slash. -/
theorem merge_of_path (h : base.path ≠ []) (path : List α) :
    merge slash base path = base.path.rdropWhile (· ≠ slash) ++ path :=
  if_neg fun hboth => h hboth.2

end Reference
