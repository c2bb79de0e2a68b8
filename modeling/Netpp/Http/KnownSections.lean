import Netpp.Http.HttpCode
import Netpp.Http.Llhttp

/-!
# A parser that knows some header sections

The results about the decoder are for every `Llhttp` that behaves as documented. A list
of header sections, none of them the beginning of another, makes one.
-/

namespace Netpp

open Text (ascii)

/-- Header sections with what is reported of each. -/
structure KnownSections where
  sections : List (List UInt8 × Execution)
  ne_nil : ∀ k ∈ sections, k.1 ≠ []
  prefixFree : ∀ k ∈ sections, ∀ k' ∈ sections, k.1 <+: k'.1 → k = k'

namespace KnownSections

variable (known : KnownSections)

/-- What is reported of the beginning of a message, before its first word has ended. -/
def beginning : Execution := ⟨.HPE_OK, none, [], .HTTP_DELETE, 0, 0, 0⟩

def execute (bytes : List UInt8) : Execution :=
  match known.sections.find? fun k => k.1.isPrefixOf bytes with
  | some k => { k.2 with errno := .HPE_PAUSED_UPGRADE, errorPos := some k.1.length }
  | none =>
      if known.sections.any fun k => bytes.isPrefixOf k.1 then beginning
      else { beginning with errno := .HPE_INVALID_METHOD, errorPos := some 0 }

def llhttp : Llhttp where
  execute := known.execute
  HeaderSection h := ∃ r, (h, r) ∈ known.sections

variable {known} {h rest : List UInt8} {r : Execution}

/-- The section that a known section followed by something begins with. -/
theorem find?_append (hmem : (h, r) ∈ known.sections) (rest : List UInt8) :
    known.sections.find? (fun k => k.1.isPrefixOf (h ++ rest)) = some (h, r) := by
  cases hfind : known.sections.find? fun k => k.1.isPrefixOf (h ++ rest) with
  | none =>
      have hnot := List.find?_eq_none.mp hfind (h, r) hmem
      exact absurd (List.isPrefixOf_iff_prefix.mpr (List.prefix_append h rest)) hnot
  | some k =>
      have hk := List.mem_of_find?_eq_some hfind
      have hprefix := List.isPrefixOf_iff_prefix.mp
        (List.find?_some (p := fun k : List UInt8 × Execution => k.1.isPrefixOf (h ++ rest)) hfind)
      rcases List.prefix_or_prefix_of_prefix hprefix (List.prefix_append h rest) with hle | hle
      · rw [known.prefixFree k hk (h, r) hmem hle]
      · rw [known.prefixFree (h, r) hmem k hk hle]

theorem execute_append (hmem : (h, r) ∈ known.sections) (rest : List UInt8) :
    known.execute (h ++ rest) =
      { r with errno := .HPE_PAUSED_UPGRADE, errorPos := some h.length } := by
  rw [execute, find?_append hmem]

theorem execute_self (hmem : (h, r) ∈ known.sections) :
    known.execute h = { r with errno := .HPE_PAUSED_UPGRADE, errorPos := some h.length } := by
  have happend := execute_append hmem []
  rwa [List.append_nil] at happend

theorem headerSection (hmem : (h, r) ∈ known.sections) : known.llhttp.HeaderSection h :=
  ⟨r, hmem⟩

/-- The beginning of a known section is none of them. -/
theorem execute_beginning {p s : List UInt8} (hmem : (p ++ s, r) ∈ known.sections)
    (hs : s ≠ []) : known.execute p = beginning := by
  have hfind : known.sections.find? (fun k => k.1.isPrefixOf p) = none := by
    refine List.find?_eq_none.mpr fun k hk hprefix => ?_
    have hle := List.isPrefixOf_iff_prefix.mp hprefix
    have heq := known.prefixFree k hk (p ++ s, r) hmem (hle.trans (List.prefix_append p s))
    rw [heq] at hle
    have hlength := hle.length_le
    rw [List.length_append] at hlength
    have hpos := List.length_pos_iff.mpr hs
    omega
  have hany : known.sections.any (fun k => p.isPrefixOf k.1) = true :=
    List.any_eq_true.mpr ⟨_, hmem, List.isPrefixOf_iff_prefix.mpr (List.prefix_append p s)⟩
  rw [execute, hfind]
  exact if_pos hany

theorem documented (known : KnownSections) : known.llhttp.Documented where
  ne_nil := by
    rintro h ⟨r, hmem⟩
    exact known.ne_nil _ hmem
  errno_of_complete := by
    rintro h ⟨r, hmem⟩
    exact congrArg Execution.errno (execute_self hmem)
  errorPos_of_complete := by
    rintro h ⟨r, hmem⟩
    exact congrArg Execution.errorPos (execute_self hmem)
  execute_append := by
    rintro h rest ⟨r, hmem⟩
    exact (execute_append hmem rest).trans (execute_self hmem).symm
  errno_of_incomplete := by
    rintro p s ⟨r, hmem⟩ hs
    exact congrArg Execution.errno (execute_beginning hmem hs)
  errorPos_of_incomplete := by
    rintro p s ⟨r, hmem⟩ hs
    exact congrArg Execution.errorPos (execute_beginning hmem hs)

/-- The header section of a request without fields. -/
def getSection : List UInt8 := ascii "GET / HTTP/1.1\r\n\r\n"

/-- The parser that knows this section. -/
def get : KnownSections where
  sections := [(getSection,
    ⟨.HPE_PAUSED_UPGRADE, some 18, [.onUrl (ascii "/")], .HTTP_GET, 0, 1, 1⟩)]
  ne_nil := by decide
  prefixFree := by simp

theorem headerSection_get : get.llhttp.HeaderSection getSection :=
  headerSection (List.mem_singleton_self _)

end KnownSections

end Netpp
