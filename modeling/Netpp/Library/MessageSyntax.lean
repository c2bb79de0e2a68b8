import Mathlib.Data.List.DropRight
import Netpp.Library.Text

/-!
# The syntax of HTTP/1 messages

The header section of a message is a start line, field lines and a blank line. The parts
are structures that carry what the grammar says of their characters, and `bytes` writes
them down.
-/

namespace Http

/-- What comes before the first separator is determined, and so is what comes after it. -/
theorem append_cons_inj {α : Type*} {sep : α} {xs ys xs' ys' : List α} (hxs : sep ∉ xs)
    (hys : sep ∉ ys) (h : xs ++ sep :: xs' = ys ++ sep :: ys') : xs = ys ∧ xs' = ys' := by
  induction xs generalizing ys with
  | nil =>
      cases ys with
      | nil => exact ⟨rfl, (List.cons.inj h).2⟩
      | cons y ys =>
          obtain ⟨rfl, -⟩ := List.cons.inj h
          exact absurd (List.mem_cons_self ..) hys
  | cons x xs ih =>
      cases ys with
      | nil =>
          obtain ⟨rfl, -⟩ := List.cons.inj h
          exact absurd (List.mem_cons_self ..) hxs
      | cons y ys =>
          obtain ⟨rfl, hrest⟩ := List.cons.inj h
          obtain ⟨rfl, hafter⟩ := ih (fun hmem => hxs (List.mem_cons_of_mem _ hmem))
            (fun hmem => hys (List.mem_cons_of_mem _ hmem)) hrest
          exact ⟨rfl, hafter⟩

/-- CR LF. -/
def crlf : List UInt8 := [13, 10]

/-- The characters of a token. -/
def isTokenChar (c : UInt8) : Bool :=
  (48 ≤ c && c ≤ 57) || (65 ≤ c && c ≤ 90) || (97 ≤ c && c ≤ 122) ||
    [33, 35, 36, 37, 38, 39, 42, 43, 45, 46, 94, 95, 96, 124, 126].contains c

/-- A space or a tab. -/
def isBlank (c : UInt8) : Bool := c == 32 || c == 9

/-- A field line: the name, a colon, blanks, the value, blanks and the end of the line. -/
structure FieldLine where
  name : List UInt8
  before : List UInt8
  value : List UInt8
  after : List UInt8
  name_ne_nil : name ≠ []
  name_token : ∀ c ∈ name, isTokenChar c = true
  before_blank : ∀ c ∈ before, isBlank c = true
  after_blank : ∀ c ∈ after, isBlank c = true
  value_line : ∀ c ∈ value, c ≠ 13 ∧ c ≠ 10
  value_head : ∀ c ∈ value.head?, isBlank c = false
  value_last : ∀ c ∈ value.getLast?, isBlank c = false

namespace FieldLine

def bytes (f : FieldLine) : List UInt8 :=
  f.name ++ 58 :: (f.before ++ f.value ++ f.after ++ crlf)

/-- The name and the value. -/
def pair (f : FieldLine) : List UInt8 × List UInt8 := (f.name, f.value)

end FieldLine

/-- The header section with this start line. -/
def headerSection (startLine : List UInt8) (fields : List FieldLine) : List UInt8 :=
  startLine ++ crlf ++ fields.flatMap FieldLine.bytes ++ crlf

/-! ## Lines

A text of lines is a first line, lines that are not empty and a blank line.
-/

/-- A line that is not blank. -/
def IsLine (line : List UInt8) : Prop := line ≠ [] ∧ 13 ∉ line

def lineText (first : List UInt8) (lines : List (List UInt8)) : List UInt8 :=
  first ++ crlf ++ lines.flatMap (fun line => line ++ crlf) ++ crlf

theorem lines_inj {lines lines' : List (List UInt8)} (hlines : ∀ line ∈ lines, IsLine line)
    (hlines' : ∀ line ∈ lines', IsLine line)
    (h : lines.flatMap (fun line => line ++ crlf) ++ crlf =
      lines'.flatMap (fun line => line ++ crlf) ++ crlf) : lines = lines' := by
  have hcons (line : List UInt8) (rest : List (List UInt8)) :
      (line :: rest).flatMap (fun line => line ++ crlf) ++ crlf =
        line ++ 13 :: 10 :: (rest.flatMap (fun line => line ++ crlf) ++ crlf) := by
    simp [crlf]
  -- the blank line is read as an empty one
  have hnil : ([] : List (List UInt8)).flatMap (fun line => line ++ crlf) ++ crlf =
      [] ++ 13 :: [10] := rfl
  induction lines generalizing lines' with
  | nil =>
      cases lines' with
      | nil => rfl
      | cons line' lines' =>
          rw [hnil, hcons] at h
          have hline' := hlines' line' (List.mem_cons_self ..)
          exact absurd (append_cons_inj List.not_mem_nil hline'.2 h).1.symm hline'.1
  | cons line lines ih =>
      have hline := hlines line (List.mem_cons_self ..)
      cases lines' with
      | nil =>
          rw [hnil, hcons] at h
          exact absurd (append_cons_inj hline.2 List.not_mem_nil h).1 hline.1
      | cons line' lines' =>
          rw [hcons, hcons] at h
          obtain ⟨rfl, hrest⟩ :=
            append_cons_inj hline.2 (hlines' line' (List.mem_cons_self ..)).2 h
          rw [ih (fun l hl => hlines l (List.mem_cons_of_mem _ hl))
            (fun l hl => hlines' l (List.mem_cons_of_mem _ hl)) (List.cons.inj hrest).2]

/-- A text of lines is read in one way only. -/
theorem lineText_inj {first first' : List UInt8} {lines lines' : List (List UInt8)}
    (hfirst : 13 ∉ first) (hfirst' : 13 ∉ first') (hlines : ∀ line ∈ lines, IsLine line)
    (hlines' : ∀ line ∈ lines', IsLine line) (h : lineText first lines = lineText first' lines') :
    first = first' ∧ lines = lines' := by
  have hcons (first : List UInt8) (lines : List (List UInt8)) : lineText first lines =
      first ++ 13 :: 10 :: (lines.flatMap (fun line => line ++ crlf) ++ crlf) := by
    simp [lineText, crlf]
  rw [hcons, hcons] at h
  obtain ⟨hfirst, h⟩ := append_cons_inj hfirst hfirst' h
  exact ⟨hfirst, lines_inj hlines hlines' (List.cons.inj h).2⟩

/-! ## Reading a header section

A field line ends at the first CR, and its name at the first colon. What is left of the
line without the blanks at its ends is the value.
-/

/-- The text without the blanks at its ends. -/
def trim (text : List UInt8) : List UInt8 := (text.dropWhile isBlank).rdropWhile isBlank

theorem rdropWhile_append {α : Type*} {p : α → Bool} (xs : List α) {ys : List α}
    (hys : ∀ y ∈ ys, p y = true) : (xs ++ ys).rdropWhile p = xs.rdropWhile p := by
  rw [List.rdropWhile, List.reverse_append, List.dropWhile_append_of_pos, List.rdropWhile]
  intro y hy
  exact hys y (List.mem_reverse.mp hy)

namespace FieldLine

def content (f : FieldLine) : List UInt8 := f.before ++ f.value ++ f.after

theorem trim_content (f : FieldLine) : trim f.content = f.value := by
  have hhead : (f.value ++ f.after).dropWhile isBlank = f.value ∨ f.value ≠ [] ∧
      (f.value ++ f.after).dropWhile isBlank = f.value ++ f.after := by
    cases hvalue : f.value with
    | nil => exact .inl (List.dropWhile_eq_nil_iff.mpr f.after_blank)
    | cons c value =>
        have hc : isBlank c = false := f.value_head c (by rw [hvalue]; rfl)
        exact .inr ⟨List.cons_ne_nil c value, by simp [hc]⟩
  have hlast : f.value.rdropWhile isBlank = f.value := by
    refine List.rdropWhile_eq_self_iff.mpr fun hne => ?_
    rw [f.value_last _ (List.getLast_mem_getLast? hne)]
    exact Bool.false_ne_true
  rw [trim, content, List.append_assoc, List.dropWhile_append_of_pos f.before_blank]
  obtain hnil | ⟨-, happend⟩ := hhead
  · rw [hnil, hlast]
  · rw [happend, rdropWhile_append _ f.after_blank, hlast]

theorem cr_not_mem_content (f : FieldLine) : 13 ∉ f.content := by
  rw [content, List.mem_append, List.mem_append]
  rintro ((hmem | hmem) | hmem)
  · exact absurd (f.before_blank 13 hmem) (by decide)
  · exact (f.value_line 13 hmem).1 rfl
  · exact absurd (f.after_blank 13 hmem) (by decide)

theorem colon_not_mem_name (f : FieldLine) : 58 ∉ f.name := by
  intro hmem
  exact absurd (f.name_token 58 hmem) (by decide)

/-- The line without its end. -/
def line (f : FieldLine) : List UInt8 := f.name ++ 58 :: f.content

theorem bytes_eq (f : FieldLine) : f.bytes = f.line ++ crlf := by simp [bytes, line, content]

theorem isLine (f : FieldLine) : IsLine f.line := by
  refine ⟨List.append_ne_nil_of_left_ne_nil f.name_ne_nil _, ?_⟩
  rw [line, List.mem_append, List.mem_cons]
  rintro (hmem | hmem | hmem)
  · exact absurd (f.name_token 13 hmem) (by decide)
  · exact absurd hmem (by decide)
  · exact f.cr_not_mem_content hmem

/-- A field line is read in one way only. -/
theorem line_inj {f f' : FieldLine} (h : f.line = f'.line) : f.pair = f'.pair := by
  obtain ⟨hname, hcontent⟩ := append_cons_inj f.colon_not_mem_name f'.colon_not_mem_name h
  have hvalue := congrArg trim hcontent
  rw [trim_content, trim_content] at hvalue
  exact Prod.ext hname hvalue

theorem pairs_inj {fields fields' : List FieldLine} (h : fields.map line = fields'.map line) :
    fields.map pair = fields'.map pair := by
  induction fields generalizing fields' with
  | nil => rw [List.map_eq_nil_iff.mp h.symm]
  | cons f fields ih =>
      cases fields' with
      | nil => cases h
      | cons f' fields' =>
          rw [List.map_cons, List.map_cons] at h
          obtain ⟨hline, hrest⟩ := List.cons.inj h
          rw [List.map_cons, List.map_cons, line_inj hline, ih hrest]

end FieldLine

/-- A header section is read in one way only. -/
theorem headerSection_inj {startLine startLine' : List UInt8} {fields fields' : List FieldLine}
    (hline : 13 ∉ startLine) (hline' : 13 ∉ startLine')
    (h : headerSection startLine fields = headerSection startLine' fields') :
    startLine = startLine' ∧ fields.map FieldLine.pair = fields'.map FieldLine.pair := by
  have hsection (line : List UInt8) (fs : List FieldLine) :
      headerSection line fs = lineText line (fs.map FieldLine.line) := by
    rw [headerSection, lineText, List.flatMap_map, funext FieldLine.bytes_eq]
  have hfields (fs : List FieldLine) : ∀ l ∈ fs.map FieldLine.line, IsLine l := by
    intro l hl
    obtain ⟨f, -, rfl⟩ := List.mem_map.mp hl
    exact f.isLine
  rw [hsection, hsection] at h
  obtain ⟨hlines, hmap⟩ := lineText_inj hline hline' (hfields fields) (hfields fields') h
  exact ⟨hlines, FieldLine.pairs_inj hmap⟩

/-! ## Spellings of a name -/

/-- The letter in lower case, or the character. -/
def lower (c : UInt8) : UInt8 := if 65 ≤ c && c ≤ 90 then c + 32 else c

/-- Two names that differ in the case of letters only. -/
def SameLetters (name name' : List UInt8) : Prop := name.map lower = name'.map lower

instance (name name' : List UInt8) : Decidable (SameLetters name name') :=
  inferInstanceAs (Decidable (_ = _))

/-- The fields in another spelling of their names. -/
def Respelled (fields fields' : List FieldLine) : Prop :=
  List.Forall₂ (fun f f' => SameLetters f.name f'.name ∧ f.before = f'.before ∧
    f.value = f'.value ∧ f.after = f'.after) fields fields'

/-! ## Start lines -/

/-- A request line. -/
structure RequestLine where
  method : List UInt8
  target : List UInt8
  major : UInt8
  minor : UInt8
  method_token : ∀ c ∈ method, isTokenChar c = true
  target_text : ∀ c ∈ target, c ≠ 32 ∧ c ≠ 13 ∧ c ≠ 10
  major_digit : Text.isDigit major = true
  minor_digit : Text.isDigit minor = true

/-- A status line. -/
structure StatusLine where
  major : UInt8
  minor : UInt8
  code : List UInt8
  reason : List UInt8
  major_digit : Text.isDigit major = true
  minor_digit : Text.isDigit minor = true
  code_digits : code.length = 3 ∧ ∀ c ∈ code, Text.isDigit c = true
  reason_line : ∀ c ∈ reason, c ≠ 13 ∧ c ≠ 10

/-- `HTTP/`, the major version, a point and the minor version. -/
def version (major minor : UInt8) : List UInt8 := [72, 84, 84, 80, 47, major, 46, minor]

def RequestLine.bytes (line : RequestLine) : List UInt8 :=
  line.method ++ 32 :: (line.target ++ 32 :: version line.major line.minor)

def StatusLine.bytes (line : StatusLine) : List UInt8 :=
  version line.major line.minor ++ 32 :: (line.code ++ 32 :: line.reason)

/-- A token contains no space. -/
theorem RequestLine.space_not_mem_method (line : RequestLine) : 32 ∉ line.method := by
  intro hmem
  exact absurd (line.method_token 32 hmem) (by decide)

theorem RequestLine.space_not_mem_target (line : RequestLine) : 32 ∉ line.target :=
  fun hmem => (line.target_text 32 hmem).1 rfl

/-- A request line is read in one way only, as far as the target. -/
theorem RequestLine.bytes_inj {line : RequestLine} {method target rest rest' : List UInt8}
    (hmethod : 32 ∉ method) (htarget : 32 ∉ target)
    (h : method ++ 32 :: (target ++ 32 :: rest) = line.bytes ++ rest') :
    method = line.method ∧ target = line.target ∧
      rest = version line.major line.minor ++ rest' := by
  rw [bytes, List.append_assoc, List.cons_append, List.append_assoc, List.cons_append] at h
  obtain ⟨hmethod', h⟩ := append_cons_inj hmethod line.space_not_mem_method h
  obtain ⟨htarget', h⟩ := append_cons_inj htarget line.space_not_mem_target h
  exact ⟨hmethod', htarget', h⟩

end Http
