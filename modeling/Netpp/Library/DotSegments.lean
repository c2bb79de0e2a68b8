import Mathlib.Data.List.DropRight
import Netpp.Library.Scanner
import Netpp.Library.Split

/-!
# Removing dot segments from a path

A path is a list of characters with a slash between its segments. `removeDotSegments` is
the algorithm of RFC 3986, section 5.2.4, which goes over the characters with an input and
an output buffer. On an absolute path it is a walk over the segments: `kept` goes down
into a segment, stays at `.` and goes up at `..`, and up from the top is the top.

An empty segment is a segment like any other. The last part says when it makes no
difference to leave the empty segments out.
-/

namespace DotSegments

variable {α : Type*} [DecidableEq α]

/-! ## The algorithm -/

/-- The output without its last segment and the slash before it, if it has one. -/
def dropSegment (slash : α) (output : List α) : List α :=
  (output.rdropWhile (· ≠ slash)).dropLast

/-- The loop over the input buffer. -/
def loop (slash dot : α) (output : List α) : List α → List α
  | [] => output
  | c :: rest =>
      -- the input begins with a dot segment and no slash before it
      if [dot, dot, slash] <+: c :: rest then loop slash dot output (rest.drop 2)
      else if [dot, slash] <+: c :: rest then loop slash dot output (rest.drop 1)
      -- the slash behind a dot segment stays in the input
      else if [slash, dot, slash] <+: c :: rest then loop slash dot output (rest.drop 1)
      else if c :: rest = [slash, dot] then loop slash dot output [slash]
      else if [slash, dot, dot, slash] <+: c :: rest then
        loop slash dot (dropSegment slash output) (rest.drop 2)
      else if c :: rest = [slash, dot, dot] then loop slash dot (dropSegment slash output) [slash]
      else if c :: rest = [dot] ∨ c :: rest = [dot, dot] then output
      -- one segment goes to the output, with the slash before it
      else
        loop slash dot (output ++ c :: rest.takeWhile (· ≠ slash)) (rest.dropWhile (· ≠ slash))
termination_by input => input.length
decreasing_by
  all_goals first
    | exact Nat.lt_succ_of_le (List.length_drop ▸ Nat.sub_le ..)
    | exact Nat.lt_succ_of_le (List.dropWhile_sublist _).length_le
    | have hlength := congrArg List.length ‹c :: rest = _›
      simp only [List.length_cons, List.length_nil] at hlength ⊢
      omega

def removeDotSegments (slash dot : α) (path : List α) : List α := loop slash dot [] path

/-! ## Absolute paths by segments -/

/-- An absolute path has a slash before each segment. -/
def join (slash : α) (segments : List (List α)) : List α := segments.flatMap (slash :: ·)

/-- One step of the walk; the segments above are listed from the last one up. -/
def visit (dot : α) (above : List (List α)) (segment : List α) : List (List α) :=
  if segment = [dot] then above
  else if segment = [dot, dot] then above.tail
  else segment :: above

/-- The segments that are left when dot segments are removed. -/
def kept (dot : α) (segments : List (List α)) : List (List α) :=
  (segments.foldl (visit dot) []).reverse

/-- The segment is `.` or `..`. -/
def IsDots (dot : α) (segment : List α) : Prop := segment = [dot] ∨ segment = [dot, dot]

instance (dot : α) (segment : List α) : Decidable (IsDots dot segment) :=
  inferInstanceAs (Decidable (_ ∨ _))

/-- The segments that a slash follows, and the last one. A final dot segment counts as one
that a slash and an empty segment follow. -/
def closed (dot : α) (segments : List (List α)) : List (List α) × List α :=
  if IsDots dot (segments.getLastD []) then (segments, [])
  else (segments.dropLast, segments.getLastD [])

variable {slash dot : α} {s rest r output : List α} {segments : List (List α)}

omit [DecidableEq α] in
@[simp] theorem join_nil (slash : α) : join slash [] = [] := rfl

omit [DecidableEq α] in
theorem join_cons (slash : α) (s : List α) (segments : List (List α)) :
    join slash (s :: segments) = slash :: (s ++ join slash segments) := rfl

omit [DecidableEq α] in
theorem join_singleton (slash : α) (s : List α) : join slash [s] = slash :: s := by
  rw [join_cons, join_nil, List.append_nil]

omit [DecidableEq α] in
theorem join_append (slash : α) (xs ys : List (List α)) :
    join slash (xs ++ ys) = join slash xs ++ join slash ys := List.flatMap_append

theorem closed_cons_cons (dot : α) (s t : List α) (segments : List (List α)) :
    closed dot (s :: t :: segments) =
      (s :: (closed dot (t :: segments)).1, (closed dot (t :: segments)).2) := by
  have hlast : (s :: t :: segments).getLastD [] = (t :: segments).getLastD [] := by simp
  unfold closed
  rw [hlast]
  split
  · rfl
  · rw [List.dropLast_cons_of_ne_nil (List.cons_ne_nil t segments)]

/-! ### Splitting a path -/

theorem splitOn_eq_cons (slash : α) (path : List α) :
    ∃ s segments, path.splitOn slash = s :: segments ∧ path = s ++ join slash segments := by
  induction path with
  | nil => exact ⟨[], [], List.splitOn_nil slash, rfl⟩
  | cons c path ih =>
      obtain ⟨s, segments, hsplit, hpath⟩ := ih
      rw [List.splitOn_cons_eq_if_modifyHead, hsplit]
      by_cases hc : c = slash
      · refine ⟨[], s :: segments, if_pos (beq_iff_eq.mpr hc), ?_⟩
        rw [join_cons, List.nil_append, ← hpath, hc]
      · refine ⟨c :: s, segments, if_neg (by simpa using hc), ?_⟩
        rw [List.cons_append, ← hpath]

/-- A path is its segments with slashes between them, and in them there is none. -/
theorem exists_splitOn_eq_cons (slash : α) (path : List α) :
    ∃ s segments, path.splitOn slash = s :: segments ∧ path = s ++ join slash segments ∧
      slash ∉ s ∧ ∀ t ∈ segments, slash ∉ t := by
  obtain ⟨s, segments, hsplit, hpath⟩ := splitOn_eq_cons slash path
  have hslash (t : List α) (ht : t ∈ path.splitOn slash) : slash ∉ t :=
    Split.notMem_of_mem_splitOn ht
  rw [hsplit] at hslash
  exact ⟨s, segments, hsplit, hpath, List.forall_mem_cons.mp hslash⟩

theorem splitOn_append_join (hs : slash ∉ s) (hslash : ∀ t ∈ segments, slash ∉ t) :
    (s ++ join slash segments).splitOn slash = s :: segments := by
  induction segments generalizing s with
  | nil => rw [join_nil, List.append_nil, List.splitOn_eq_singleton hs]
  | cons t segments ih =>
      obtain ⟨ht, hslash⟩ := List.forall_mem_cons.mp hslash
      rw [join_cons, List.splitOn_append_cons_self_of_not_mem hs, ih ht hslash]

theorem splitOn_join (hslash : ∀ t ∈ segments, slash ∉ t) :
    (join slash segments).splitOn slash = [] :: segments :=
  splitOn_append_join List.not_mem_nil hslash

/-- A path determines its segments. -/
theorem join_inj {segments' : List (List α)} (hslash : ∀ t ∈ segments, slash ∉ t)
    (hslash' : ∀ t ∈ segments', slash ∉ t) :
    join slash segments = join slash segments' ↔ segments = segments' := by
  refine ⟨fun h => ?_, congrArg _⟩
  have hsplit := congrArg (List.splitOn slash) h
  rw [splitOn_join hslash, splitOn_join hslash'] at hsplit
  exact (List.cons.inj hsplit).2

/-! ### The loop on a segment -/

/-- A segment ends at the next slash or at the end. -/
theorem takeWhile_segment (hs : slash ∉ s) (hrest : rest = [] ∨ ∃ r, rest = slash :: r) :
    (s ++ rest).takeWhile (· ≠ slash) = s ∧ (s ++ rest).dropWhile (· ≠ slash) = rest := by
  have hall : ∀ c ∈ s, decide (c ≠ slash) = true := fun c hc =>
    decide_eq_true fun heq => hs (heq ▸ hc)
  rw [List.takeWhile_append_of_pos hall, List.dropWhile_append_of_pos hall]
  obtain rfl | ⟨r, rfl⟩ := hrest
  · simp
  · simp

theorem loop_slash (hne : slash ≠ dot) :
    loop slash dot output [slash] = output ++ [slash] := by
  rw [loop]
  simp [loop, hne]

theorem loop_dot (hne : slash ≠ dot) :
    loop slash dot output (slash :: dot :: slash :: r) =
      loop slash dot output (slash :: r) := by
  rw [loop]
  simp [hne.symm]

theorem loop_dot_end (hne : slash ≠ dot) :
    loop slash dot output [slash, dot] = output ++ [slash] := by
  rw [loop]
  simp [hne.symm, loop_slash hne]

theorem loop_dotDot (hne : slash ≠ dot) :
    loop slash dot output (slash :: dot :: dot :: slash :: r) =
      loop slash dot (dropSegment slash output) (slash :: r) := by
  rw [loop]
  simp [hne, hne.symm]

theorem loop_dotDot_end (hne : slash ≠ dot) :
    loop slash dot output [slash, dot, dot] = dropSegment slash output ++ [slash] := by
  rw [loop]
  simp [hne, hne.symm, loop_slash hne]

/-- A text that begins with a segment begins with no other one. -/
theorem eq_of_segment {p t : List α} (hs : slash ∉ s) (hrest : rest = [] ∨ ∃ r, rest = slash :: r)
    (hp : slash ∉ p) (ht : t = [] ∨ ∃ r, t = slash :: r) (h : s ++ rest = p ++ t) : s = p := by
  rw [← (takeWhile_segment hs hrest).1, h, (takeWhile_segment hp ht).1]

/-- A text that begins with no dot segment does not look like one. -/
theorem not_dots_append (hne : slash ≠ dot) (hs : slash ∉ s) (hdots : ¬IsDots dot s)
    (hrest : rest = [] ∨ ∃ r, rest = slash :: r) :
    ¬[dot, slash] <+: s ++ rest ∧ ¬s ++ rest = [dot] ∧ ¬[dot, dot, slash] <+: s ++ rest ∧
      ¬s ++ rest = [dot, dot] := by
  have hdot : slash ∉ [dot] := by simpa using hne
  have hdotDot : slash ∉ [dot, dot] := by simpa using hne
  refine ⟨?_, ?_, ?_, ?_⟩
  · rintro ⟨t, ht⟩
    exact hdots (.inl (eq_of_segment hs hrest hdot (.inr ⟨t, rfl⟩) ht.symm))
  · intro h
    exact hdots (.inl (eq_of_segment (t := []) hs hrest hdot (.inl rfl) h))
  · rintro ⟨t, ht⟩
    exact hdots (.inr (eq_of_segment hs hrest hdotDot (.inr ⟨t, rfl⟩) ht.symm))
  · intro h
    exact hdots (.inr (eq_of_segment (t := []) hs hrest hdotDot (.inl rfl) h))

/-- A segment that is no dot segment goes to the output. -/
theorem loop_segment (hne : slash ≠ dot) (hs : slash ∉ s) (hdots : ¬IsDots dot s)
    (hrest : rest = [] ∨ ∃ r, rest = slash :: r) :
    loop slash dot output (slash :: (s ++ rest)) = loop slash dot (output ++ slash :: s) rest := by
  obtain ⟨htake, hdrop⟩ := takeWhile_segment hs hrest
  obtain ⟨h₁, h₂, h₃, h₄⟩ := not_dots_append hne hs hdots hrest
  rw [loop]
  simp only [List.cons_prefix_cons, List.cons.injEq, hne, hne.symm, true_and, false_and, h₁, h₂,
    h₃, h₄, if_false, or_self, htake, hdrop]

/-- A relative path has no slash before its first segment. -/
theorem loop_first (hne : slash ≠ dot) (hs : slash ∉ s) (hdots : ¬IsDots dot s) (hnil : s ≠ [])
    (hrest : rest = [] ∨ ∃ r, rest = slash :: r) :
    loop slash dot output (s ++ rest) = loop slash dot (output ++ s) rest := by
  obtain ⟨h₁, h₂, h₃, h₄⟩ := not_dots_append hne hs hdots hrest
  obtain ⟨c, s, rfl⟩ := List.exists_cons_of_ne_nil hnil
  obtain ⟨hc, hs⟩ := not_or.mp (List.mem_cons.not.mp hs)
  obtain ⟨htake, hdrop⟩ := takeWhile_segment hs hrest
  rw [List.cons_append] at h₁ h₂ h₃ h₄ ⊢
  rw [loop]
  simp only [h₁, h₂, h₃, h₄, List.cons_prefix_cons, List.cons.injEq, hc, Ne.symm hc, false_and,
    if_false, or_self, htake, hdrop]

/-- Going up takes back the segment that went to the output last. -/
theorem dropSegment_join (habove : ∀ s ∈ segments, slash ∉ s) :
    dropSegment slash (join slash segments.reverse) = join slash segments.tail.reverse := by
  cases segments with
  | nil => rfl
  | cons s above =>
      have hs : ∀ c ∈ s.reverse, decide (c ≠ slash) = true := fun c hc =>
        decide_eq_true fun heq => habove s (List.mem_cons_self ..) (heq ▸ List.mem_reverse.mp hc)
      rw [List.reverse_cons, join_append, dropSegment, List.rdropWhile, List.reverse_append,
        join_singleton, List.reverse_cons, List.append_assoc,
        List.dropWhile_append_of_pos hs, List.singleton_append,
        List.dropWhile_cons_of_neg (by simp), List.reverse_cons, List.reverse_reverse,
        List.dropLast_concat]
      rfl

/-- The segments that lie above after a step have no slash either. -/
theorem notMem_visit {above : List (List α)} (habove : ∀ t ∈ above, slash ∉ t) (hs : slash ∉ s) :
    ∀ t ∈ visit dot above s, slash ∉ t := by
  unfold visit
  split
  · exact habove
  · split
    · exact fun t ht => habove t (List.mem_of_mem_tail ht)
    · exact List.forall_mem_cons.mpr ⟨hs, habove⟩

omit [DecidableEq α] in
/-- What follows a segment begins with a slash, or is the end. -/
theorem join_boundary (slash : α) (segments : List (List α)) :
    join slash segments = [] ∨ ∃ r, join slash segments = slash :: r := by
  cases segments with
  | nil => exact .inl rfl
  | cons s segments => exact .inr ⟨_, rfl⟩

/-- The loop on the last segment. -/
theorem loop_last (hne : slash ≠ dot) {above : List (List α)} (habove : ∀ t ∈ above, slash ∉ t)
    (hs : slash ∉ s) : loop slash dot (join slash above.reverse) (join slash [s]) =
      join slash (((closed dot [s]).1.foldl (visit dot) above).reverse ++
        [(closed dot [s]).2]) := by
  rw [join_append, join_singleton, join_singleton]
  by_cases hdot : s = [dot]
  · have hclosed : closed dot [s] = ([s], []) := if_pos (.inl hdot)
    rw [hclosed, hdot, loop_dot_end hne]
    simp [visit]
  · by_cases hdotDot : s = [dot, dot]
    · have hclosed : closed dot [s] = ([s], []) := if_pos (.inr hdotDot)
      rw [hclosed, hdotDot, loop_dotDot_end hne, dropSegment_join habove]
      simp [visit]
    · have hdots : ¬IsDots dot s := fun h => h.elim hdot hdotDot
      have hclosed : closed dot [s] = ([], s) := if_neg hdots
      have hloop : loop slash dot (join slash above.reverse) (slash :: (s ++ [])) = _ :=
        loop_segment hne hs hdots (.inl rfl)
      rw [List.append_nil] at hloop
      rw [hclosed, hloop, loop]
      rfl

/-- One round of the loop is a step of the walk, if another segment follows. -/
theorem loop_visit (hne : slash ≠ dot) {above : List (List α)} (habove : ∀ t ∈ above, slash ∉ t)
    (hs : slash ∉ s) (hsegments : segments ≠ []) :
    loop slash dot (join slash above.reverse) (join slash (s :: segments)) =
      loop slash dot (join slash (visit dot above s).reverse) (join slash segments) := by
  obtain ⟨t, segments, rfl⟩ := List.exists_cons_of_ne_nil hsegments
  by_cases hdot : s = [dot]
  · rw [hdot, visit, if_pos rfl]
    exact loop_dot hne
  · by_cases hdotDot : s = [dot, dot]
    · rw [visit, if_neg hdot, if_pos hdotDot, ← dropSegment_join habove, hdotDot]
      exact loop_dotDot hne
    · have hdots : ¬IsDots dot s := fun h => h.elim hdot hdotDot
      rw [visit, if_neg hdot, if_neg hdotDot, List.reverse_cons, join_append, join_singleton,
        join_cons slash s (t :: segments), loop_segment hne hs hdots (join_boundary ..)]

/-- The loop on the segments, by induction with the output as the segments above. -/
theorem loop_join (hne : slash ≠ dot) (hsegments : segments ≠ [])
    (hslash : ∀ s ∈ segments, slash ∉ s) {above : List (List α)}
    (habove : ∀ t ∈ above, slash ∉ t) :
    loop slash dot (join slash above.reverse) (join slash segments) =
      join slash (((closed dot segments).1.foldl (visit dot) above).reverse ++
        [(closed dot segments).2]) := by
  induction segments generalizing above with
  | nil => exact absurd rfl hsegments
  | cons s segments ih =>
      obtain ⟨hs, hrest⟩ := List.forall_mem_cons.mp hslash
      cases segments with
      | nil => exact loop_last hne habove hs
      | cons t segments =>
          rw [loop_visit hne habove hs (List.cons_ne_nil t segments),
            ih (List.cons_ne_nil t segments) hrest (notMem_visit habove hs), closed_cons_cons,
            List.foldl_cons]

/-- On an absolute path the algorithm is a walk over the segments. -/
theorem removeDotSegments_join (hne : slash ≠ dot) (hsegments : segments ≠ [])
    (hslash : ∀ s ∈ segments, slash ∉ s) :
    removeDotSegments slash dot (join slash segments) =
      join slash (kept dot (closed dot segments).1 ++ [(closed dot segments).2]) :=
  loop_join hne hsegments hslash (List.forall_mem_nil _)

/-! ## Paths without dot segments -/

theorem dropSegment_length_le (slash : α) (output : List α) :
    (dropSegment slash output).length ≤ output.length := by
  rw [dropSegment, List.length_dropLast]
  exact (Nat.sub_le ..).trans (List.rdropWhile_prefix _ _).length_le

/-- No character is added, and each round on a dot segment takes one away. -/
theorem loop_length_le (slash dot : α) (output input : List α) :
    (loop slash dot output input).length ≤ output.length + input.length := by
  fun_induction loop slash dot output input with
  | case1 output => exact Nat.le_refl _
  | case2 output c rest _ ih =>
      rw [List.length_drop] at ih
      rw [List.length_cons]
      omega
  | case3 output c rest _ _ ih =>
      rw [List.length_drop] at ih
      rw [List.length_cons]
      omega
  | case4 output c rest _ _ _ ih =>
      rw [List.length_drop] at ih
      rw [List.length_cons]
      omega
  | case5 output c rest _ _ _ hend ih =>
      rw [hend]
      exact ih.trans (Nat.le_succ _)
  | case6 output c rest _ _ _ _ _ ih =>
      have hle := dropSegment_length_le slash output
      rw [List.length_drop] at ih
      rw [List.length_cons]
      omega
  | case7 output c rest _ _ _ _ _ hend ih =>
      have hle := dropSegment_length_le slash output
      rw [hend]
      simp only [List.length_cons, List.length_nil] at ih ⊢
      omega
  | case8 output c rest => exact Nat.le_add_right ..
  | case9 output c rest _ _ _ _ _ _ _ ih =>
      have hsplit := congrArg List.length
        (List.takeWhile_append_dropWhile (p := fun x => decide (x ≠ slash)) (l := rest))
      rw [List.length_append] at hsplit ih
      rw [List.length_cons] at ih ⊢
      omega

/-- The path has no segment that is `.` or `..`. -/
def NoDotSegment (slash dot : α) (path : List α) : Prop :=
  ∀ s ∈ path.splitOn slash, ¬IsDots dot s

theorem noDotSegment_append_slash :
    NoDotSegment slash dot (s ++ slash :: rest) ↔
      NoDotSegment slash dot s ∧ NoDotSegment slash dot rest := by
  rw [NoDotSegment, List.splitOn_append_cons_self, List.forall_mem_append]
  rfl

theorem noDotSegment_nil (slash dot : α) : NoDotSegment slash dot [] := by
  intro s hs
  rw [List.splitOn_nil, List.mem_singleton] at hs
  subst hs
  exact fun h => h.elim (fun h => by cases h) fun h => by cases h

theorem noDotSegment_of_notMem (hs : slash ∉ s) : NoDotSegment slash dot s ↔ ¬IsDots dot s := by
  rw [NoDotSegment, List.splitOn_eq_singleton hs, List.forall_mem_singleton]

theorem noDotSegment_slash :
    NoDotSegment slash dot (slash :: rest) ↔ NoDotSegment slash dot rest := by
  have h : NoDotSegment slash dot ([] ++ slash :: rest) ↔ _ := noDotSegment_append_slash
  rw [List.nil_append] at h
  rw [h, and_iff_right (noDotSegment_nil slash dot)]

omit [DecidableEq α] in
theorem dropWhile_boundary (p : α → Bool) (xs : List α) :
    xs.dropWhile p = [] ∨ ∃ c r, xs.dropWhile p = c :: r ∧ p c = false := by
  cases hdrop : xs.dropWhile p with
  | nil => exact .inl rfl
  | cons c r =>
      have hne : xs.dropWhile p ≠ [] := by
        rw [hdrop]
        exact List.cons_ne_nil c r
      have hc := List.head_dropWhile_not p hne
      simp only [hdrop, List.head_cons] at hc
      exact .inr ⟨c, r, rfl, hc⟩

/-- The first segment of an input that begins with no dot segment. -/
theorem noDotSegment_first {c : α} {segment tail : List α} (hsegment : slash ∉ segment)
    (htail : tail = [] ∨ ∃ r, tail = slash :: r)
    (h₁ : ¬[dot, dot, slash] <+: c :: (segment ++ tail))
    (h₂ : ¬[dot, slash] <+: c :: (segment ++ tail))
    (h₃ : ¬[slash, dot, slash] <+: c :: (segment ++ tail))
    (h₄ : ¬c :: (segment ++ tail) = [slash, dot])
    (h₅ : ¬[slash, dot, dot, slash] <+: c :: (segment ++ tail))
    (h₆ : ¬c :: (segment ++ tail) = [slash, dot, dot])
    (h₇ : ¬(c :: (segment ++ tail) = [dot] ∨ c :: (segment ++ tail) = [dot, dot])) :
    NoDotSegment slash dot (c :: segment) := by
  by_cases hc : c = slash
  · subst hc
    rw [noDotSegment_slash, noDotSegment_of_notMem hsegment]
    rintro (rfl | rfl)
    · obtain rfl | ⟨r, rfl⟩ := htail
      · exact h₄ rfl
      · exact h₃ ⟨r, rfl⟩
    · obtain rfl | ⟨r, rfl⟩ := htail
      · exact h₆ rfl
      · exact h₅ ⟨r, rfl⟩
  · have hnotMem : slash ∉ c :: segment := by
      rw [List.mem_cons, not_or]
      exact ⟨Ne.symm hc, hsegment⟩
    rw [noDotSegment_of_notMem hnotMem]
    rintro (heq | heq)
    · cases heq
      obtain rfl | ⟨r, rfl⟩ := htail
      · exact h₇ (.inl rfl)
      · exact h₂ ⟨r, rfl⟩
    · cases heq
      obtain rfl | ⟨r, rfl⟩ := htail
      · exact h₇ (.inr rfl)
      · exact h₁ ⟨r, rfl⟩

/-- What is not changed has no dot segment. -/
theorem noDotSegment_of_loop_eq (slash dot : α) (output input : List α)
    (h : loop slash dot output input = output ++ input) : NoDotSegment slash dot input := by
  have hlength := congrArg List.length h
  fun_induction loop slash dot output input with
  | case1 output => exact noDotSegment_nil slash dot
  | case2 output c rest _ ih =>
      have hle := loop_length_le slash dot output (rest.drop 2)
      simp only [List.length_append, List.length_cons, List.length_drop] at hlength hle
      omega
  | case3 output c rest _ _ ih =>
      have hle := loop_length_le slash dot output (rest.drop 1)
      simp only [List.length_append, List.length_cons, List.length_drop] at hlength hle
      omega
  | case4 output c rest _ _ _ ih =>
      have hle := loop_length_le slash dot output (rest.drop 1)
      simp only [List.length_append, List.length_cons, List.length_drop] at hlength hle
      omega
  | case5 output c rest _ _ _ hend ih =>
      have hle := loop_length_le slash dot output [slash]
      simp only [hend, List.length_append, List.length_cons, List.length_nil] at hlength hle
      omega
  | case6 output c rest _ _ _ _ _ ih =>
      have hle := loop_length_le slash dot (dropSegment slash output) (rest.drop 2)
      have hdrop := dropSegment_length_le slash output
      simp only [List.length_append, List.length_cons, List.length_drop] at hlength hle
      omega
  | case7 output c rest _ _ _ _ _ hend ih =>
      have hle := loop_length_le slash dot (dropSegment slash output) [slash]
      have hdrop := dropSegment_length_le slash output
      simp only [hend, List.length_append, List.length_cons, List.length_nil] at hlength hle
      omega
  | case8 output c rest =>
      simp only [List.length_append, List.length_cons] at hlength
      omega
  | case9 output c rest h₁ h₂ h₃ h₄ h₅ h₆ h₇ ih =>
      have hsegment : slash ∉ rest.takeWhile (fun x => decide (x ≠ slash)) := by
        intro hmem
        have hslash := List.mem_takeWhile_imp hmem
        exact absurd rfl (of_decide_eq_true hslash)
      have htail : rest.dropWhile (fun x => decide (x ≠ slash)) = [] ∨
          ∃ r, rest.dropWhile (fun x => decide (x ≠ slash)) = slash :: r := by
        obtain hnil | ⟨d, r, hdrop, hd⟩ := dropWhile_boundary (fun x => decide (x ≠ slash)) rest
        · exact .inl hnil
        · exact .inr ⟨r, by rw [hdrop, not_not.mp (of_decide_eq_false hd)]⟩
      have hrest : rest = rest.takeWhile (fun x => decide (x ≠ slash)) ++
          rest.dropWhile (fun x => decide (x ≠ slash)) := List.takeWhile_append_dropWhile.symm
      generalize rest.takeWhile (fun x => decide (x ≠ slash)) = segment at *
      generalize rest.dropWhile (fun x => decide (x ≠ slash)) = tail at *
      subst hrest
      have hfirst := noDotSegment_first hsegment htail h₁ h₂ h₃ h₄ h₅ h₆ h₇
      have hmore : NoDotSegment slash dot tail := by
        rw [← List.cons_append, ← List.append_assoc] at h
        exact ih h (congrArg List.length h)
      rw [← List.cons_append]
      obtain rfl | ⟨r, rfl⟩ := htail
      · rwa [List.append_nil]
      · exact noDotSegment_append_slash.mpr ⟨hfirst, noDotSegment_slash.mp hmore⟩

/-- Segments that are no dot segments go to the output one by one. -/
theorem loop_join_of_noDots (hne : slash ≠ dot) (hslash : ∀ s ∈ segments, slash ∉ s)
    (hdots : ∀ s ∈ segments, ¬IsDots dot s) (output : List α) :
    loop slash dot output (join slash segments) = output ++ join slash segments := by
  induction segments generalizing output with
  | nil => simp [loop]
  | cons s segments ih =>
      obtain ⟨hs, hslash⟩ := List.forall_mem_cons.mp hslash
      obtain ⟨hdot, hdots⟩ := List.forall_mem_cons.mp hdots
      rw [join_cons, loop_segment hne hs hdot (join_boundary ..), ih hslash hdots,
        List.append_assoc, List.cons_append]

/-- A path without a dot has no dot segment. -/
theorem noDotSegment_of_dot_notMem {path : List α} (hdot : dot ∉ path) :
    NoDotSegment slash dot path := by
  rintro s hs (rfl | rfl)
  · exact hdot (Split.mem_of_mem_splitOn hs (List.mem_cons_self ..)).1
  · exact hdot (Split.mem_of_mem_splitOn hs (List.mem_cons_self ..)).1

/-- The paths that are not changed are those without dot segments. -/
theorem removeDotSegments_eq_self_iff (hne : slash ≠ dot) (path : List α) :
    removeDotSegments slash dot path = path ↔ NoDotSegment slash dot path := by
  constructor
  · exact fun h => noDotSegment_of_loop_eq slash dot [] path h
  · intro h
    obtain ⟨s, segments, hsplit, hpath, hs, hslash⟩ := exists_splitOn_eq_cons slash path
    rw [NoDotSegment, hsplit] at h
    obtain ⟨hdots, hrest⟩ := List.forall_mem_cons.mp h
    rw [removeDotSegments, hpath]
    by_cases hnil : s = []
    · rw [hnil, List.nil_append, loop_join_of_noDots hne hslash hrest, List.nil_append]
    · rw [loop_first hne hs hdots hnil (join_boundary ..), loop_join_of_noDots hne hslash hrest,
        List.nil_append]

/-! ## Empty segments -/

variable {xs ys zs above above' : List (List α)}

/-- A walk goes up by some number of segments and then has its own segments below. -/
theorem foldl_visit_eq (dot : α) (zs : List (List α)) : ∃ up, ∀ above,
    zs.foldl (visit dot) above = zs.foldl (visit dot) [] ++ above.drop up := by
  induction zs with
  | nil => exact ⟨0, fun above => rfl⟩
  | cons z zs ih =>
      obtain ⟨up, hup⟩ := ih
      by_cases hdot : z = [dot]
      · refine ⟨up, fun above => ?_⟩
        rw [List.foldl_cons, List.foldl_cons, visit, visit, if_pos hdot, if_pos hdot]
        exact hup above
      · by_cases hdotDot : z = [dot, dot]
        · refine ⟨up + 1, fun above => ?_⟩
          rw [List.foldl_cons, List.foldl_cons, visit, visit, if_neg hdot, if_pos hdotDot,
            if_neg hdot, if_pos hdotDot, hup above.tail, ← List.drop_one, List.drop_drop,
            Nat.add_comm]
          rfl
        · refine ⟨up - 1, fun above => ?_⟩
          rw [List.foldl_cons, List.foldl_cons, visit, visit, if_neg hdot, if_neg hdotDot,
            if_neg hdot, if_neg hdotDot, hup (z :: above), hup [z], List.append_assoc]
          cases up with
          | zero => rfl
          | succ up => rw [List.drop_succ_cons, List.drop_succ_cons, List.drop_nil]; rfl

/-- Without the empty segments the walk has no other segments above it. -/
theorem foldl_visit_filter_sublist (dot : α) (zs : List (List α)) (h : above'.Sublist above) :
    ((zs.filter (· ≠ [])).foldl (visit dot) above').Sublist (zs.foldl (visit dot) above) := by
  induction zs generalizing above above' with
  | nil => exact h
  | cons z zs ih =>
      have hvisit : (visit dot above' z).Sublist (visit dot above z) := by
        unfold visit
        split
        · exact h
        · split
          · exact h.tail
          · exact h.cons_cons z
      by_cases hz : z = []
      · subst hz
        have hdeeper : above'.Sublist (visit dot above []) := h.cons []
        rw [List.filter_cons_of_neg (by simp), List.foldl_cons]
        exact ih hdeeper
      · rw [List.filter_cons_of_pos (by simpa using hz), List.foldl_cons, List.foldl_cons]
        exact ih hvisit

theorem kept_filter_sublist (dot : α) (segments : List (List α)) :
    (kept dot (segments.filter (· ≠ []))).Sublist (kept dot segments) :=
  (foldl_visit_filter_sublist dot segments (List.Sublist.refl _)).reverse

theorem mem_of_mem_foldl_visit (h : s ∈ segments.foldl (visit dot) above) :
    s ∈ segments ∨ s ∈ above := by
  induction segments generalizing above with
  | nil => exact .inr h
  | cons t segments ih =>
      rcases ih h with hmem | hmem
      · exact .inl (List.mem_cons_of_mem t hmem)
      · unfold visit at hmem
        split at hmem
        · exact .inr hmem
        · split at hmem
          · exact .inr (List.mem_of_mem_tail hmem)
          · rcases List.mem_cons.mp hmem with rfl | hmem
            · exact .inl (List.mem_cons_self ..)
            · exact .inr hmem

theorem mem_of_mem_kept (h : s ∈ kept dot segments) : s ∈ segments :=
  (mem_of_mem_foldl_visit (List.mem_reverse.mp h)).resolve_right List.not_mem_nil

section map

variable {f : List α → List α}

/-- The walk does not look into the segments. -/
theorem foldl_visit_map (hdot : ∀ s, f s = [dot] ↔ s = [dot])
    (hdotDot : ∀ s, f s = [dot, dot] ↔ s = [dot, dot]) (zs above : List (List α)) :
    (zs.map f).foldl (visit dot) (above.map f) = (zs.foldl (visit dot) above).map f := by
  induction zs generalizing above with
  | nil => rfl
  | cons z zs ih =>
      have hvisit : visit dot (above.map f) (f z) = (visit dot above z).map f := by
        simp only [visit, hdot z, hdotDot z]
        split
        · rfl
        · split
          · exact List.map_tail.symm
          · rfl
      rw [List.map_cons, List.foldl_cons, List.foldl_cons, hvisit, ih]

theorem kept_map (hdot : ∀ s, f s = [dot] ↔ s = [dot])
    (hdotDot : ∀ s, f s = [dot, dot] ↔ s = [dot, dot]) (segments : List (List α)) :
    kept dot (segments.map f) = (kept dot segments).map f := by
  rw [kept, kept, List.map_reverse]
  exact congrArg List.reverse (foldl_visit_map hdot hdotDot segments [])

theorem closed_map (hdot : ∀ s, f s = [dot] ↔ s = [dot])
    (hdotDot : ∀ s, f s = [dot, dot] ↔ s = [dot, dot]) (hnil : f [] = [])
    (segments : List (List α)) :
    closed dot (segments.map f) = ((closed dot segments).1.map f, f (closed dot segments).2) := by
  have hlast : (segments.map f).getLastD [] = f (segments.getLastD []) := by
    obtain rfl | ⟨init, last, rfl⟩ := List.eq_nil_or_concat' segments
    · exact hnil.symm
    · rw [List.map_append, List.map_singleton, List.getLastD_concat, List.getLastD_concat]
  have hdots : IsDots dot (f (segments.getLastD [])) ↔ IsDots dot (segments.getLastD []) :=
    or_congr (hdot _) (hdotDot _)
  rw [closed, closed, hlast]
  simp only [hdots]
  split
  · rw [hnil]
  · rw [List.map_dropLast]

end map

/-- Whatever is left when dot segments are removed lies behind every empty segment. -/
def EmptiesVanish (dot : α) (segments : List (List α)) : Prop :=
  ∀ ys zs, segments = ys ++ [] :: zs → kept dot segments = kept dot zs

/-- Leaving out the empty segments makes no difference exactly if they vanish. -/
theorem kept_filter_iff (dot : α) (segments : List (List α)) :
    kept dot (segments.filter (· ≠ [])) = kept dot segments ↔ EmptiesVanish dot segments := by
  constructor
  · rintro h ys zs rfl
    obtain ⟨up, hup⟩ := foldl_visit_eq dot zs
    have hkept : (ys ++ [] :: zs).foldl (visit dot) [] =
        zs.foldl (visit dot) [] ++ ([] :: ys.foldl (visit dot) []).drop up := by
      rw [List.foldl_append, List.foldl_cons, hup (visit dot _ [])]
      rfl
    -- without the empty segment the walk goes up from one segment less
    have hless : ((ys ++ [] :: zs).filter (· ≠ [])).foldl (visit dot) [] =
        (zs.filter (· ≠ [])).foldl (visit dot) ((ys.filter (· ≠ [])).foldl (visit dot) []) := by
      rw [List.filter_append, List.filter_cons_of_neg (by simp), List.foldl_append]
    have hle : (kept dot ((ys ++ [] :: zs).filter (· ≠ []))).length ≤
        (zs.foldl (visit dot) []).length + ((ys.foldl (visit dot) []).length - up) := by
      rw [kept, List.length_reverse, hless]
      refine (foldl_visit_filter_sublist dot zs
        (foldl_visit_filter_sublist dot ys (List.Sublist.refl _))).length_le.trans
          (Nat.le_of_eq ?_)
      rw [hup, List.length_append, List.length_drop]
    have hlength : (kept dot (ys ++ [] :: zs)).length =
        (zs.foldl (visit dot) []).length + ((ys.foldl (visit dot) []).length + 1 - up) := by
      rw [kept, List.length_reverse, hkept, List.length_append, List.length_drop,
        List.length_cons]
    have hup_le : (ys.foldl (visit dot) []).length + 1 ≤ up := by
      rw [h] at hle
      omega
    rw [kept, hkept, List.drop_eq_nil_of_le hup_le, List.append_nil, kept]
  · intro h
    obtain hall | ⟨ys, z, zs, rfl, hz, hzs⟩ :=
      Scanner.forall_or_exists_last (fun s : List α => decide (s ≠ [])) segments
    · rw [List.filter_eq_self.mpr hall]
    · have hempty : z = [] := by simpa using hz
      subst hempty
      obtain ⟨up, hup⟩ := foldl_visit_eq dot zs
      have hzs' : zs.filter (· ≠ []) = zs := List.filter_eq_self.mpr hzs
      have hvanish := congrArg List.length (h ys zs rfl)
      rw [kept, kept, List.length_reverse, List.length_reverse, List.foldl_append,
        List.foldl_cons, hup (visit dot _ []), List.length_append, List.length_drop] at hvanish
      change _ + ((ys.foldl (visit dot) []).length + 1 - up) = _ at hvanish
      have hshort : ((ys.filter (· ≠ [])).foldl (visit dot) []).length ≤ up := by
        have hfilter := (foldl_visit_filter_sublist dot ys (List.Sublist.refl [])).length_le
        omega
      rw [h ys zs rfl, kept, kept, List.filter_append, List.filter_cons_of_neg (by simp), hzs',
        List.foldl_append, hup, List.drop_eq_nil_of_le hshort, List.append_nil]

end DotSegments
