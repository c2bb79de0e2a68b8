import Netpp.Library.Scanner

/-!
# Reading a terminated text by position

A text in memory ends with a terminator that it does not contain. A position is read by
`read`, and reading behind the terminator is a `fault`. The loops of a hand-written parser
go from position to position: `forward` runs a body on what it reads until the body leaves
the loop. A loop that scans the text does what `Scanner` does on the rest of the text.
-/

namespace Cursor

/-- What becomes of a computation that reads a text: it may read behind the terminator, or
it may give up. -/
inductive Outcome (α : Type) where
  | fault
  | reject
  | ok (a : α)

instance : Monad Outcome where
  pure := .ok
  bind x f :=
    match x with
    | .fault => .fault
    | .reject => .reject
    | .ok a => f a

namespace Outcome

variable {α β : Type}

@[simp] theorem ok_bind (a : α) (f : α → Outcome β) : (Outcome.ok a >>= f) = f a := rfl

@[simp] theorem reject_bind (f : α → Outcome β) : (Outcome.reject >>= f) = .reject := rfl

theorem bind_assoc {γ : Type} (x : Outcome α) (f : α → Outcome β) (g : β → Outcome γ) :
    (x >>= f >>= g) = (x >>= fun a => f a >>= g) := by
  cases x with
  | fault => rfl
  | reject => rfl
  | ok a => rfl

@[simp] theorem pure_eq (a : α) : (pure a : Outcome α) = .ok a := rfl

end Outcome

/-- A text without its terminator. -/
structure Terminated (α : Type) (eot : α) where
  chars : List α
  notMem : eot ∉ chars

namespace Terminated

variable {α β : Type} {eot : α} {stop legal kind : α → Bool} {p : Nat}

def read (s : Terminated α eot) (p : Nat) : Outcome α :=
  match (s.chars ++ [eot])[p]? with
  | none => .fault
  | some c => .ok c

/-- The text from one position to another one. -/
def slice (s : Terminated α eot) (first last : Nat) : List α :=
  (s.chars.drop first).take (last - first)

theorem read_eq (s : Terminated α eot) (hp : p ≤ s.chars.length) :
    s.read p = .ok ((s.chars.drop p).headD eot) := by
  have hget : (s.chars ++ [eot])[p]? = some ((s.chars.drop p).headD eot) := by
    rw [List.headD_eq_head?_getD, List.head?_drop]
    rcases Nat.lt_or_eq_of_le hp with hlt | rfl
    · rw [List.getElem?_append_left hlt, List.getElem?_eq_getElem hlt]
      rfl
    · simp
  rw [read, hget]

theorem le_of_read {s : Terminated α eot} {c : α} (h : s.read p = .ok c) : p ≤ s.chars.length := by
  rw [read] at h
  split at h
  next => cases h
  next c' hget =>
    have hlt := (List.getElem?_eq_some_iff.mp hget).1
    rw [List.length_append, List.length_singleton] at hlt
    exact Nat.lt_succ_iff.mp hlt

/-- The loop that goes forward from a position. -/
def forward (s : Terminated α eot) (body : Nat → α → Outcome (Option β)) (p : Nat) : Outcome β :=
  match _h : s.read p with
  | .fault => .fault
  | .reject => .reject
  | .ok c =>
      match body p c with
      | .fault => .fault
      | .reject => .reject
      | .ok (some b) => .ok b
      | .ok none => forward s body (p + 1)
termination_by s.chars.length + 1 - p
decreasing_by
  have hle := le_of_read _h
  omega

theorem forward_eq (s : Terminated α eot) (body : Nat → α → Outcome (Option β))
    (hp : p ≤ s.chars.length) : s.forward body p =
      (body p ((s.chars.drop p).headD eot) >>= fun left =>
        match left with
        | some b => .ok b
        | none => s.forward body (p + 1)) := by
  rw [forward]
  split
  next hread =>
    rw [read_eq s hp] at hread
    cases hread
  next hread =>
    rw [read_eq s hp] at hread
    cases hread
  next c hread =>
    rw [read_eq s hp] at hread
    cases hread
    cases body p ((s.chars.drop p).headD eot) with
    | fault => rfl
    | reject => rfl
    | ok left =>
        cases left with
        | none => rfl
        | some b => rfl

/-- The loop that goes to a character that stops it. -/
def scan (s : Terminated α eot) (stop legal : α → Bool) (p : Nat) : Outcome Nat :=
  s.forward (fun p c => if stop c then .ok (some p) else if legal c then .ok none else .reject) p

theorem scan_eq (s : Terminated α eot) (hlegal : legal eot = false) (hp : p ≤ s.chars.length) :
    s.scan stop legal p =
      match Scanner.scan eot stop legal (s.chars.drop p) with
      | none => .reject
      | some (xs, _) => .ok (p + xs.length) := by
  induction hrest : s.chars.drop p generalizing p with
  | nil =>
      rw [scan, forward_eq s _ hp, hrest, List.headD_nil, hlegal, Scanner.scan]
      by_cases hstop : stop eot = true
      · rw [if_pos hstop, if_pos hstop]
        rfl
      · rw [if_neg hstop, if_neg hstop]
        rfl
  | cons c rest ih =>
      have hlt : p < s.chars.length := by
        have hlength := congrArg List.length hrest
        rw [List.length_drop, List.length_cons] at hlength
        omega
      have hnext : s.chars.drop (p + 1) = rest := by
        rw [← List.drop_drop, hrest]
        rfl
      rw [scan, forward_eq s _ hp, hrest, List.headD_cons, Scanner.scan]
      by_cases hstop : stop c = true
      · rw [if_pos hstop, if_pos hstop]
        rfl
      · rw [if_neg hstop, if_neg hstop]
        by_cases hc : legal c = true
        · rw [if_pos hc, if_pos hc]
          change s.scan stop legal (p + 1) = _
          rw [ih hlt hnext]
          cases Scanner.scan eot stop legal rest with
          | none => rfl
          | some r =>
              change Outcome.ok (p + 1 + r.1.length) = Outcome.ok (p + (c :: r.1).length)
              rw [List.length_cons, Nat.add_assoc, Nat.add_comm 1]
        · rw [if_neg hc, if_neg hc]
          rfl

theorem slice_of_drop {s : Terminated α eot} {xs rest : List α} (h : s.chars.drop p = xs ++ rest) :
    s.slice p (p + xs.length) = xs ∧ s.chars.drop (p + xs.length) = rest := by
  constructor
  · rw [slice, h, Nat.add_sub_cancel_left, List.take_left]
  · rw [← List.drop_drop, h, List.drop_left]

theorem add_length_le {s : Terminated α eot} {xs rest : List α} (hp : p ≤ s.chars.length)
    (h : s.chars.drop p = xs ++ rest) : p + xs.length ≤ s.chars.length := by
  have hlength := congrArg List.length h
  rw [List.length_drop, List.length_append] at hlength
  omega

/-- Both scans fail, or they pass the same characters. -/
theorem scan_cases (s : Terminated α eot) (stop : α → Bool) {legal : α → Bool}
    (hlegal : legal eot = false) (hp : p ≤ s.chars.length) :
    s.scan stop legal p = .reject ∧ Scanner.scan eot stop legal (s.chars.drop p) = none ∨
      ∃ xs rest, s.chars.drop p = xs ++ rest ∧ s.scan stop legal p = .ok (p + xs.length) ∧
        Scanner.scan eot stop legal (s.chars.drop p) = some (xs, rest) ∧
          (∀ c ∈ xs, legal c = true) ∧ stop (rest.headD eot) = true := by
  rw [scan_eq s hlegal hp]
  cases hscan : Scanner.scan eot stop legal (s.chars.drop p) with
  | none => exact .inl ⟨rfl, rfl⟩
  | some r =>
      obtain ⟨hdrop, hxs, hrest⟩ := Scanner.of_scan hscan
      exact .inr ⟨r.1, r.2, hdrop, rfl, rfl, fun c hc => (hxs c hc).2, hrest⟩

/-- The loop that goes back from a position, which is `k` behind the first one. -/
def back (s : Terminated α eot) (kind : α → Bool) (first : Nat) : Nat → Outcome Nat
  | 0 => do
      let _ ← s.read first
      return first
  | k + 1 => do
      let c ← s.read (first + (k + 1))
      if kind c then s.back kind first k else return first + (k + 1)

theorem getElem?_slice (s : Terminated α eot) {first last k : Nat} (hk : first + k < last) :
    (s.slice first last)[k]? = s.chars[first + k]? := by
  rw [slice, List.getElem?_take_of_lt (by omega), List.getElem?_drop]

theorem back_eq (s : Terminated α eot) (kind : α → Bool) {first last k : Nat}
    (hk : first + k < last) (hlast : last ≤ s.chars.length) :
    s.back kind first k = .ok (first + Scanner.scanBack kind (s.slice first last) k) := by
  induction k with
  | zero =>
      rw [back, read_eq s (by omega)]
      rfl
  | succ k ih =>
      have hlt : first + (k + 1) < s.chars.length := Nat.lt_of_lt_of_le hk hlast
      rw [back, read_eq s (Nat.le_of_lt hlt), Outcome.ok_bind, Scanner.scanBack,
        getElem?_slice s hk, List.getElem?_eq_getElem hlt, List.drop_eq_getElem_cons hlt,
        List.headD_cons, Option.any_some]
      split
      next => exact ih (by omega)
      next => rfl

end Terminated

end Cursor
