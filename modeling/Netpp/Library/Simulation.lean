import Mathlib.Tactic.Common

/-!
# Systems that reply, and their simulation

A system that replies is a function `step : σ → ι → Except ε (σ × ο)` from a
state and a call to the next state and the reply, or a failure; its abstract
model is a function `answer : τ → ι → τ × ο` that never fails. `replies` and
`answers` run them on a list of calls.

`replies_simulation` is the rule of forward simulation. Its relation may depend
on the calls still to come, so that a bound on the whole run, such as the
number of bytes it will write, can be used up step by step.
-/

namespace Run

variable {σ τ ι ο ε : Type*}

/-- The state and the replies of a run, or the first failure. -/
def replies (step : σ → ι → Except ε (σ × ο)) : σ → List ι → Except ε (σ × List ο)
  | s, [] => .ok (s, [])
  | s, c :: cs =>
      match step s c with
      | .error err => .error err
      | .ok (s', o) => (replies step s' cs).map fun r => (r.1, o :: r.2)

/-- The state and the replies of a run of the abstract model. -/
def answers (answer : τ → ι → τ × ο) : τ → List ι → τ × List ο
  | t, [] => (t, [])
  | t, c :: cs =>
      let r := answers answer (answer t c).1 cs
      (r.1, (answer t c).2 :: r.2)

variable {step : σ → ι → Except ε (σ × ο)} {answer : τ → ι → τ × ο}

@[simp] theorem answers_nil (t : τ) : answers answer t [] = (t, []) := rfl

theorem answers_cons (t : τ) (c : ι) (cs : List ι) :
    answers answer t (c :: cs) =
      ((answers answer (answer t c).1 cs).1,
        (answer t c).2 :: (answers answer (answer t c).1 cs).2) := rfl

/-- One more call. -/
theorem replies_concat {s s' : σ} {cs : List ι} {os : List ο}
    (h : replies step s cs = .ok (s', os)) (c : ι) :
    replies step s (cs ++ [c]) = (step s' c).map fun r => (r.1, os ++ [r.2]) := by
  induction cs generalizing s os with
  | nil =>
      cases h
      rw [List.nil_append, replies]
      cases step s' c with
      | error err => rfl
      | ok r => rfl
  | cons c' cs ih =>
      rw [List.cons_append, replies]
      rw [replies] at h
      cases hc : step s c' with
      | error err =>
          rw [hc] at h
          cases h
      | ok r =>
          rw [hc] at h
          dsimp only at h ⊢
          cases hrest : replies step r.1 cs with
          | error err =>
              rw [hrest] at h
              cases h
          | ok x =>
              rw [hrest] at h
              cases h
              rw [ih hrest]
              cases step x.1 c with
              | error err => rfl
              | ok y => rfl

/-- Forward simulation: if related states give the same reply to the next call
and stay related for the calls after it, the run succeeds with the replies of
the abstract model and ends in related states. -/
theorem replies_simulation (Rel : List ι → σ → τ → Prop)
    (hstep : ∀ c cs s t, Rel (c :: cs) s t →
      ∃ s', step s c = .ok (s', (answer t c).2) ∧ Rel cs s' (answer t c).1)
    (cs : List ι) {s : σ} {t : τ} (h : Rel cs s t) :
    ∃ s', replies step s cs = .ok (s', (answers answer t cs).2) ∧
      Rel [] s' (answers answer t cs).1 := by
  induction cs generalizing s t with
  | nil => exact ⟨s, rfl, h⟩
  | cons c cs ih =>
      obtain ⟨s₁, hok, hrel⟩ := hstep c cs s t h
      obtain ⟨s₂, hrun, hend⟩ := ih hrel
      refine ⟨s₂, ?_, hend⟩
      simp only [replies, hok, hrun]
      rfl

end Run
