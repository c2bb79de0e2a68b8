import Netpp.Http.HttpParser

/-!
# The retry loop

When llhttp returns a code that `parse` does not know, it copies more and more
stretches into one buffer and tries again. The loop variable starts at zero and is
doubled, and the assignment that would move it on is made under a condition on an
unsigned difference that does not hold there. So every attempt is made on no bytes, no
attempt ends the loop, and the next one is like it.
-/

namespace Netpp

namespace DecoderImpl

/-- The attempts that were intended: each on more stretches than the one before, until
one succeeds or all stretches have been tried. -/
structure Intended (nodeSize : Nat) (attempts : List (Nat × LlhttpErrno)) : Prop where
  some_attempt : attempts ≠ []
  few : attempts.length ≤ Nat.log2 nodeSize + 1
  grows : (attempts.map Prod.fst).Pairwise (· < ·)
  stops : ∀ a ∈ attempts.dropLast, a.2 ≠ .HPE_PAUSED_UPGRADE
  covers : ∀ a, attempts.getLast? = some a → a.1 = nodeSize ∨ a.2 = .HPE_PAUSED_UPGRADE

/-- The loop ends after the intended attempts. -/
def EndsAsIntended (execute : Nat → List UInt8 → Execution) (nodes : List BufferNode)
    (vec : List IOVec) (d : DecoderImpl) (b : ByteArray) : Prop :=
  ∃ fuel s, retryLoop execute nodes vec fuel 0 0 ⟨d, b, false, []⟩ = .ok s ∧
    Intended vec.length s.attempts

/-- Zero is never moved on. -/
theorem copied_zero (nodeSize : Nat) : copied nodeSize 0 = 0 :=
  if_neg (Nat.not_lt_zero _)

theorem setByteArrayLength_zero (r : Execution) (b : ByteArray) :
    setByteArrayLength r b 0 = .ok b := by
  unfold setByteArrayLength
  cases r.errorPos with
  | none => rfl
  | some parsedLength => exact if_neg fun h => Nat.not_lt_zero _ h.2

/-- An attempt on no stretches leaves the array alone. -/
theorem attempt_zero (execute : List UInt8 → Execution) (nodes : List BufferNode)
    (vec : List IOVec) (s : Retry) :
    ∃ d parseSuccess, attempt execute nodes vec 0 s =
      .ok ⟨d, s.array, parseSuccess, s.attempts ++ [(0, (execute []).errno)]⟩ := by
  simp only [attempt, List.take_zero, gather, List.length_nil, setByteArrayLength_zero, bind,
    Except.bind]
  by_cases hpaused : (execute []).errno = .HPE_PAUSED_UPGRADE
  · rw [if_pos hpaused]
    exact ⟨_, _, rfl⟩
  · rw [if_neg hpaused]
    exact ⟨_, _, rfl⟩

/-- Whatever llhttp returns, and however many rounds there are, the loop does not end. -/
theorem retryLoop_diverges (execute : Nat → List UInt8 → Execution) (nodes : List BufferNode)
    (vec : List IOVec) (fuel n : Nat) (s : Retry) :
    retryLoop execute nodes vec fuel n 0 s = .error .diverges := by
  induction fuel generalizing n s with
  | zero => rfl
  | succ fuel ih =>
      obtain ⟨d, parseSuccess, hattempt⟩ := attempt_zero (execute n) nodes vec s
      rw [retryLoop, if_pos (Nat.zero_le _), copied_zero]
      simp only [hattempt, bind, Except.bind]
      exact ih (n + 1) _

/-- The loop ends as intended for no stretches and no answers of llhttp. -/
theorem not_endsAsIntended (execute : Nat → List UInt8 → Execution) (nodes : List BufferNode)
    (vec : List IOVec) (d : DecoderImpl) (b : ByteArray) :
    ¬EndsAsIntended execute nodes vec d b := by
  rintro ⟨fuel, s, hok, -⟩
  rw [retryLoop_diverges] at hok
  cases hok

/-- One stretch of one byte, where every attempt succeeds. -/
theorem endsAsIntended_fails :
    ¬∀ (execute : Nat → List UInt8 → Execution) (nodes : List BufferNode) (vec : List IOVec)
      (d : DecoderImpl) (b : ByteArray), 1 ≤ vec.length →
        EndsAsIntended execute nodes vec d b := by
  intro h
  obtain ⟨fuel, s, hok, -⟩ := h
    (fun _ _ => ⟨.HPE_PAUSED_UPGRADE, some 1, [], .HTTP_GET, 0, 1, 1⟩) [BufferNode.new]
    [⟨0, 0, 1⟩] resetParse ByteArray.new le_rfl
  rw [retryLoop_diverges] at hok
  cases hok

end DecoderImpl

end Netpp
