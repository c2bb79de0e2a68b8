import Netpp.Library.Except

/-!
# Runs of a partial step function

A system is a function `step : σ → ι → Except ε σ` that takes a state and an
input to the next state, or fails. `final` is the state a list of inputs leads
to, and `Always Q` says that every step the list makes from a state `s` on
satisfies `Q`, a relation between the state before the step and its input; a
step that fails is the last one. A system may keep a record of what has happened
beside its state. A property `P` of the reached states is
`Always (After step P)`, and a relation `T` between the states before and after
the steps that are made is `Always (Each step T)`.

The rules are the induction principles of such systems: an invariant of the
steps holds along every run, and two step properties that agree wherever an
invariant holds, one of them keeping it, agree on every run. A step that leads
into an invariant which excludes it is made at most once.
-/

namespace Run

variable {σ ι ε : Type*}

/-- The state that the inputs lead to, or the first failure. -/
def final (step : σ → ι → Except ε σ) : σ → List ι → Except ε σ
  | s, [] => .ok s
  | s, e :: es =>
      match step s e with
      | .ok s' => final step s' es
      | .error err => .error err

/-- Every step made on the inputs satisfies `Q`. -/
def Always (step : σ → ι → Except ε σ) (Q : σ → ι → Prop) : σ → List ι → Prop
  | _, [] => True
  | s, e :: es => Q s e ∧ ∀ s', step s e = .ok s' → Always step Q s' es

/-- The state after the step, if there is one, satisfies `P`. -/
def After (step : σ → ι → Except ε σ) (P : σ → Prop) (s : σ) (e : ι) : Prop :=
  ∀ s', step s e = .ok s' → P s'

/-- The step, if it is made, satisfies `T`. -/
def Each (step : σ → ι → Except ε σ) (T : σ → ι → σ → Prop) (s : σ) (e : ι) : Prop :=
  ∀ s', step s e = .ok s' → T s e s'

/-- The steps together with a record, which looks at the state before the step. -/
def recorded {ρ : Type*} (step : σ → ι → Except ε σ) (record : σ → ι → ρ → ρ)
    (s : σ × ρ) (e : ι) : Except ε (σ × ρ) :=
  match step s.1 e with
  | .ok s' => .ok (s', record s.1 e s.2)
  | .error err => .error err

theorem recorded_ok {ρ : Type*} {step : σ → ι → Except ε σ} {record : σ → ι → ρ → ρ}
    {s s' : σ × ρ} {e : ι} (h : recorded step record s e = .ok s') :
    step s.1 e = .ok s'.1 ∧ s'.2 = record s.1 e s.2 := by
  unfold recorded at h
  cases hstep : step s.1 e with
  | error err => simp [hstep] at h
  | ok t =>
      simp only [hstep] at h
      cases h
      exact ⟨rfl, rfl⟩

variable {step : σ → ι → Except ε σ} {Q C : σ → ι → Prop} {P J : σ → Prop}
variable {T U : σ → ι → σ → Prop}

theorem final_cons_of_ok {s s' : σ} {e : ι} (h : step s e = .ok s') (es : List ι) :
    final step s (e :: es) = final step s' es := by
  simp [final, h]

theorem final_append_of_ok {s s' : σ} {es : List ι} (h : final step s es = .ok s')
    (fs : List ι) : final step s (es ++ fs) = final step s' fs := by
  induction es generalizing s with
  | nil =>
      cases h
      rfl
  | cons e es ih =>
      cases he : step s e with
      | error err => simp [final, he] at h
      | ok t =>
          rw [final_cons_of_ok he] at h
          rw [List.cons_append, final_cons_of_ok he, ih h]

theorem always_cons (s : σ) (e : ι) (es : List ι) :
    Always step Q s (e :: es) ↔ Q s e ∧ ∀ s', step s e = .ok s' → Always step Q s' es :=
  Iff.rfl

/-- A run can be checked step by step. -/
instance decidableAlways [∀ s e, Decidable (Q s e)] :
    ∀ s es, Decidable (Always step Q s es)
  | _, [] => isTrue trivial
  | s, e :: es =>
      match h : step s e with
      | .ok s' =>
          have := decidableAlways s' es
          decidable_of_iff (Q s e ∧ Always step Q s' es) (by simp [Always, h])
      | .error err => decidable_of_iff (Q s e) (by simp [Always, h])

/-- Inputs that stand for other ones. -/
theorem final_map {κ : Type*} (f : κ → ι) (s : σ) (es : List κ) :
    final step s (es.map f) = final (fun s e => step s (f e)) s es := by
  induction es generalizing s with
  | nil => rfl
  | cons e es ih =>
      rw [List.map_cons, final, final]
      cases step s (f e) with
      | error err => rfl
      | ok t => exact ih t

/-- What holds along a run holds along its continuations. -/
theorem Always.of_append {s s' : σ} (es fs : List ι) (h : Always step Q s (es ++ fs))
    (hfinal : final step s es = .ok s') : Always step Q s' fs := by
  induction es generalizing s with
  | nil =>
      cases hfinal
      exact h
  | cons e es ih =>
      cases he : step s e with
      | error err => simp [final, he] at hfinal
      | ok t =>
          rw [final_cons_of_ok he] at hfinal
          exact ih (h.2 t he) hfinal

/-- An invariant of the steps holds in the final state. -/
theorem final_invariant (hstep : ∀ s e s', J s → step s e = .ok s' → J s')
    {s s' : σ} {es : List ι} (hs : J s) (h : final step s es = .ok s') : J s' := by
  induction es generalizing s with
  | nil =>
      cases h
      exact hs
  | cons e es ih =>
      cases he : step s e with
      | error err => simp [final, he] at h
      | ok t =>
          rw [final_cons_of_ok he] at h
          exact ih (hstep s e t hs he) h

/-- An invariant of the steps that the inputs make. -/
theorem final_invariant_of_mem {s s' : σ} {es : List ι}
    (hstep : ∀ s e s', e ∈ es → J s → step s e = .ok s' → J s') (hs : J s)
    (h : final step s es = .ok s') : J s' := by
  induction es generalizing s with
  | nil =>
      cases h
      exact hs
  | cons e es ih =>
      cases he : step s e with
      | error err => simp [final, he] at h
      | ok t =>
          rw [final_cons_of_ok he] at h
          exact ih (fun s e' s' hmem => hstep s e' s' (List.mem_cons_of_mem e hmem))
            (hstep s e t (List.mem_cons_self ..) hs he) h

/-- An invariant of the steps holds after every step of a run. -/
theorem always_of_invariant (hstep : ∀ s e s', J s → step s e = .ok s' → J s') {s : σ}
    (hs : J s) (es : List ι) : Always step (After step J) s es := by
  induction es generalizing s with
  | nil => trivial
  | cons e es ih =>
      exact ⟨fun s' h => hstep s e s' hs h, fun s' h => ih (hstep s e s' hs h)⟩

/-- On a run that satisfies `M`, two step properties that agree under an invariant, which the
second one keeps. -/
theorem always_iff_of_always {M : σ → ι → Prop}
    (hstep : ∀ s e s', J s → M s e → C s e → step s e = .ok s' → J s')
    (hQC : ∀ s e, J s → M s e → (Q s e ↔ C s e)) {s : σ} (hs : J s) {es : List ι}
    (hM : Always step M s es) : Always step Q s es ↔ Always step C s es := by
  induction es generalizing s with
  | nil => exact Iff.rfl
  | cons e es ih =>
      obtain ⟨hMe, hMrest⟩ := hM
      rw [always_cons, always_cons]
      constructor
      · rintro ⟨hQ, hrest⟩
        have hC := (hQC s e hs hMe).mp hQ
        exact ⟨hC, fun s' h => (ih (hstep s e s' hs hMe hC h) (hMrest s' h)).mp (hrest s' h)⟩
      · rintro ⟨hC, hrest⟩
        exact ⟨(hQC s e hs hMe).mpr hC, fun s' h =>
          (ih (hstep s e s' hs hMe hC h) (hMrest s' h)).mpr (hrest s' h)⟩

theorem always_true (s : σ) (es : List ι) : Always step (fun _ _ => True) s es := by
  induction es generalizing s with
  | nil => trivial
  | cons e es ih => exact ⟨trivial, fun s' _ => ih s'⟩

/-- Two step properties that agree under an invariant, which the second one
keeps, agree on every run. -/
theorem always_iff_always (hstep : ∀ s e s', J s → C s e → step s e = .ok s' → J s')
    (hQC : ∀ s e, J s → (Q s e ↔ C s e)) {s : σ} (hs : J s) (es : List ι) :
    Always step Q s es ↔ Always step C s es :=
  always_iff_of_always (fun s e s' hJ _ => hstep s e s' hJ) (fun s e hJ _ => hQC s e hJ) hs
    (always_true s es)

/-- A step property that a second one implies under an invariant, which the
second one keeps, holds on every run on which the second one does. -/
theorem always_of_always (hstep : ∀ s e s', J s → C s e → step s e = .ok s' → J s')
    (hQ : ∀ s e, J s → C s e → Q s e) {s : σ} (hs : J s) {es : List ι}
    (h : Always step C s es) : Always step Q s es := by
  induction es generalizing s with
  | nil => trivial
  | cons e es ih =>
      exact ⟨hQ s e hs h.1, fun s' he => ih (hstep s e s' hs h.1 he) (h.2 s' he)⟩

theorem Always.mono (hQ : ∀ s e, C s e → Q s e) {s : σ} {es : List ι}
    (h : Always step C s es) : Always step Q s es :=
  always_of_always (J := fun _ => True) (fun _ _ _ _ _ _ => trivial) (fun s e _ => hQ s e)
    trivial h

/-- Two properties of the steps that are made, which agree under an invariant
that the second one keeps, agree on every run. -/
theorem always_each_iff (hstep : ∀ s e s', J s → U s e s' → step s e = .ok s' → J s')
    (hTU : ∀ s e s', J s → step s e = .ok s' → (T s e s' ↔ U s e s')) {s : σ} (hs : J s)
    (es : List ι) : Always step (Each step T) s es ↔ Always step (Each step U) s es := by
  apply always_iff_always _ _ hs
  · intro s e s' hJ hU h
    exact hstep s e s' hJ (hU s' h) h
  · intro s e hJ
    exact forall₂_congr fun s' h => hTU s e s' hJ h

/-- What every step has under an invariant of the steps, the steps of a run have. -/
theorem always_each_of_invariant (hstep : ∀ s e s', J s → step s e = .ok s' → J s')
    (hT : ∀ s e s', J s → step s e = .ok s' → T s e s') {s : σ} (hs : J s) (es : List ι) :
    Always step (Each step T) s es := by
  induction es generalizing s with
  | nil => trivial
  | cons e es ih =>
      exact ⟨fun s' h => hT s e s' hs h, fun s' h => ih (hstep s e s' hs h)⟩

/-- Behind a step of the run that satisfies `T` no other one does. -/
def AtMostOnce (step : σ → ι → Except ε σ) (T : σ → ι → σ → Prop) : σ → List ι → Prop
  | _, [] => True
  | s, e :: es => ∀ s', step s e = .ok s' →
      (T s e s' → Always step (Each step fun s e s' => ¬T s e s') s' es) ∧
        AtMostOnce step T s' es

/-- A step that leads into an invariant which excludes it is made at most once. -/
theorem atMostOnce_of_invariant (hstep : ∀ s e s', J s → step s e = .ok s' → J s')
    (hinto : ∀ s e s', step s e = .ok s' → T s e s' → J s')
    (hout : ∀ s e s', J s → step s e = .ok s' → ¬T s e s') (s : σ) (es : List ι) :
    AtMostOnce step T s es := by
  induction es generalizing s with
  | nil => trivial
  | cons e es ih =>
      intro s' h
      exact ⟨fun hT => always_each_of_invariant hstep hout (hinto s e s' h hT) es, ih s'⟩

/-- A property holds after every step of a run if it holds in the state that each part of the
run from its start leads to. -/
theorem always_after_iff {s : σ} (hs : P s) (es : List ι) : Always step (After step P) s es ↔
    ∀ es', es' <+: es → ∀ s', final step s es' = .ok s' → P s' := by
  induction es generalizing s with
  | nil =>
      refine ⟨fun _ es' hprefix s' h => ?_, fun _ => trivial⟩
      rw [List.prefix_nil.mp hprefix] at h
      cases h
      exact hs
  | cons e es ih =>
      constructor
      · rintro ⟨hafter, hrest⟩ es' hprefix s' h
        rcases List.prefix_cons_iff.mp hprefix with rfl | ⟨es', rfl, htail⟩
        · cases h
          exact hs
        · cases he : step s e with
          | error err => simp [final, he] at h
          | ok t =>
              rw [final_cons_of_ok he] at h
              exact (ih (hafter t he)).mp (hrest t he) es' htail s' h
      · intro h
        have hafter : After step P s e := fun t he =>
          h [e] (List.cons_prefix_cons.mpr ⟨rfl, List.nil_prefix⟩) t (final_cons_of_ok he [])
        refine ⟨hafter, fun t he => (ih (hafter t he)).mpr fun es' hprefix s' hfinal => ?_⟩
        refine h (e :: es') (List.cons_prefix_cons.mpr ⟨rfl, hprefix⟩) s' ?_
        rw [final_cons_of_ok he, hfinal]

/-- A system that makes the steps of another one, seen through `abs`, ends where it does. -/
theorem final_of_simulation {τ ε' : Type*} {step' : τ → ι → Except ε' τ} (abs : σ → τ)
    (hstep : ∀ s e s', J s → step s e = .ok s' → J s' ∧ step' (abs s) e = .ok (abs s'))
    {s s' : σ} {es : List ι} (hs : J s) (h : final step s es = .ok s') :
    final step' (abs s) es = .ok (abs s') := by
  induction es generalizing s with
  | nil =>
      cases h
      rfl
  | cons e es ih =>
      cases he : step s e with
      | error err => simp [final, he] at h
      | ok t =>
          obtain ⟨ht, habs⟩ := hstep s e t hs he
          rw [final_cons_of_ok he] at h
          rw [final_cons_of_ok habs]
          exact ih ht h

end Run
