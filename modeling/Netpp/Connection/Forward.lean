import Netpp.Connection.Ticked

/-!
# The states of a connection

The state of a connection goes from `Established` to `HalfClose` and to `Closed`, or at once
to `Closed`, and never back. The functor of `closeAfterWriteCompleted`, `handleRdhup` and
`forceClose` change it, in any order, and a timeout of an entry of the wheel may come between
them. The write side is shut down, and a half-close entry is added to the wheel, only as the
connection goes to `HalfClose` with nothing to write, and so at most once.
-/

namespace Netpp

/-- The changes of the state of a connection. -/
inductive TcpState.Forward : TcpState → TcpState → Prop
  | stays (s) : Forward s s
  | halfClosed : Forward .Established .HalfClose
  | closed : Forward .HalfClose .Closed
  | aborted : Forward .Established .Closed

theorem TcpState.Forward.trans {s t u : TcpState} (h : Forward s t) (h' : Forward t u) :
    Forward s u := by
  cases h with
  | stays => exact h'
  | halfClosed =>
      cases h' with
      | stays => exact .halfClosed
      | closed => exact .aborted
  | closed =>
      cases h' with
      | stays => exact .closed
  | aborted =>
      cases h' with
      | stays => exact .aborted

theorem TcpState.Forward.to_closed {s : TcpState} (h : Forward .Established s) :
    Forward s .Closed := by
  cases h with
  | stays => exact .aborted
  | halfClosed => exact .closed
  | aborted => exact .stays _

namespace TcpConnection

open TcpState Run

/-- `onTimeout` of an entry, whenever the loop calls it. -/
def timeout (c : TcpConnection) (entry : WheelEntry) : Except Halt TcpConnection :=
  if c.running = [] then
    if c.alive then
      match entry with
      | .idle => .ok { c with functors := c.functors ++ [.closeAfterWriteCompleted] }
      | .halfClose => c.forceClose.mapError .fault
    else .ok c
  else .error .disabled

inductive Occurrence where
  | timed (t : Timed)
  /-- An entry times out, be it in the wheel or not. -/
  | timeout (entry : WheelEntry)

def occur (c : TcpConnection) : Occurrence → Except Halt TcpConnection
  | .timed t => c.timedStep t
  | .timeout entry => c.timeout entry

/-- A bucket of the wheel, if there is a wheel. -/
def wheelBucket (c : TcpConnection) (i : Nat) : List WheelEntry :=
  c.wheel.elim [] fun wheel => wheel.bucket i

/-- `shutdownWrite` is called. -/
def ShutsWrite (c c' : TcpConnection) : Prop := c'.shutdownWrites ≠ c.shutdownWrites

/-- A half-close entry gets into the bucket `i`. -/
def Enters (c c' : TcpConnection) (i : Nat) : Prop :=
  .halfClose ∈ c'.wheelBucket i ∧ .halfClose ∉ c.wheelBucket i

def AddsHalfClose (c c' : TcpConnection) : Prop := ∃ i, Enters c c' i

/-- The connection goes to `HalfClose` with nothing to write. -/
def HalfCloses (c c' : TcpConnection) : Prop :=
  c.state = .Established ∧ c'.state = .HalfClose ∧ c.isWaitWriting = false

/-- `shutdownWrite` is called once, if at all, and one entry is added, if any. Both happen
only if the connection goes to `HalfClose` with nothing to write. -/
structure Orderly (c c' : TcpConnection) : Prop where
  shutdownWrites : c'.shutdownWrites = c.shutdownWrites ∨
    c'.shutdownWrites = c.shutdownWrites + 1
  bucket : ∀ i j, Enters c c' i → Enters c c' j → i = j
  halfCloses : ShutsWrite c c' ∨ AddsHalfClose c c' → HalfCloses c c'

variable {c c' : TcpConnection} {e : Event} {answer : Answer Nat}

theorem Orderly.of_not_enters (hshutdown : c'.shutdownWrites = c.shutdownWrites)
    (hwheel : ∀ i, .halfClose ∈ c'.wheelBucket i → .halfClose ∈ c.wheelBucket i) :
    Orderly c c' where
  shutdownWrites := .inl hshutdown
  bucket i _ hi _ := absurd (hwheel i hi.1) hi.2
  halfCloses := by
    rintro (hshuts | ⟨i, hi⟩)
    · exact absurd hshutdown hshuts
    · exact absurd (hwheel i hi.1) hi.2

/-! ## The wheel -/

theorem mem_of_renewIfAlive {wheel wheel' : TimeWheel WheelEntry} {watched : WheelEntry} {i : Nat}
    (hok : renewIfAlive wheel watched .idle = .ok wheel')
    (h : .halfClose ∈ wheel'.bucket i) : .halfClose ∈ wheel.bucket i := by
  rw [renewIfAlive] at hok
  split at hok
  next =>
    refine TimeWheel.mem_of_mem_renew hok (fun hlock => ?_) h
    simp only [TimeWheel.lock] at hlock
    split at hlock
    next => cases hlock
    next => cases hlock
  next =>
    cases hok
    exact h

/-- The renewal moves the idle entry only. -/
theorem mem_of_renewEntries {wheel wheel' : TimeWheel WheelEntry} {i : Nat}
    (hok : renewEntries wheel = .ok wheel') (h : .halfClose ∈ wheel'.bucket i) :
    .halfClose ∈ wheel.bucket i := by
  obtain ⟨w, hidle, hhalfClose⟩ := Except.exists_of_bind_eq_ok hok
  exact mem_of_renewIfAlive hidle (mem_of_renewIfAlive hhalfClose h)

theorem mem_of_removeEntries {wheel wheel' : TimeWheel WheelEntry} {i : Nat}
    (hok : removeEntries wheel = .ok wheel') (h : .halfClose ∈ wheel'.bucket i) :
    .halfClose ∈ wheel.bucket i := by
  obtain ⟨w, hidle, hhalfClose⟩ := Except.exists_of_bind_eq_ok hok
  exact TimeWheel.mem_of_mem_removeFromWheel hidle
    (TimeWheel.mem_of_mem_removeFromWheel hhalfClose h)

theorem mem_of_turns {f : TimeWheel WheelEntry → Except Fault (TimeWheel WheelEntry)}
    {wheel wheel' : Option (TimeWheel WheelEntry)} {i : Nat}
    (hf : ∀ w w', f w = .ok w' → .halfClose ∈ w'.bucket i → .halfClose ∈ w.bucket i)
    (hturns : Turns f wheel wheel')
    (h : .halfClose ∈ wheel'.elim [] fun w => w.bucket i) :
    .halfClose ∈ wheel.elim [] fun w => w.bucket i := by
  cases wheel with
  | none =>
      cases hturns
      exact h
  | some w =>
      obtain ⟨w', rfl, hok⟩ := hturns
      exact hf w w' hok h

/-! ## A step -/

theorem Stepped.shutdownWrites_cases (h : Stepped c e c') :
    c'.shutdownWrites = c.shutdownWrites ∨
      c'.shutdownWrites = c.shutdownWrites + 1 ∧ HalfCloses c c' := by
  cases h with
  | handler answer ev rest d hrunning hhandle =>
      left
      cases hhandle with
      | rdhup d hrdhup => cases hrdhup <;> rfl
      | receive d hreceive => cases hreceive <;> rfl
      | transmit d htransmit => cases htransmit <;> rfl
      | nothing => rfl
  | functor f rest d hidle hfunctors halive hrun =>
      cases hrun with
      | shutdown wheel hstate hidle => exact .inr ⟨rfl, hstate, rfl, hidle⟩
      | _ => exact .inl rfl
  | _ => exact .inl rfl

/-- Only the functor that shuts the write side down adds a half-close entry. -/
theorem WheelStep.enters (h : WheelStep c e c') :
    (∀ i, .halfClose ∈ c'.wheelBucket i → .halfClose ∈ c.wheelBucket i) ∨
      HalfCloses c c' ∧ ∃ k, ∀ i, Enters c c' i → i = k := by
  cases h with
  | kept hwheel =>
      left
      intro i hi
      rwa [wheelBucket, hwheel] at hi
  | renewed hrenews hwheel =>
      left
      intro i
      exact mem_of_turns (fun _ _ => mem_of_renewEntries) hwheel
  | closed wheel hrenewed hwheel =>
      left
      intro i hi
      have hmem := mem_of_turns (fun _ _ => mem_of_removeEntries) hwheel hi
      rcases hrenewed with rfl | ⟨-, hturns⟩
      · exact hmem
      · exact mem_of_turns (fun _ _ => mem_of_renewEntries) hturns hmem
  | added hshuts hstate hstate' hwheel =>
      right
      obtain ⟨-, hidle⟩ : c.state = .Established ∧ c.isWaitWriting = false := by
        cases e with
        | functor =>
            obtain ⟨-, f, -, hf⟩ := hshuts
            exact hf.2
        | _ => exact hshuts.elim
      refine ⟨⟨hstate, hstate', hidle⟩, ?_⟩
      cases hold : c.wheel with
      | none =>
          refine ⟨0, fun i hi => ?_⟩
          have hmem := hi.1
          rw [wheelBucket, hwheel, hold] at hmem
          cases hmem
      | some wheel =>
          refine ⟨wheel.latestIndex, fun i hi => ?_⟩
          obtain ⟨hmem, hnot⟩ := hi
          rw [wheelBucket, hwheel, hold] at hmem
          rw [wheelBucket, hold] at hnot
          exact (TimeWheel.mem_of_mem_addToWheel hmem).resolve_left hnot

theorem WheelStep.state (h : WheelStep c e c') :
    c'.state = c.state ∨ c.state = .Established ∧ c'.state = .HalfClose ∨ c'.state = .Closed := by
  cases h with
  | kept _ _ _ hstate => exact hstate.imp_right .inl
  | renewed _ _ hstate => exact .inl hstate
  | closed _ _ _ hstate => exact .inr (.inr hstate)
  | added _ hstate hstate' => exact .inr (.inl ⟨hstate, hstate'⟩)

theorem orderly_step (h : c.step e = .ok c') : Orderly c c' := by
  have hcases := (step_ok h).shutdownWrites_cases
  rcases (step_wheel h).enters with hnone | ⟨hhalfCloses, k, hk⟩
  · refine ⟨hcases.imp_right (·.1), fun i _ hi _ => absurd (hnone i hi.1) hi.2, ?_⟩
    rintro (hshuts | ⟨i, hi⟩)
    · exact (hcases.resolve_left hshuts).2
    · exact absurd (hnone i hi.1) hi.2
  · exact ⟨hcases.imp_right (·.1), fun i j hi hj => (hk i hi).trans (hk j hj).symm,
      fun _ => hhalfCloses⟩

/-! ## A timeout and a tick -/

theorem onTimeout_state (c : TcpConnection) (entry : WheelEntry) :
    ((c.onTimeout entry).state = c.state ∨ (c.onTimeout entry).state = .Closed) ∧
      (c.onTimeout entry).shutdownWrites = c.shutdownWrites ∧
        (c.onTimeout entry).wheel = c.wheel := by
  rw [onTimeout.eq_def]
  split
  next =>
    cases entry with
    | idle => exact ⟨.inl rfl, rfl, rfl⟩
    | halfClose => exact ⟨.inr rfl, rfl, rfl⟩
  next => exact ⟨.inl rfl, rfl, rfl⟩

theorem foldl_onTimeout_state (c : TcpConnection) (fired : List WheelEntry) :
    ((fired.foldl onTimeout c).state = c.state ∨ (fired.foldl onTimeout c).state = .Closed) ∧
      (fired.foldl onTimeout c).shutdownWrites = c.shutdownWrites ∧
        (fired.foldl onTimeout c).wheel = c.wheel := by
  induction fired generalizing c with
  | nil => exact ⟨.inl rfl, rfl, rfl⟩
  | cons entry fired ih =>
      obtain ⟨hstate, hshutdown, hwheel⟩ := onTimeout_state c entry
      obtain ⟨hstate', hshutdown', hwheel'⟩ := ih (c.onTimeout entry)
      rw [List.foldl_cons]
      refine ⟨?_, hshutdown'.trans hshutdown, hwheel'.trans hwheel⟩
      rcases hstate' with hsame | hclosed
      · rw [hsame]
        exact hstate
      · exact .inr hclosed

theorem tick_state (h : c.tick = .ok c') :
    (c'.state = c.state ∨ c'.state = .Closed) ∧ Orderly c c' := by
  rw [tick] at h
  cases hwheel : c.wheel with
  | none =>
      rw [hwheel] at h
      cases h
  | some wheel =>
      rw [hwheel] at h
      simp only at h
      split at h
      next =>
        obtain ⟨s, htick, rfl⟩ := Except.exists_of_map_eq_ok (Except.eq_ok_of_mapError_eq_ok h)
        obtain ⟨hstate, hshutdown, hwheel'⟩ :=
          foldl_onTimeout_state { c with wheel := some s.wheel } s.fired
        refine ⟨hstate, .of_not_enters hshutdown fun i hi => ?_⟩
        rw [wheelBucket, hwheel'] at hi
        rw [wheelBucket, hwheel]
        refine TimeWheel.mem_of_mem_tick (fun entry action haction => ?_) htick hi
        rcases (c.behaviour_removing wheel).removes entry with hnone | ⟨hremove, -⟩
        · rw [hnone] at haction
          cases haction
        · exact hremove action haction
      next => cases h

theorem timeout_state {entry : WheelEntry} (h : c.timeout entry = .ok c') :
    (c'.state = c.state ∨ c'.state = .Closed) ∧ Orderly c c' := by
  have hsame : (c.state = c.state ∨ c.state = .Closed) ∧ Orderly c c :=
    ⟨.inl rfl, .of_not_enters rfl fun _ => id⟩
  rw [timeout.eq_def] at h
  split at h
  next =>
    split at h
    next =>
      cases entry with
      | idle =>
          cases h
          exact ⟨.inl rfl, .of_not_enters rfl fun _ => id⟩
      | halfClose =>
          have hclose := Except.eq_ok_of_mapError_eq_ok h
          obtain ⟨hturns, hstate⟩ := forceClose_turns hclose
          obtain ⟨wheel, rfl⟩ := forceClose_ok hclose
          exact ⟨.inr hstate, .of_not_enters rfl fun i =>
            mem_of_turns (fun _ _ => mem_of_removeEntries) hturns⟩
    next =>
      cases h
      exact hsame
  next => cases h

/-! ## Runs -/

/-- Step lemma: the state stays, goes to `HalfClose` or goes to `Closed`. -/
theorem occur_state {o : Occurrence} (h : c.occur o = .ok c') :
    (c'.state = c.state ∨ c.state = .Established ∧ c'.state = .HalfClose ∨
      c'.state = .Closed) ∧ Orderly c c' := by
  cases o with
  | timed t =>
      cases t with
      | event e => exact ⟨(step_wheel h).state, orderly_step h⟩
      | tick =>
          obtain ⟨hstate, horderly⟩ := tick_state h
          exact ⟨hstate.imp_right .inr, horderly⟩
  | timeout entry =>
      obtain ⟨hstate, horderly⟩ := timeout_state h
      exact ⟨hstate.imp_right .inr, horderly⟩

/-- Once it has left `Established`, the connection does not shut down again. -/
theorem not_halfCloses_run (T : TcpConnection → Occurrence → TcpConnection → Prop)
    (hT : ∀ c o c', occur c o = .ok c' → T c o c' → HalfCloses c c') (c : TcpConnection)
    (os : List Occurrence) : AtMostOnce occur T c os := by
  refine atMostOnce_of_invariant (J := fun c => c.state ≠ .Established) ?_ ?_ ?_ c os
  · intro c o c' hleft h
    rcases (occur_state h).1 with hsame | ⟨hestablished, -⟩ | hclosed
    · rwa [hsame]
    · exact absurd hestablished hleft
    · rw [hclosed]
      decide
  · intro c o c' h hholds
    rw [(hT c o c' h hholds).2.1]
    decide
  · intro c o c' hleft h hholds
    exact hleft (hT c o c' h hholds).1

/-- Run lemma: the state of a connection only goes forward, and the write side is shut down
and a half-close entry added at most once. -/
theorem only_forward (epoll : Epoll Nat) (ctlAnswers : Nat → Answer Unit)
    (wheel : Option (TimeWheel WheelEntry)) (ptr : Nat) (fd : Int) (os : List Occurrence) :
    Always occur (Each occur fun c _ c' => Forward c.state c'.state ∧ Orderly c c')
        (makeTcpConnection epoll ctlAnswers wheel ptr fd) os ∧
      AtMostOnce occur (fun c _ c' => ShutsWrite c c')
        (makeTcpConnection epoll ctlAnswers wheel ptr fd) os ∧
      AtMostOnce occur (fun c _ c' => AddsHalfClose c c')
        (makeTcpConnection epoll ctlAnswers wheel ptr fd) os := by
  have hforward {c c' : TcpConnection} {o : Occurrence} (hreached : Forward .Established c.state)
      (h : occur c o = .ok c') : Forward c.state c'.state := by
    rcases (occur_state h).1 with hsame | ⟨hestablished, hhalfClose⟩ | hclosed
    · rw [hsame]
      exact .stays _
    · rw [hestablished, hhalfClose]
      exact .halfClosed
    · rw [hclosed]
      exact hreached.to_closed
  refine ⟨?_, ?_, ?_⟩
  · refine always_each_of_invariant (J := fun c => Forward .Established c.state) ?_ ?_
      (.stays _) os
    · exact fun c o c' hreached h => hreached.trans (hforward hreached h)
    · exact fun c o c' hreached h => ⟨hforward hreached h, (occur_state h).2⟩
  · exact not_halfCloses_run _ (fun c o c' h hshuts => (occur_state h).2.halfCloses (.inl hshuts))
      _ os
  · exact not_halfCloses_run _ (fun c o c' h hadds => (occur_state h).2.halfCloses (.inr hadds))
      _ os

end TcpConnection

end Netpp
