import Netpp.Connection.Effects
import Netpp.Time.Removing

/-!
# The connection and its time wheel

The wheel of the loop ticks between the handlers and functors of the connection.
When the idle entry times out the connection is asked to close, and when the
half-close entry does it is force-closed. The second callback removes its own
entry, which the tick does not survive.

The steps of the connection change its wheel in three ways, which are inverted
here: a handler renews, a force-close removes and a half-close adds an entry.
-/

namespace Netpp

namespace TcpConnection

/-- What `onTimeout` of the entries does to the wheel. -/
def behaviour (c : TcpConnection) (wheel : TimeWheel WheelEntry) :
    TimeWheel.Behaviour WheelEntry where
  onTimeout
    | .idle => []
    | .halfClose =>
        if c.alive then [.remove (wheel.lock .idle), .remove (some .halfClose)] else []
  eraseOnTimeout _ := true

/-- What `onTimeout` of the entries does to the connection, if it is alive. -/
def onTimeout (c : TcpConnection) (entry : WheelEntry) : TcpConnection :=
  if c.alive then
    match entry with
    | .idle => { c with functors := c.functors ++ [.closeAfterWriteCompleted] }
    | .halfClose => c.disconnect
  else c

/-- A tick of the wheel. A wheel without buckets does not start its timer. -/
def tick (c : TcpConnection) : Except Halt TcpConnection :=
  match c.wheel with
  | none => .error .disabled
  | some wheel =>
      if c.running = [] ∧ wheel.bucketSize ≠ 0 then
        ((wheel.tick (c.behaviour wheel)).map fun s =>
          s.fired.foldl onTimeout { c with wheel := some s.wheel }).mapError .fault
      else .error .disabled

inductive Timed where
  | event (e : Event)
  | tick

def timedStep (c : TcpConnection) : Timed → Except Halt TcpConnection
  | .event e => c.step e
  | .tick => c.tick

variable {c c' : TcpConnection} {e : Event}

/-! ## The wheel in a step of the connection -/

/-- `renewWheel`, on the wheel. -/
def renewEntries (wheel : TimeWheel WheelEntry) : Except Fault (TimeWheel WheelEntry) := do
  let wheel ← renewIfAlive wheel .idle .idle
  renewIfAlive wheel .halfClose .idle

/-- The removals of `forceClose`, on the wheel. -/
def removeEntries (wheel : TimeWheel WheelEntry) : Except Fault (TimeWheel WheelEntry) := do
  let wheel ← wheel.removeFromWheel (wheel.lock .idle)
  wheel.removeFromWheel (wheel.lock .halfClose)

/-- The wheel, if there is one, is changed by `f`. -/
def Turns (f : TimeWheel WheelEntry → Except Fault (TimeWheel WheelEntry)) :
    Option (TimeWheel WheelEntry) → Option (TimeWheel WheelEntry) → Prop
  | none, wheel => wheel = none
  | some wheel, wheel' => ∃ w, wheel' = some w ∧ f wheel = .ok w

theorem renewWheel_turns (h : c.renewWheel = .ok c') : Turns renewEntries c.wheel c'.wheel := by
  unfold renewWheel at h
  cases hwheel : c.wheel with
  | none =>
      rw [hwheel] at h
      cases h
      exact hwheel
  | some wheel =>
      rw [hwheel] at h
      obtain ⟨w₁, hidle, h⟩ := Except.exists_of_bind_eq_ok h
      obtain ⟨w₂, hhalfClose, h⟩ := Except.exists_of_bind_eq_ok h
      cases h
      refine ⟨w₂, rfl, ?_⟩
      rw [renewEntries, hidle]
      exact hhalfClose

theorem forceClose_turns (h : c.forceClose = .ok c') :
    Turns removeEntries c.wheel c'.wheel ∧ c'.state = .Closed := by
  obtain ⟨c₁, hremove, rfl⟩ := Except.exists_of_map_eq_ok h
  refine ⟨?_, rfl⟩
  unfold removeFromWheel at hremove
  cases hwheel : c.wheel with
  | none =>
      rw [hwheel] at hremove
      cases hremove
      exact hwheel
  | some wheel =>
      rw [hwheel] at hremove
      obtain ⟨w₁, hidle, hremove⟩ := Except.exists_of_bind_eq_ok hremove
      obtain ⟨w₂, hhalfClose, hremove⟩ := Except.exists_of_bind_eq_ok hremove
      cases hremove
      refine ⟨w₂, rfl, ?_⟩
      rw [removeEntries, hidle]
      exact hhalfClose

/-- After the renewal the handler leaves the wheel, or force-closes. -/
theorem handleIn_turns {answer : Answer Nat} (h : c.handleIn answer = .ok c') :
    ∃ wheel, Turns renewEntries c.wheel wheel ∧
      ((c'.wheel = wheel ∧ c'.state = c.state) ∨
        (Turns removeEntries wheel c'.wheel ∧ c'.state = .Closed)) := by
  obtain ⟨c₁, hrenew, h⟩ := Except.exists_of_bind_eq_ok h
  refine ⟨c₁.wheel, renewWheel_turns hrenew, ?_⟩
  have hstate : c₁.state = c.state := by
    obtain ⟨wheel, rfl⟩ := renewWheel_ok hrenew
    rfl
  obtain ⟨result, hread, h⟩ := Except.exists_of_bind_eq_ok h
  cases result with
  | ok r =>
      obtain ⟨b, taken⟩ := r
      cases h
      exact .inl ⟨rfl, hstate⟩
  | error e =>
      cases e with
      | socketException e =>
          have hclosed := forceClose_turns h
          exact .inr hclosed
      | resourceLimitException e =>
          cases h
          exact .inl ⟨rfl, hstate⟩

theorem handleOut_turns {answer : Answer Nat} (h : c.handleOut answer = .ok c') :
    ∃ wheel, Turns renewEntries c.wheel wheel ∧
      ((c'.wheel = wheel ∧ c'.state = c.state) ∨
        (Turns removeEntries wheel c'.wheel ∧ c'.state = .Closed)) := by
  obtain ⟨c₁, hrenew, h⟩ := Except.exists_of_bind_eq_ok h
  refine ⟨c₁.wheel, renewWheel_turns hrenew, ?_⟩
  have hstate : c₁.state = c.state := by
    obtain ⟨wheel, rfl⟩ := renewWheel_ok hrenew
    rfl
  obtain ⟨result, hwrite, h⟩ := Except.exists_of_bind_eq_ok h
  cases result with
  | ok r =>
      obtain ⟨b, sent, writeCompleted⟩ := r
      cases writeCompleted with
      | false =>
          cases h
          exact .inl ⟨rfl, hstate⟩
      | true =>
          simp only [if_true] at h
          split at h
          · have hclosed := forceClose_turns h
            exact .inr hclosed
          · cases h
            exact .inl ⟨rfl, hstate⟩
  | error e =>
      cases e with
      | socketException e =>
          have hclosed := forceClose_turns h
          exact .inr hclosed
      | resourceLimitException e =>
          cases h
          exact .inl ⟨rfl, hstate⟩

/-- The handler renews the entries of the wheel. -/
def renews (_ : Answer Nat) (ev : EpollEv) : Prop := ev = .IN ∨ ev = .OUT

/-- The functor shuts down the write side and adds the half-close entry. -/
def shutsDown (c : TcpConnection) (f : Functor) : Prop :=
  f = .closeAfterWriteCompleted ∧ c.state = .Established ∧ c.isWaitWriting = false

/-- What a step does to the wheel and to the state. -/
inductive WheelStep (c : TcpConnection) (e : Event) (c' : TcpConnection) : Prop
  | kept (hwheel : c'.wheel = c.wheel) (hrenews : ¬c.onHandler renews e)
      (hshuts : ¬c.onFunctor c.shutsDown e)
      (hstate : c'.state = c.state ∨ c.state = .Established ∧ c'.state = .HalfClose)
  | renewed (hrenews : c.onHandler renews e) (hwheel : Turns renewEntries c.wheel c'.wheel)
      (hstate : c'.state = c.state)
  | closed (wheel)
      (hrenewed : wheel = c.wheel ∨ c.onHandler renews e ∧ Turns renewEntries c.wheel wheel)
      (hwheel : Turns removeEntries wheel c'.wheel) (hstate : c'.state = .Closed)
  | added (hshuts : c.onFunctor c.shutsDown e) (hstate : c.state = .Established)
      (hstate' : c'.state = .HalfClose)
      (hwheel : c'.wheel = c.wheel.map (·.addToWheel .halfClose))

theorem handler_wheel {answer : Answer Nat} {ev : EpollEv} {rest : List EpollEv}
    (hrunning : c.running = ev :: rest)
    (h : handle { c with running := rest } answer ev = .ok c') :
    WheelStep c (.handler answer) c' := by
  have hrenews : c.onHandler renews (.handler answer) ↔ ev = .IN ∨ ev = .OUT :=
    onHandler_of_running hrunning
  cases ev with
  | IN =>
      obtain ⟨wheel, hrenewed, ⟨hwheel, hstate⟩ | ⟨hwheel, hstate⟩⟩ := handleIn_turns h
      · exact .renewed (hrenews.mpr (.inl rfl)) (hwheel ▸ hrenewed) hstate
      · exact .closed wheel (.inr ⟨hrenews.mpr (.inl rfl), hrenewed⟩) hwheel hstate
  | OUT =>
      obtain ⟨wheel, hrenewed, ⟨hwheel, hstate⟩ | ⟨hwheel, hstate⟩⟩ := handleOut_turns h
      · exact .renewed (hrenews.mpr (.inr rfl)) (hwheel ▸ hrenewed) hstate
      · exact .closed wheel (.inr ⟨hrenews.mpr (.inr rfl), hrenewed⟩) hwheel hstate
  | RDHUP =>
      have hnot : ¬c.onHandler renews (.handler answer) := by simp [hrenews]
      simp only [handle, handleRdhup] at h
      split at h
      · rename_i hestablished
        split at h
        · cases h
          exact .kept rfl hnot id (.inr ⟨hestablished, rfl⟩)
        · obtain ⟨hwheel, hstate⟩ := forceClose_turns h
          exact .closed c.wheel (.inl rfl) hwheel hstate
      · cases h
        exact .kept rfl hnot id (.inl rfl)
  | _ =>
      cases h
      exact .kept rfl (by simp [hrenews]) id (.inl rfl)

theorem functor_wheel {f : Functor} {rest : List Functor} (hfunctors : c.functors = f :: rest)
    (halive : c.alive) : WheelStep c .functor (runFunctor { c with functors := rest } f) := by
  have hshuts : c.onFunctor c.shutsDown .functor ↔ c.shutsDown f :=
    onFunctor_of_functors hfunctors halive
  cases f with
  | sendInLoop covers => exact .kept rfl id (by simp [hshuts, shutsDown]) (.inl rfl)
  | closeAfterWriteCompleted =>
      by_cases hstate : c.state = .Established
      · cases hwaiting : c.isWaitWriting with
        | true =>
            apply WheelStep.kept
            · simp [runFunctor, closeFunctor, hstate]
            · exact id
            · simp [hshuts, shutsDown, hwaiting]
            · simp [runFunctor, closeFunctor, hstate]
        | false =>
            apply WheelStep.added
            · exact hshuts.mpr ⟨rfl, hstate, hwaiting⟩
            · exact hstate
            · simp [runFunctor, closeFunctor, hstate, deactivate]
            · simp [runFunctor, closeFunctor, hstate, deactivate]
      · apply WheelStep.kept
        · simp [runFunctor, closeFunctor, hstate]
        · exact id
        · simp [hshuts, shutsDown, hstate]
        · simp [runFunctor, closeFunctor, hstate]

/-- Step lemma: the wheel in a step of the connection. -/
theorem step_wheel (h : c.step e = .ok c') : WheelStep c e c' := by
  cases hstep : step_ok h with
  | handler answer ev rest d hrunning _ =>
      simp only [step, hrunning] at h
      exact handler_wheel hrunning (Except.eq_ok_of_mapError_eq_ok h)
  | functor f rest d hidle hfunctors halive _ =>
      simp only [step, if_pos hidle, hfunctors, if_pos halive] at h
      cases h
      exact functor_wheel hfunctors halive
  | expired f rest hfunctors hdead => exact .kept rfl id (fun h => hdead h.1) (.inl rfl)
  | _ => exact .kept rfl id id (.inl rfl)

/-! ## A tick -/

theorem behaviour_removing (c : TcpConnection) (wheel : TimeWheel WheelEntry) :
    TimeWheel.Removing (c.behaviour wheel) where
  erases _ := rfl
  removes entry := by
    cases entry with
    | idle => exact .inl rfl
    | halfClose =>
        cases halive : c.alive with
        | false => exact .inl (by simp [behaviour, halive])
        | true =>
            right
            simp [behaviour, halive]

/-- Entries whose callbacks leave the wheel alone ask the connection to close, or do
nothing. -/
theorem foldl_onTimeout {wheel : TimeWheel WheelEntry} {fired : List WheelEntry}
    (h : ∀ entry ∈ fired, (c.behaviour wheel).onTimeout entry = []) :
    ∃ closes, (∀ f ∈ closes, f = .closeAfterWriteCompleted) ∧
      fired.foldl onTimeout c = { c with functors := c.functors ++ closes } := by
  induction fired generalizing c with
  | nil => exact ⟨[], by simp, by simp⟩
  | cons entry fired ih =>
      have hentry := h entry (List.mem_cons_self ..)
      have hrest := fun entry' hmem => h entry' (List.mem_cons_of_mem _ hmem)
      cases halive : c.alive with
      | false =>
          obtain ⟨closes, hcloses, hfold⟩ := ih hrest
          have hsame : c.onTimeout entry = c := by simp [onTimeout, halive]
          refine ⟨closes, hcloses, ?_⟩
          rw [List.foldl_cons, hsame]
          exact hfold
      | true =>
          cases entry with
          | halfClose => simp [behaviour, halive] at hentry
          | idle =>
              obtain ⟨closes, hcloses, hfold⟩ :=
                ih (c := { c with functors := c.functors ++ [.closeAfterWriteCompleted] }) hrest
              refine ⟨.closeAfterWriteCompleted :: closes, ?_, ?_⟩
              · intro f hf
                rcases List.mem_cons.mp hf with rfl | hmem
                · rfl
                · exact hcloses f hmem
              · have hasked : c.onTimeout .idle =
                    { c with functors := c.functors ++ [.closeAfterWriteCompleted] } := by
                  simp [onTimeout, halive]
                rw [List.foldl_cons, hasked, hfold]
                simp only [List.append_assoc, List.singleton_append]

/-- A tick of a placed wheel that succeeds turns the wheel as if the callbacks did
nothing, and may ask the connection to close. -/
theorem tick_ok {wheel : TimeWheel WheelEntry} (hwheel : c.wheel = some wheel)
    (hwf : wheel.WellFormed) (hplaced : wheel.Placed) (h : c.tick = .ok c') :
    ∃ s closes, wheel.tick (TimeWheel.adding fun _ => []) = .ok s ∧
      wheel.begin.wheel.Loses s.wheel ∧ (∀ f ∈ closes, f = .closeAfterWriteCompleted) ∧
        c' = { c with wheel := some s.wheel, functors := c.functors ++ closes } := by
  unfold tick at h
  rw [hwheel] at h
  simp only at h
  split at h
  · obtain ⟨s, htick, hfold⟩ := Except.exists_of_map_eq_ok (Except.eq_ok_of_mapError_eq_ok h)
    obtain ⟨hadding, hloses, hfired⟩ := (c.behaviour_removing wheel).tick hwf hplaced htick
    obtain ⟨closes, hcloses, hfold'⟩ :=
      foldl_onTimeout (c := { c with wheel := some s.wheel }) hfired
    exact ⟨s, closes, hadding, hloses, hcloses, hfold.symm.trans hfold'⟩
  · cases h

end TcpConnection

end Netpp
