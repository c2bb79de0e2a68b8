import Netpp.Connection.Forward
import Netpp.Time.SharedWheel

/-!
# Pending output

Bytes that the user has written wait in `m_writeArray` until `sendmsg` accepts
them. While there are such bytes, and every write has been announced by the
functor of `sendInLoop`, the connection should wait for `EPOLLOUT` and neither
shut its write side down nor close. Two branches give them up: that of
`handleOut` after `SocketIO::write` has returned `true`, and a timeout of the
half-close entry. A connection gets this entry when it shuts its write side down
with nothing pending, but the user may go on writing.
-/

namespace Netpp

namespace TcpConnection

variable {c c' : TcpConnection} {e : Event} {o : Occurrence} {answer : Answer Nat}

/-- The functor of `sendInLoop` has been processed for every write. -/
def allAnnounced (c : TcpConnection) : Prop :=
  c.history.announced = c.history.written.length

/-- Written bytes are still stored. They are those of `m_writeArray`, into which
`TcpChannel::writer()` writes, whatever array `handleOut` passes to `sendmsg` (`toSend`): it is
the user's bytes that must not be abandoned. -/
def pending (c : TcpConnection) : Prop := c.channel.writeArray.readableBytes ≠ 0

/-- The connection waits for `EPOLLOUT` while there is pending output. -/
def WaitsWriting (c : TcpConnection) : Prop :=
  c.state ≠ .Closed → c.allAnnounced → c.pending →
    c.isWaitWriting = true ∧ c.epollEvent.watchingEvents .OUT = true

/-- The occurrence is an event, of which `P` holds. -/
def onEvent (P : Event → Prop) : Occurrence → Prop
  | .timed (.event e) => P e
  | _ => False

/-- The step from `c` to `c'` does not abandon pending output. -/
structure KeepsPending (c : TcpConnection) (o : Occurrence) (c' : TcpConnection) : Prop where
  waits : c'.WaitsWriting
  stays : c.state ≠ .Closed → c.allAnnounced → c.pending → ¬onEvent (c.onHandler c.raises) o →
    c'.shutdownWrites = c.shutdownWrites ∧ c'.state ≠ .Closed

/-- The connection lives, and the next tick reaches its half-close entry. -/
def halfCloseDue (c : TcpConnection) : Prop :=
  c.alive = true ∧ ∃ wheel, c.wheel = some wheel ∧ .halfClose ∈ wheel.begin.wheel.scanned

/-- The half-close entry of the living connection times out. -/
def halfCloseTimesOut (c : TcpConnection) : Occurrence → Prop
  | .timed (.event _) => False
  | .timed .tick => c.halfCloseDue
  | .timeout entry => c.alive = true ∧ entry = .halfClose

/-- While there is pending output, `SocketIO::write` does not succeed and the
half-close entry does not time out. -/
def Undisturbed (c : TcpConnection) (o : Occurrence) : Prop :=
  c.state ≠ .Closed → c.allAnnounced → c.pending →
    ¬onEvent (c.onHandler completes) o ∧ ¬c.halfCloseTimesOut o

/-- `SocketIO::write` does not succeed while there is pending output. -/
def AcceptsNothing (c : TcpConnection) (e : Event) : Prop :=
  c.state ≠ .Closed → c.allAnnounced → c.pending → ¬c.onHandler completes e

/-! ## Announcements -/

/-- No functor announces bytes that have not been written. -/
structure Counted (c : TcpConnection) : Prop where
  announced_le : c.history.announced ≤ c.history.written.length
  covers_le : ∀ covers, .sendInLoop covers ∈ c.functors → covers ≤ c.history.written.length

theorem Counted.step (h : c.Counted) (hstep : Stepped c e c') : c'.Counted := by
  cases hstep with
  | write data b hmemory hwrite =>
      have hlength : c.history.written.length ≤ (c.history.written ++ data).length := by simp
      refine ⟨h.announced_le.trans hlength, ?_⟩
      intro covers hmem
      exact (h.covers_le covers hmem).trans hlength
  | send functors hfunctors =>
      refine ⟨h.announced_le, ?_⟩
      intro covers hmem
      rcases hfunctors with rfl | rfl
      · exact h.covers_le covers hmem
      · rcases List.mem_append.mp hmem with hmem | hmem
        · exact h.covers_le covers hmem
        · rw [List.mem_singleton] at hmem
          cases hmem
          exact le_rfl
  | close functors hfunctors =>
      refine ⟨h.announced_le, ?_⟩
      intro covers hmem
      rcases hfunctors with rfl | rfl
      · exact h.covers_le covers hmem
      · rcases List.mem_append.mp hmem with hmem | hmem
        · exact h.covers_le covers hmem
        · rw [List.mem_singleton] at hmem
          cases hmem
  | handler answer ev rest d hrunning hhandle =>
      cases hhandle with
      | rdhup d hrdhup => cases hrdhup <;> exact ⟨h.announced_le, h.covers_le⟩
      | receive d hreceive => cases hreceive <;> exact ⟨h.announced_le, h.covers_le⟩
      | transmit d htransmit => cases htransmit <;> exact ⟨h.announced_le, h.covers_le⟩
      | nothing => exact ⟨h.announced_le, h.covers_le⟩
  | functor f rest d hidle hfunctors halive hrun =>
      have hrest : ∀ covers, .sendInLoop covers ∈ rest → covers ≤ c.history.written.length :=
        fun covers hmem => h.covers_le covers (hfunctors ▸ List.mem_cons_of_mem f hmem)
      cases hrun with
      | send covers =>
          have hcovers := h.covers_le covers (hfunctors ▸ List.mem_cons_self ..)
          exact ⟨max_le h.announced_le hcovers, hrest⟩
      | halfClosed => exact ⟨h.announced_le, hrest⟩
      | shutdown => exact ⟨h.announced_le, hrest⟩
      | ignored => exact ⟨h.announced_le, hrest⟩
  | expired f rest hfunctors =>
      exact ⟨h.announced_le, fun covers hmem =>
        h.covers_le covers (hfunctors ▸ List.mem_cons_of_mem f hmem)⟩
  | _ => exact ⟨h.announced_le, h.covers_le⟩

/-! ## Waiting -/

/-- Step lemma: the connection goes on waiting while nothing is accepted. -/
theorem WaitsWriting.step (h : c.WaitsWriting) (hunfilled : c.Unfilled) (hcounted : c.Counted)
    (hstep : Stepped c e c') (haccepts : c.AcceptsNothing e) : c'.WaitsWriting := by
  intro hopen hannounced hpending
  cases hstep with
  | write data b hmemory hwrite =>
      have hnothing : data = [] := by
        have hle := hcounted.announced_le
        change c.history.announced = (c.history.written ++ data).length at hannounced
        rw [List.length_append] at hannounced
        exact List.length_eq_zero_iff.mp (by omega)
      subst hnothing
      apply h hopen
      · change c.history.announced = (c.history.written ++ []).length at hannounced
        rwa [List.append_nil] at hannounced
      · intro hempty
        exact hpending (ByteArray.writeRaw_nil_readableBytes hwrite hempty)
  | handler answer ev rest d hrunning hhandle =>
      cases hhandle with
      | rdhup d hrdhup =>
          cases hrdhup with
          | closed => exact absurd rfl hopen
          | halfClosed hstate hwaiting =>
              have hopen₀ : c.state ≠ .Closed := ne_of_eq_of_ne hstate (by decide)
              obtain ⟨hwait, hout⟩ := h hopen₀ hannounced hpending
              exact ⟨hwait, by simp [deactivate, EpollEvent.deactivate, hout]⟩
          | ignored hstate =>
              obtain ⟨hwait, hout⟩ := h hopen hannounced hpending
              exact ⟨hwait, by simp [deactivate, EpollEvent.deactivate, hout]⟩
      | receive d hreceive =>
          cases hreceive with
          | received wheel b taken hread =>
              exact h hopen hannounced fun hempty =>
                hpending (ByteArray.read_readableBytes hread hempty)
          | refused => exact absurd rfl hopen
          | limited => exact h hopen hannounced hpending
      | transmit d htransmit =>
          have hrest := hunfilled.handling rest
          cases htransmit with
          | finished wheel b sent hwrite hstate =>
              obtain ⟨-, hcompletes⟩ := hrest.write hwrite wheel
              exact absurd ((onHandler_of_running hrunning).mpr hcompletes)
                (haccepts hopen hannounced hpending)
          | closed => exact absurd rfl hopen
          | unfinished => exact h hopen hannounced hpending
          | reset => exact absurd rfl hopen
          | limited => exact h hopen hannounced hpending
      | nothing => exact h hopen hannounced hpending
  | functor f rest d hidle hfunctors halive hrun =>
      cases hrun with
      | send covers => exact ⟨rfl, by simp [sendFunctor, active, EpollEvent.active]⟩
      | halfClosed hstate hwaiting =>
          exact h (ne_of_eq_of_ne hstate (by decide)) hannounced hpending
      | shutdown wheel hstate hidle =>
          have hwait := (h (ne_of_eq_of_ne hstate (by decide)) hannounced hpending).1
          change c.isWaitWriting = _ at hidle
          rw [hidle] at hwait
          cases hwait
      | ignored => exact h hopen hannounced hpending
  | _ => exact h hopen hannounced hpending

/-- The write side is not shut down while the connection waits to write. -/
theorem Stepped.shutdownWrites (h : Stepped c e c') (hwait : c.isWaitWriting = true) :
    c'.shutdownWrites = c.shutdownWrites := by
  cases h with
  | handler answer ev rest d hrunning hhandle =>
      cases hhandle with
      | rdhup d hrdhup => cases hrdhup <;> rfl
      | receive d hreceive => cases hreceive <;> rfl
      | transmit d htransmit => cases htransmit <;> rfl
      | nothing => rfl
  | functor f rest d hidle hfunctors halive hrun =>
      cases hrun with
      | shutdown wheel hstate hidle =>
          change c.isWaitWriting = _ at hidle
          rw [hwait] at hidle
          cases hidle
      | _ => rfl
  | _ => rfl

/-- A step of a connection that waits closes it only by an exception. -/
theorem WaitsWriting.stays (h : c.WaitsWriting) (hunfilled : c.Unfilled)
    (hstep : Stepped c e c') (haccepts : c.AcceptsNothing e) (hopen : c.state ≠ .Closed)
    (hannounced : c.allAnnounced) (hpending : c.pending) (hraises : ¬c.onHandler c.raises e) :
    c'.shutdownWrites = c.shutdownWrites ∧ c'.state ≠ .Closed := by
  have hwait := (h hopen hannounced hpending).1
  refine ⟨hstep.shutdownWrites hwait, ?_⟩
  intro hclosed
  rcases (hstep.effects hunfilled).closed.mp hclosed with hclosed | hcloses
  · exact hopen hclosed
  · cases e with
    | handler answer =>
        obtain ⟨ev, hrunning, hraise | ⟨hcompletes, -⟩ | ⟨-, -, hidle⟩⟩ := hcloses
        · exact hraises ⟨ev, hrunning, hraise⟩
        · exact haccepts hopen hannounced hpending ⟨ev, hrunning, hcompletes⟩
        · rw [hwait] at hidle
          cases hidle
    | _ => exact hcloses

/-- When `SocketIO::write` succeeds, the connection stops waiting and keeps the
bytes that the user has written. -/
theorem Stepped.completed (hunfilled : c.Unfilled) (h : Stepped c e c')
    (hcompletes : c.onHandler completes e) :
    c'.isWaitWriting = false ∧ c'.channel.writeArray = c.channel.writeArray ∧
      c'.history.announced = c.history.announced ∧ c'.history.written = c.history.written := by
  cases h with
  | handler answer ev rest d hrunning hhandle =>
      rw [onHandler_of_running hrunning] at hcompletes
      cases hhandle with
      | transmit d htransmit =>
          have hrest := hunfilled.handling rest
          obtain ⟨room, hstub⟩ := hcompletes
          cases htransmit with
          | finished => exact ⟨rfl, rfl, rfl, rfl⟩
          | closed => exact ⟨rfl, rfl, rfl, rfl⟩
          | unfinished wheel b sent hwrite =>
              obtain ⟨-, hnone⟩ := hrest.write hwrite wheel
              rw [if_neg (by decide), hstub] at hnone
              cases hnone
          | reset wheel err herror =>
              rw [hstub] at herror
              cases herror
          | limited wheel err herror =>
              rw [hstub] at herror
              cases herror
      | nothing ev hev =>
          cases ev with
          | OUT => exact absurd rfl hev.2.2
          | _ => cases hcompletes
      | _ => cases hcompletes
  | _ => cases hcompletes

theorem not_raises_of_completes (h : c.onHandler completes e) : ¬c.onHandler c.raises e := by
  cases e with
  | handler answer =>
      rintro ⟨ev, hrunning, hraises⟩
      obtain ⟨ev', hrunning', hcompletes⟩ := h
      rw [hrunning] at hrunning'
      cases hrunning'
      exact not_registers_of_raises hraises (.inr hcompletes)
  | _ => cases h

/-! ## Timeouts -/

/-- What a tick or a timeout does to the connection, in which its half-close entry times out
if `due` holds. -/
structure TimesOut (c : TcpConnection) (due : Prop) (c' : TcpConnection) : Prop where
  channel : c'.channel = c.channel
  history : c'.history = c.history
  shutdownWrites : c'.shutdownWrites = c.shutdownWrites
  functors : ∀ f ∈ c'.functors, f ∈ c.functors ∨ f = .closeAfterWriteCompleted
  closed : due → c'.state = .Closed
  spared : ¬due → c'.state = c.state ∧ c'.isWaitWriting = c.isWaitWriting ∧
    c'.epollEvent = c.epollEvent

variable {due due' : Prop} {c'' : TcpConnection}

theorem TimesOut.nothing (c : TcpConnection) (hdue : ¬due) : c.TimesOut due c :=
  ⟨rfl, rfl, rfl, fun _ => .inl, fun h => absurd h hdue, fun _ => ⟨rfl, rfl, rfl⟩⟩

/-- The callback of the idle entry asks the connection to close. -/
theorem TimesOut.asks (c : TcpConnection) (hdue : ¬due) :
    c.TimesOut due { c with functors := c.functors ++ [.closeAfterWriteCompleted] } where
  channel := rfl
  history := rfl
  shutdownWrites := rfl
  functors f hf := by
    rcases List.mem_append.mp hf with hold | hnew
    · exact .inl hold
    · exact .inr (List.mem_singleton.mp hnew)
  closed h := absurd h hdue
  spared _ := ⟨rfl, rfl, rfl⟩

theorem TimesOut.disconnects (c : TcpConnection) (wheel : Option (TimeWheel WheelEntry))
    (hdue : due) : c.TimesOut due (disconnect { c with wheel := wheel }) :=
  ⟨rfl, rfl, rfl, fun _ => .inl, fun _ => rfl, fun h => absurd hdue h⟩

/-- A closed connection stays closed. -/
theorem TimesOut.state_of_closed (h : c.TimesOut due c') (hclosed : c.state = .Closed) :
    c'.state = .Closed := by
  by_cases hdue : due
  · exact h.closed hdue
  · rw [(h.spared hdue).1, hclosed]

theorem TimesOut.trans (h : c.TimesOut due c') (h' : c'.TimesOut due' c'') :
    c.TimesOut (due ∨ due') c'' where
  channel := h'.channel.trans h.channel
  history := h'.history.trans h.history
  shutdownWrites := h'.shutdownWrites.trans h.shutdownWrites
  functors f hf := (h'.functors f hf).elim (h.functors f) .inr
  closed hdue := hdue.elim (fun hfirst => h'.state_of_closed (h.closed hfirst)) h'.closed
  spared hdue := by
    rw [not_or] at hdue
    obtain ⟨hstate, hwaiting, hevent⟩ := h.spared hdue.1
    obtain ⟨hstate', hwaiting', hevent'⟩ := h'.spared hdue.2
    exact ⟨hstate'.trans hstate, hwaiting'.trans hwaiting, hevent'.trans hevent⟩

theorem TimesOut.congr (h : c.TimesOut due c') (hdue : due ↔ due') : c.TimesOut due' c' := by
  rwa [propext hdue] at h

theorem onTimeout_timesOut (c : TcpConnection) (entry : WheelEntry) :
    c.TimesOut (c.alive = true ∧ entry = .halfClose) (c.onTimeout entry) := by
  rw [onTimeout.eq_def]
  split
  next halive =>
    cases entry with
    | idle => exact .asks c fun h => by cases h.2
    | halfClose => exact .disconnects c c.wheel ⟨halive, rfl⟩
  next hdead => exact .nothing c fun h => hdead h.1

theorem onTimeout_of_dead (hdead : ¬c.alive = true) (entry : WheelEntry) :
    c.onTimeout entry = c := by
  rw [onTimeout.eq_def, if_neg hdead]

theorem onTimeout_alive (c : TcpConnection) {entry : WheelEntry} (h : entry ≠ .halfClose) :
    (c.onTimeout entry).alive = c.alive := by
  rw [onTimeout.eq_def]
  split
  next =>
    cases entry with
    | idle => rfl
    | halfClose => exact absurd rfl h
  next => rfl

/-- The callbacks of a tick close a living connection if its half-close entry is called. -/
theorem foldl_onTimeout_timesOut (c : TcpConnection) (fired : List WheelEntry) :
    c.TimesOut (c.alive = true ∧ .halfClose ∈ fired) (fired.foldl onTimeout c) := by
  induction fired generalizing c with
  | nil => exact .nothing c fun h => by cases h.2
  | cons entry fired ih =>
      rw [List.foldl_cons]
      refine ((onTimeout_timesOut c entry).trans (ih (c.onTimeout entry))).congr ?_
      rw [List.mem_cons]
      by_cases hentry : entry = .halfClose
      · by_cases halive : c.alive = true
        · simp [hentry, halive]
        · simp [hentry, onTimeout_of_dead halive, halive]
      · have hne : WheelEntry.halfClose ≠ entry := Ne.symm hentry
        simp [onTimeout_alive c hentry, hentry, hne]

/-- A tick that succeeds has called the half-close entry exactly if it has reached it. -/
theorem mem_fired_iff {wheel : TimeWheel WheelEntry} {s : TimeWheel.Scan WheelEntry}
    (hok : wheel.tick (c.behaviour wheel) = .ok s) :
    .halfClose ∈ s.fired ↔ .halfClose ∈ wheel.begin.wheel.scanned := by
  have hidle : ∀ entry, entry ≠ .halfClose → (c.behaviour wheel).onTimeout entry = [] := by
    intro entry hentry
    cases entry with
    | idle => rfl
    | halfClose => exact absurd rfl hentry
  constructor
  · intro hfired
    by_contra hnot
    rw [TimeWheel.tick_silent (fun _ => rfl)
      fun entry hentry => hidle entry fun heq => hnot (heq ▸ hentry)] at hok
    cases hok
    exact hnot hfired
  · intro hscanned
    exact TimeWheel.mem_fired_of_tick (fun _ => rfl) hidle hscanned hok

theorem tick_timesOut (h : c.tick = .ok c') : c.TimesOut c.halfCloseDue c' := by
  rw [tick] at h
  cases hwheel : c.wheel with
  | none =>
      rw [hwheel] at h
      cases h
  | some wheel =>
      rw [hwheel] at h
      simp only at h
      split at h
      next =>
        obtain ⟨s, htick, rfl⟩ := Except.exists_of_map_eq_ok (Except.eq_ok_of_mapError_eq_ok h)
        have htimes := foldl_onTimeout_timesOut { c with wheel := some s.wheel } s.fired
        have hwhole : c.TimesOut (c.alive = true ∧ .halfClose ∈ s.fired)
            (s.fired.foldl onTimeout { c with wheel := some s.wheel }) :=
          ⟨htimes.channel, htimes.history, htimes.shutdownWrites, htimes.functors, htimes.closed,
            htimes.spared⟩
        refine hwhole.congr (and_congr_right fun _ => ?_)
        rw [mem_fired_iff htick, hwheel]
        simp
      next => cases h

theorem timeout_timesOut {entry : WheelEntry} (h : c.timeout entry = .ok c') :
    c.TimesOut (c.alive = true ∧ entry = .halfClose) c' := by
  rw [timeout.eq_def] at h
  split at h
  next =>
    split at h
    next halive =>
      cases entry with
      | idle =>
          cases h
          exact .asks c fun h => by cases h.2
      | halfClose =>
          obtain ⟨wheel, rfl⟩ := forceClose_ok (Except.eq_ok_of_mapError_eq_ok h)
          exact .disconnects c wheel ⟨halive, rfl⟩
    next hdead =>
      cases h
      exact .nothing c fun h => hdead h.1
  next => cases h

theorem TimesOut.unfilled (h : c.TimesOut due c') (hunfilled : c.Unfilled) : c'.Unfilled where
  readArray := h.channel ▸ hunfilled.readArray
  accepted := h.history ▸ hunfilled.accepted
  retrieved := h.history ▸ hunfilled.retrieved

theorem TimesOut.counted (h : c.TimesOut due c') (hcounted : c.Counted) : c'.Counted where
  announced_le := h.history ▸ hcounted.announced_le
  covers_le covers hmem := by
    rw [h.history]
    rcases h.functors _ hmem with hold | hnew
    · exact hcounted.covers_le covers hold
    · cases hnew

theorem TimesOut.waitsWriting (h : c.TimesOut due c') (hwaits : c.WaitsWriting) :
    c'.WaitsWriting := by
  intro hopen hannounced hpending
  have hspared : ¬due := fun hdue => hopen (h.closed hdue)
  obtain ⟨hstate, hwaiting, hevent⟩ := h.spared hspared
  rw [hstate] at hopen
  rw [allAnnounced, h.history] at hannounced
  rw [pending, h.channel] at hpending
  rw [hwaiting, hevent]
  exact hwaits hopen hannounced hpending

/-! ## Nothing is abandoned -/

theorem WaitsWriting.keepsPending_iff (h : c.WaitsWriting) (hunfilled : c.Unfilled)
    (hcounted : c.Counted) (hstep : Stepped c e c') :
    c.KeepsPending (.timed (.event e)) c' ↔ c.AcceptsNothing e := by
  constructor
  · intro hkeeps hopen hannounced hpending hcompletes
    obtain ⟨hidle, harray, hsame, hwritten⟩ := hstep.completed hunfilled hcompletes
    have hopen' :=
      (hkeeps.stays hopen hannounced hpending (not_raises_of_completes hcompletes)).2
    have hwait := (hkeeps.waits hopen' (by rw [allAnnounced, hsame, hwritten, hannounced])
      (by rwa [pending, harray])).1
    rw [hidle] at hwait
    cases hwait
  · intro haccepts
    exact ⟨h.step hunfilled hcounted hstep haccepts, h.stays hunfilled hstep haccepts⟩

theorem TimesOut.keepsPending_iff (h : c.TimesOut (c.halfCloseTimesOut o) c')
    (hwaits : c.WaitsWriting) (hevent : ∀ P, ¬onEvent P o) :
    c.KeepsPending o c' ↔ c.Undisturbed o := by
  constructor
  · intro hkeeps hopen hannounced hpending
    refine ⟨hevent _, fun hdue => ?_⟩
    exact (hkeeps.stays hopen hannounced hpending (hevent _)).2 (h.closed hdue)
  · intro hundisturbed
    refine ⟨h.waitsWriting hwaits, fun hopen hannounced hpending _ => ⟨h.shutdownWrites, ?_⟩⟩
    rw [(h.spared (hundisturbed hopen hannounced hpending).2).1]
    exact hopen

theorem undisturbed_event_iff : c.Undisturbed (.timed (.event e)) ↔ c.AcceptsNothing e :=
  ⟨fun h hopen hannounced hpending => (h hopen hannounced hpending).1,
    fun h hopen hannounced hpending => ⟨h hopen hannounced hpending, id⟩⟩

/-- The invariant. -/
structure Pending (c : TcpConnection) : Prop where
  unfilled : c.Unfilled
  counted : c.Counted
  waits : c.WaitsWriting

/-- Step lemma: the invariant is kept by a step that keeps pending output, and it is known
which steps do. -/
theorem Pending.occur (h : c.Pending) (hok : c.occur o = .ok c') :
    (c.KeepsPending o c' ↔ c.Undisturbed o) ∧ (c.Undisturbed o → c'.Pending) := by
  cases o with
  | timed t =>
      cases t with
      | event e =>
          have hstep := step_ok hok
          rw [undisturbed_event_iff]
          exact ⟨h.waits.keepsPending_iff h.unfilled h.counted hstep, fun haccepts =>
            ⟨h.unfilled.step hstep, h.counted.step hstep,
              h.waits.step h.unfilled h.counted hstep haccepts⟩⟩
      | tick =>
          have htimes := tick_timesOut hok
          exact ⟨htimes.keepsPending_iff (o := .timed .tick) h.waits fun _ => id, fun _ =>
            ⟨htimes.unfilled h.unfilled, htimes.counted h.counted, htimes.waitsWriting h.waits⟩⟩
  | timeout entry =>
      have htimes := timeout_timesOut hok
      exact ⟨htimes.keepsPending_iff (o := .timeout entry) h.waits fun _ => id, fun _ =>
        ⟨htimes.unfilled h.unfilled, htimes.counted h.counted, htimes.waitsWriting h.waits⟩⟩

theorem makeTcpConnection_pending (epoll : Epoll Nat) (ctlAnswers : Nat → Answer Unit)
    (wheel : Option (TimeWheel WheelEntry)) (ptr : Nat) (fd : Int) :
    (makeTcpConnection epoll ctlAnswers wheel ptr fd).Pending where
  unfilled := makeTcpConnection_unfilled epoll ctlAnswers wheel ptr fd
  counted := ⟨le_rfl, fun covers hmem => by cases hmem⟩
  waits _ _ hpending := absurd rfl hpending

/-- In a run of events, ticks and timeouts pending output is never abandoned exactly if
`SocketIO::write` never succeeds and the half-close entry never times out while there is any. -/
theorem keepsPending_iff_undisturbed (epoll : Epoll Nat) (ctlAnswers : Nat → Answer Unit)
    (wheel : Option (TimeWheel WheelEntry)) (ptr : Nat) (fd : Int) (os : List Occurrence) :
    Run.Always occur (Run.Each occur KeepsPending)
        (makeTcpConnection epoll ctlAnswers wheel ptr fd) os ↔
      Run.Always occur (Run.Each occur fun c o _ => c.Undisturbed o)
        (makeTcpConnection epoll ctlAnswers wheel ptr fd) os := by
  apply Run.always_each_iff (J := Pending)
  · exact fun c o c' h hundisturbed hok => (h.occur hok).2 hundisturbed
  · exact fun c o c' h hok => (h.occur hok).1
  · exact makeTcpConnection_pending epoll ctlAnswers wheel ptr fd

/-- A byte is written and announced, and `handleOut` runs: the byte is still
there, but the connection no longer waits for `EPOLLOUT`. -/
theorem keepsPending_fails :
    ¬Run.Always occur (Run.Each occur KeepsPending)
      (makeTcpConnection Epoll.new (fun _ => .done ()) none 0 5)
      [.timed (.event (.write [1])), .timed (.event .send), .timed (.event .functor),
        .timed (.event (.dispatch (· == .OUT))), .timed (.event (.handler (.done 1)))] := by
  intro h
  have hkeeps := ((((h.2 _ rfl).2 _ rfl).2 _ rfl).2 _ rfl).1 _ rfl
  have hopen : TcpState.Established ≠ .Closed := by decide
  have hwait := (hkeeps.waits hopen rfl (one_ne_zero : 1 ≠ 0)).1
  cases hwait

end TcpConnection

end Netpp
