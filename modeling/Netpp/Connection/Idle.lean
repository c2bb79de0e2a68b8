import Netpp.Connection.Kick
import Netpp.Connection.Steps

/-!
# Idle connections

On a wheel of `n` buckets a connection whose handlers are silent for `n - 1` ticks is
asked to close, once. Every `handleIn` and `handleOut` starts the countdown again, and
when the connection is force-closed its idle entry leaves the wheel. The record is the
countdown as the law has it; the entry in the wheel follows it in every run.
-/

namespace Netpp

namespace TcpConnection

/-- The record of the idle entry. -/
structure Idling where
  /-- The ticks since the connection was made or a handler last ran. -/
  silent : Nat
  /-- The entry has timed out. -/
  timedOut : Bool

/-- The connection is open and its idle entry has not timed out. -/
def waits (c : TcpConnection) (r : Idling) : Bool := decide (c.state ≠ .Closed) && !r.timedOut

/-- The next tick is the last one of the countdown. -/
def expires (n : Nat) (c : TcpConnection) (r : Idling) : Bool :=
  c.waits r && decide (r.silent + 1 = n - 1)

def idling (n : Nat) (c : TcpConnection) (e : Timed) (r : Idling) : Idling :=
  match e with
  | .tick =>
      if c.expires n r then { r with timedOut := true } else { r with silent := r.silent + 1 }
  | .event (.handler _) =>
      match c.running with
      | .IN :: _ => { r with silent := 0 }
      | .OUT :: _ => { r with silent := 0 }
      | _ => r
  | .event _ => r

/-- A tick asks the connection to close exactly if it is the last one of the countdown,
and does nothing else but turn the wheel. -/
def AsksIdle (n : Nat) (s : TcpConnection × Idling) : Timed → TcpConnection × Idling → Prop
  | .tick, s' => ∃ wheel, s'.1 = { s.1 with
      wheel := wheel
      functors := s.1.functors ++
        if s.1.expires n s.2 then [.closeAfterWriteCompleted] else [] }
  | .event _, _ => True

/-- The invariant: the age of the idle entry is the countdown. -/
structure Idles (n : Nat) (c : TcpConnection) (r : Idling) (wheel : TimeWheel WheelEntry)
    (ages : Deadline.Ages WheelEntry) : Prop where
  tracks : wheel.Tracks ages
  size : wheel.bucketSize = n
  age : ages .idle = if c.waits r then some r.silent else none
  established : c.state = .Established → ages .halfClose = none
  inLoop : c.state ≠ .Closed → c.inLoop = true

variable {c c' : TcpConnection} {e : Event} {n : Nat} {r : Idling}
variable {w w' : TimeWheel WheelEntry} {ages : Deadline.Ages WheelEntry}

/-! ## The entries -/

/-- An age that starts again. -/
def renewed (age : Option Nat) : Option Nat := age.map fun _ => 0

theorem renewed_renewed (age : Option Nat) : renewed (renewed age) = renewed age := by
  rw [renewed, renewed, Option.map_map]
  rfl

/-- The idle entry keeps its age or starts again, as it does if the entry `watched` is in
the wheel. -/
theorem renewIfAlive_idle (h : w.Tracks ages) (watched : WheelEntry)
    (hok : renewIfAlive w watched .idle = .ok w') :
    ∃ ages', w'.Tracks ages' ∧ w'.bucketSize = w.bucketSize ∧
      ages' .halfClose = ages .halfClose ∧
        (ages' .idle = ages .idle ∨ ages' .idle = renewed (ages .idle)) ∧
          (w.InWheel watched → ages' .idle = renewed (ages .idle)) := by
  unfold renewIfAlive at hok
  by_cases hwatched : w.InWheel watched
  · rw [if_pos (lock_isSome_iff.mpr hwatched)] at hok
    by_cases hidle : w.InWheel .idle
    · obtain ⟨w₁, hrenew, htracks, hsize⟩ := h.renew hidle
      rw [lock_of_inWheel hidle, hrenew] at hok
      cases hok
      obtain ⟨k, hk⟩ := Option.ne_none_iff_exists'.mp fun hnone =>
        (ages_eq_none_iff h).mp hnone hidle
      have hage : Function.update ages .idle (some 0) .idle = renewed (ages .idle) := by
        rw [hk]
        rfl
      exact ⟨_, htracks, hsize, rfl, .inr hage, fun _ => hage⟩
    · rw [lock_of_not_inWheel hidle] at hok
      cases hok
      refine ⟨ages, h, rfl, rfl, .inl rfl, fun _ => ?_⟩
      rw [(ages_eq_none_iff h).mpr hidle]
      rfl
  · rw [if_neg (mt lock_isSome_iff.mp hwatched)] at hok
    cases hok
    exact ⟨ages, h, rfl, rfl, .inl rfl, fun hin => absurd hin hwatched⟩

theorem renewEntries_idle (h : w.Tracks ages) (hok : renewEntries w = .ok w') :
    ∃ ages', w'.Tracks ages' ∧ w'.bucketSize = w.bucketSize ∧
      ages' .halfClose = ages .halfClose ∧ ages' .idle = renewed (ages .idle) := by
  obtain ⟨w₁, hidle, hhalfClose⟩ := Except.exists_of_bind_eq_ok hok
  obtain ⟨ages₁, htracks₁, hsize₁, hother₁, hkept₁, hage₁⟩ := renewIfAlive_idle h .idle hidle
  obtain ⟨ages₂, htracks₂, hsize₂, hother₂, hkept₂, -⟩ :=
    renewIfAlive_idle htracks₁ .halfClose hhalfClose
  refine ⟨ages₂, htracks₂, hsize₂.trans hsize₁, hother₂.trans hother₁, ?_⟩
  have hfirst : ages₁ .idle = renewed (ages .idle) := by
    by_cases hin : w.InWheel .idle
    · exact hage₁ hin
    · rw [(ages_eq_none_iff h).mpr hin] at hkept₁ ⊢
      exact hkept₁.elim id id
  rcases hkept₂ with hsame | hrenewed
  · rw [hsame, hfirst]
  · rw [hrenewed, hfirst, renewed_renewed]

theorem removeEntries_idle (h : w.Tracks ages) (hok : removeEntries w = .ok w') :
    ∃ ages', w'.Tracks ages' ∧ w'.bucketSize = w.bucketSize ∧ ages' .idle = none := by
  obtain ⟨w₁, hidle, hhalfClose⟩ := Except.exists_of_bind_eq_ok hok
  obtain ⟨htracks₁, hsize₁⟩ := removeLocked_tracks h .idle hidle
  obtain ⟨htracks₂, hsize₂⟩ := removeLocked_tracks htracks₁ .halfClose hhalfClose
  refine ⟨_, htracks₂, hsize₂.trans hsize₁, ?_⟩
  rw [Function.update_of_ne (by decide)]
  exact Function.update_self ..

/-! ## The record -/

theorem idling_of_renews (h : c.onHandler renews e) :
    c.idling n (.event e) r = { r with silent := 0 } := by
  cases e with
  | handler answer =>
      obtain ⟨ev, hrunning, hev⟩ := h
      cases hlist : c.running with
      | nil => simp [hlist] at hrunning
      | cons ev' rest =>
          rw [hlist] at hrunning
          cases hrunning
          rcases hev with rfl | rfl
          · simp only [idling, hlist]
          · simp only [idling, hlist]
  | _ => cases h

theorem idling_of_not (h : ¬c.onHandler renews e) : c.idling n (.event e) r = r := by
  cases e with
  | handler answer =>
      cases hlist : c.running with
      | nil => simp only [idling, hlist]
      | cons ev rest =>
          rw [onHandler_of_running hlist] at h
          cases ev <;> simp_all [idling, renews]
  | _ => rfl

theorem not_renews_of_shuts (h : c.onFunctor c.shutsDown e) : ¬c.onHandler renews e := by
  cases e with
  | functor => exact id
  | _ => cases h

theorem waits_of_closed (h : c.state = .Closed) : c.waits r = false := by simp [waits, h]

theorem waits_of_open (h : c.state ≠ .Closed) : c.waits r = !r.timedOut := by simp [waits, h]

/-- A connection that is open and stays open keeps waiting. -/
theorem waits_congr {r' : Idling} (h : c.state = .Closed ↔ c'.state = .Closed)
    (htimedOut : r'.timedOut = r.timedOut) : c'.waits r' = c.waits r := by
  by_cases hclosed : c.state = .Closed
  · rw [waits_of_closed hclosed, waits_of_closed (h.mp hclosed)]
  · rw [waits_of_open hclosed, waits_of_open (mt h.mpr hclosed), htimedOut]

/-! ## Events -/

/-- A connection leaves the loop when it is closed. -/
theorem Stepped.inLoop (h : Stepped c e c') (hopen : c'.state ≠ .Closed) :
    c'.inLoop = c.inLoop := by
  cases h with
  | handler answer ev rest d hrunning hhandle =>
      cases hhandle with
      | rdhup d hrdhup =>
          cases hrdhup with
          | closed => exact absurd rfl hopen
          | halfClosed => rfl
          | ignored => rfl
      | receive d hreceive =>
          cases hreceive with
          | received => rfl
          | refused => exact absurd rfl hopen
          | limited => rfl
      | transmit d htransmit =>
          cases htransmit with
          | finished => rfl
          | closed => exact absurd rfl hopen
          | unfinished => rfl
          | reset => exact absurd rfl hopen
          | limited => rfl
      | nothing => rfl
  | functor f rest d hidle hfunctors halive hrun => cases hrun <;> rfl
  | _ => rfl

/-- Step lemma for the connection. -/
theorem Idles.event (h : Idles n c r w ages) (hw : c.wheel = some w) (hok : c.step e = .ok c') :
    ∃ w' ages', c'.wheel = some w' ∧ Idles n c' (c.idling n (.event e) r) w' ages' := by
  have hstays := (step_ok hok).inLoop
  cases step_wheel hok with
  | kept hwheel hrenews hshuts hstate =>
      have hclosed : c.state = .Closed ↔ c'.state = .Closed := by
        rcases hstate with hsame | ⟨hbefore, hafter⟩
        · rw [hsame]
        · rw [hbefore, hafter]
          decide
      rw [idling_of_not hrenews]
      refine ⟨w, ages, hwheel.trans hw, h.tracks, h.size, ?_, ?_, ?_⟩
      · rw [waits_congr hclosed rfl]
        exact h.age
      · intro hestablished
        rcases hstate with hsame | ⟨-, hhalfClose⟩
        · exact h.established (hsame.symm.trans hestablished)
        · rw [hhalfClose] at hestablished
          cases hestablished
      · intro hopen
        rw [hstays hopen]
        exact h.inLoop (mt hclosed.mp hopen)
  | renewed hrenews hwheel hstate =>
      rw [hw] at hwheel
      obtain ⟨w', hw', hrenew⟩ := hwheel
      obtain ⟨ages', htracks, hsize, hother, hage⟩ := renewEntries_idle h.tracks hrenew
      rw [idling_of_renews hrenews]
      refine ⟨w', ages', hw', htracks, hsize.trans h.size, ?_, ?_, ?_⟩
      · have hwaits : c'.waits { r with silent := 0 } = c.waits r :=
          waits_congr (by rw [hstate]) rfl
        rw [hage, h.age, hwaits]
        split
        · rfl
        · rfl
      · intro hestablished
        rw [hother]
        exact h.established (hstate.symm.trans hestablished)
      · intro hopen
        rw [hstays hopen]
        exact h.inLoop (hstate ▸ hopen)
  | closed wheel hrenewed hwheel hstate =>
      obtain ⟨w₁, ages₁, hw₁, htracks₁, hsize₁⟩ :
          ∃ w₁ ages₁, wheel = some w₁ ∧ w₁.Tracks ages₁ ∧ w₁.bucketSize = n := by
        rcases hrenewed with rfl | ⟨-, hturns⟩
        · exact ⟨w, ages, hw, h.tracks, h.size⟩
        · rw [hw] at hturns
          obtain ⟨w₁, hw₁, hok₁⟩ := hturns
          obtain ⟨ages₁, htracks₁, hsize₁, -⟩ := renewEntries_idle h.tracks hok₁
          exact ⟨w₁, ages₁, hw₁, htracks₁, hsize₁.trans h.size⟩
      rw [hw₁] at hwheel
      obtain ⟨w', hw', hok'⟩ := hwheel
      obtain ⟨ages', htracks, hsize, hage⟩ := removeEntries_idle htracks₁ hok'
      refine ⟨w', ages', hw', htracks, hsize.trans hsize₁, ?_, ?_, fun hopen => absurd hstate hopen⟩
      · rw [hage, waits_of_closed hstate]
        rfl
      · intro hestablished
        rw [hstate] at hestablished
        cases hestablished
  | added hshuts hstate hstate' hwheel =>
      have hnew := (ages_eq_none_iff h.tracks).mp (h.established hstate)
      rw [idling_of_not (not_renews_of_shuts hshuts)]
      have hwheel' : c'.wheel = some (w.addToWheel .halfClose) := by
        rw [hwheel, hw]
        rfl
      refine ⟨w.addToWheel .halfClose, _, hwheel', h.tracks.add hnew, ?_, ?_, ?_, ?_⟩
      · exact (h.tracks.wellFormed.addToWheel_moves .halfClose).bucketSize.trans h.size
      · have hwaits : c'.waits r = c.waits r := waits_congr (by rw [hstate, hstate']; decide) rfl
        rw [Function.update_of_ne (by decide), hwaits]
        exact h.age
      · intro hestablished
        rw [hstate'] at hestablished
        cases hestablished
      · intro hopen
        rw [hstays hopen]
        exact h.inLoop (by rw [hstate]; decide)

/-! ## Ticks -/

/-- Entries whose callbacks leave the wheel alone: each idle entry of a connection that is
alive asks it to close. -/
theorem foldl_onTimeout_silent {wheel : TimeWheel WheelEntry} {fired : List WheelEntry}
    (h : ∀ entry ∈ fired, (c.behaviour wheel).onTimeout entry = []) :
    fired.foldl onTimeout c = { c with
      functors := c.functors ++
        List.replicate (if c.alive then fired.count .idle else 0) .closeAfterWriteCompleted } := by
  induction fired generalizing c with
  | nil => simp
  | cons entry fired ih =>
      have hentry := h entry (List.mem_cons_self ..)
      have hrest := fun entry' hmem => h entry' (List.mem_cons_of_mem _ hmem)
      rw [List.foldl_cons]
      cases halive : c.alive with
      | false =>
          have hsame : c.onTimeout entry = c := by simp [onTimeout, halive]
          rw [hsame, ih hrest, halive]
          rfl
      | true =>
          cases entry with
          | halfClose => simp [behaviour, halive] at hentry
          | idle =>
              have hasked : c.onTimeout .idle =
                  { c with functors := c.functors ++ [.closeAfterWriteCompleted] } := by
                simp [onTimeout, halive]
              have halive' : TcpConnection.alive
                  { c with functors := c.functors ++ [.closeAfterWriteCompleted] } = true := halive
              have hfold :=
                ih (c := { c with functors := c.functors ++ [.closeAfterWriteCompleted] }) hrest
              rw [hasked, hfold, halive', List.count_cons_self]
              simp only [if_true, List.append_assoc, List.singleton_append, List.replicate_succ]

/-- The next tick calls the idle entry exactly if the countdown expires. -/
theorem Idles.due_iff (h : Idles n c r w ages) :
    Deadline.Due (w.bucketSize - 1) ages .idle ↔ c.expires n r = true := by
  rw [Deadline.Due, h.age, h.size, expires]
  cases c.waits r with
  | false => simp
  | true => simp

theorem Idles.expires_iff (h : Idles n c r w ages) :
    c.expires n r = true ↔ .idle ∈ w.begin.wheel.scanned := by
  rw [← h.due_iff, h.tracks.due_iff]

theorem Idles.alive (h : Idles n c r w ages) (hexpires : c.expires n r = true) :
    c.alive = true := by
  have hopen : c.state ≠ .Closed := by
    intro hclosed
    rw [expires, waits_of_closed hclosed] at hexpires
    cases hexpires
  simp [TcpConnection.alive, h.inLoop hopen]

/-- In a tick in which nothing is added the entries that are due leave the wheel. -/
theorem older_nil (p : Nat) (ages : Deadline.Ages WheelEntry) (entry : WheelEntry) :
    Deadline.older p ages (fun _ => []) entry =
      if Deadline.Due p ages entry then none else (ages entry).map (· + 1) := by
  have hadded : ¬Deadline.Added p ages (fun _ => []) entry := by
    rintro ⟨d, -, hd⟩
    cases hd
  split
  case isTrue hdue => exact Deadline.older_of_due hadded hdue
  case isFalse hdue => exact Deadline.older_of_not hadded hdue

/-- Step lemma for the wheel. -/
theorem Idles.tick (h : Idles n c r w ages) (hw : c.wheel = some w) (hok : c.tick = .ok c') :
    AsksIdle n (c, r) .tick (c', c.idling n .tick r) ∧
      ∃ w' ages', c'.wheel = some w' ∧ Idles n c' (c.idling n .tick r) w' ages' := by
  unfold TcpConnection.tick at hok
  simp only [hw] at hok
  split at hok
  case isTrue =>
    obtain ⟨s, htick, hfold⟩ := Except.exists_of_map_eq_ok (Except.eq_ok_of_mapError_eq_ok hok)
    obtain ⟨hadding, -, hsilent⟩ :=
      (c.behaviour_removing w).tick h.tracks.wellFormed h.tracks.placed htick
    have hlegal : w.Legal (.tick fun _ => []) := fun _ _ _ he => absurd he List.not_mem_nil
    obtain ⟨s', hadding', hfired, htracks, hsize⟩ := h.tracks.tick hlegal
    rw [hadding] at hadding'
    cases hadding'
    have hnodup : s.fired.Nodup := by
      rw [hfired]
      exact (TimeWheel.begin_wellFormed h.tracks.wellFormed).nodup _
    have hcount : (if c.alive then s.fired.count .idle else 0) =
        if c.expires n r then 1 else 0 := by
      rw [hnodup.count, hfired]
      by_cases hexpires : c.expires n r = true
      · rw [if_pos (h.alive hexpires), if_pos (h.expires_iff.mp hexpires), if_pos hexpires]
      · rw [if_neg hexpires, if_neg (mt h.expires_iff.mpr hexpires)]
        split
        · rfl
        · rfl
    have hfold' := foldl_onTimeout_silent (c := { c with wheel := some s.wheel }) hsilent
    change _ = { c with
      wheel := some s.wheel
      functors := c.functors ++ List.replicate
        (if c.alive then s.fired.count WheelEntry.idle else 0) _ } at hfold'
    rw [hcount] at hfold'
    rw [hfold'] at hfold
    subst hfold
    refine ⟨⟨some s.wheel, ?_⟩, s.wheel, _, rfl, htracks, hsize.trans h.size, ?_, ?_, h.inLoop⟩
    · split
      · rfl
      · rfl
    · rw [older_nil]
      by_cases hexpires : c.expires n r = true
      · have hwaits : c.waits (c.idling n .tick r) = false := by
          simp [idling, hexpires, waits]
        rw [if_pos (h.due_iff.mpr hexpires)]
        exact (if_neg (by rw [← Bool.not_eq_false]; exact not_not.mpr hwaits)).symm
      · have hidling : c.idling n .tick r = { r with silent := r.silent + 1 } := if_neg hexpires
        rw [if_neg (mt h.due_iff.mp hexpires), h.age, hidling]
        change _ = if c.waits r then some (r.silent + 1) else none
        split
        · rfl
        · rfl
    · intro hestablished
      rw [older_nil, h.established hestablished]
      split
      · rfl
      · rfl
  case isFalse => cases hok

/-! ## Runs -/

/-- The connection has such a wheel. -/
def CountsIdle (n : Nat) (s : TcpConnection × Idling) : Prop :=
  ∃ w ages, s.1.wheel = some w ∧ Idles n s.1 s.2 w ages

theorem CountsIdle.step {s s' : TcpConnection × Idling} {t : Timed} (h : CountsIdle n s)
    (hok : Run.recorded timedStep (idling n) s t = .ok s') :
    CountsIdle n s' ∧ AsksIdle n s t s' := by
  obtain ⟨w, ages, hw, hidles⟩ := h
  obtain ⟨c, r⟩ := s
  obtain ⟨c', r'⟩ := s'
  obtain ⟨hstep, rfl⟩ := Run.recorded_ok hok
  cases t with
  | event e => exact ⟨hidles.event hw hstep, trivial⟩
  | tick =>
      obtain ⟨hasks, hidles'⟩ := hidles.tick hw hstep
      exact ⟨hidles', hasks⟩

end TcpConnection

end Netpp
