import Mathlib.Data.List.Basic
import Netpp.Epoll.Epoll
import Netpp.Library.Run
import Netpp.Library.Segment

/-!
# Polling

`Epoll::poll` lets the kernel fill the vector `m_activeEvents` with the ready
events and copies their pointers into the vector `channels` of the loop, which
then handles them one after the other. The first vector is kept from poll to
poll and doubled when the kernel has filled it; the second one is made anew, with
four elements, in every iteration of `EventLoopImpl::start`.

Both vectors are indexed without a check by the program. Here an index past the
end is a `PollFault`, so that a run without a fault is one in which every index
that is written or read lies in its vector.
-/

namespace Netpp

/-- Undefined behaviour of an iteration of the loop. -/
inductive PollFault where
  /-- A vector is indexed past its end. -/
  | outOfRange
  /-- A product of two `int`s is not an `int`. -/
  | signedOverflow
  /-- A null pointer is dereferenced. -/
  | nullEvent
  deriving DecidableEq

/-- `::epoll_event`, as the kernel fills it in. -/
structure ReadyEvent (π : Type) where
  events : EventMask
  ptr : π

/-- The vector `m_activeEvents`, whose elements are null until the kernel fills
them in, and the field `activeEvents` of each `EpollEvent`. -/
structure Poller (π : Type) where
  activeEvents : List (Option (ReadyEvent π))
  masks : π → EventMask

/-- `INT_MAX`. -/
def intMax : Int := 2147483647

/-- `static_cast<int>` of a size. -/
def toInt (n : Nat) : Int := (BitVec.ofNat 32 n).toInt

/-- `std::vector::resize`, with null elements. -/
def resize {α : Type*} (xs : List (Option α)) (n : Nat) : List (Option α) :=
  xs.take n ++ List.replicate (n - xs.length) none

namespace Poller

variable {π : Type}

def new : Poller π := ⟨List.replicate 32 none, fun _ _ => false⟩

/-- `stub::epoll_wait`: the kernel hands out at most `maxevents` of the events
that are ready, and refuses a `maxevents` that is not positive. -/
def epollWait (maxevents : Int) : Answer (List (ReadyEvent π)) → Option (List (ReadyEvent π))
  | .failed _ => none
  | .done ready => if maxevents ≤ 0 then none else some (ready.take maxevents.toNat)

/-- `m_activeEvents` when the kernel has filled it in. -/
def filled (s : Poller π) (ready : List (ReadyEvent π)) : List (Option (ReadyEvent π)) :=
  Segment.overwrite s.activeEvents 0 (ready.map some)

/-- The two vectors after a call that returned `nums` events. -/
def expand (nums : Nat) (activeEvents : List (Option (ReadyEvent π)))
    (channels : List (Option π)) :
    Except PollFault (List (Option (ReadyEvent π)) × List (Option π)) :=
  let currentVectorSize := toInt activeEvents.length
  if (nums : Int) = currentVectorSize then
    if intMax < currentVectorSize * 2 then .error .signedOverflow
    -- if event vector is full, expand it
    else if currentVectorSize * 2 < intMax then
      let activeEvents := resize activeEvents (activeEvents.length * 2)
      .ok (activeEvents, resize channels (activeEvents.length * 2))
    else .ok (activeEvents, channels)
  else .ok (activeEvents, channels)

section

variable [DecidableEq π]

/-- The loop over the active events, with `active` of them left from `i` on. -/
def storeLoop : Nat → Nat → Poller π → List (Option π) →
    Except PollFault (Poller π × List (Option π))
  | 0, _, s, channels => .ok (s, channels)
  | active + 1, i, s, channels =>
      match s.activeEvents[i]? with
      | none => .error .outOfRange
      | some none => .error .nullEvent
      | some (some event) =>
          if i < channels.length then
            storeLoop active (i + 1)
              { s with masks := Function.update s.masks event.ptr event.events }
              (channels.set i (some event.ptr))
          else .error .outOfRange

/-- `Epoll::poll`, which yields the number of active events. -/
def poll (s : Poller π) (channels : List (Option π)) (answer : Answer (List (ReadyEvent π))) :
    Except PollFault (Poller π × List (Option π) × Nat) :=
  match epollWait (toInt s.activeEvents.length) answer with
  | none => .ok (s, channels, 0) -- poll next time
  | some ready =>
      match expand ready.length (s.filled ready) channels with
      | .error fault => .error fault
      | .ok (activeEvents, channels) =>
          (storeLoop ready.length 0 { s with activeEvents := activeEvents } channels).map
            fun r => (r.1, r.2, ready.length)

/-- The loop that handles the active channels: each `EpollEvent` that is called,
with the events it is called for. -/
def handleLoop (masks : π → EventMask) (channels : List (Option π)) :
    Nat → Nat → Except PollFault (List (π × EventMask))
  | 0, _ => .ok []
  | activeCount + 1, i =>
      match channels[i]? with
      | none => .error .outOfRange
      | some none => .error .nullEvent
      | some (some event) =>
          (handleLoop masks channels activeCount (i + 1)).map ((event, masks event) :: ·)

/-- One iteration of `EventLoopImpl::start`. No handler touches the vectors, so
the iteration yields what they are called with. -/
def start (s : Poller π) (answer : Answer (List (ReadyEvent π))) :
    Except PollFault (Poller π × List (π × EventMask)) :=
  let activeChannels : List (Option π) := List.replicate 4 none
  match s.poll activeChannels answer with
  | .error fault => .error fault
  | .ok (s', channels, activeCount) =>
      (handleLoop s'.masks channels activeCount 0).map fun calls => (s', calls)

/-- The iteration as a step of the loop. -/
def iterate (s : Poller π) (answer : Answer (List (ReadyEvent π))) : Except PollFault (Poller π) :=
  (s.start answer).map Prod.fst

end

/-! ## The vectors -/

/-- The events that the kernel hands out, none when it fails. -/
def polled (s : Poller π) (answer : Answer (List (ReadyEvent π))) : List (ReadyEvent π) :=
  (epollWait (toInt s.activeEvents.length) answer).getD []

/-- The two cases in which the vector of the loop is long enough: at most four
events, or a full `m_activeEvents` that is doubled. -/
def Fits (s : Poller π) (answer : Answer (List (ReadyEvent π))) : Prop :=
  (s.polled answer).length ≤ 4 ∨
    (s.polled answer).length = s.activeEvents.length ∧
      (s.activeEvents.length * 2 : Int) < intMax

/-- The sizes that `m_activeEvents` can have. -/
def Sized (s : Poller π) : Prop :=
  32 ≤ s.activeEvents.length ∧ s.activeEvents.length ≤ 2147483647

theorem toInt_of_le {n : Nat} (h : n ≤ 2147483647) : toInt n = n := by
  rw [toInt, BitVec.toInt_ofNat']
  apply Int.bmod_eq_of_le_mul_two
  · omega
  · omega

theorem Sized.toInt_eq {s : Poller π} (hs : s.Sized) :
    toInt s.activeEvents.length = s.activeEvents.length := toInt_of_le hs.2

theorem resize_length {α : Type*} (xs : List (Option α)) (n : Nat) :
    (resize xs n).length = n := by
  simp only [resize, List.length_append, List.length_take, List.length_replicate]
  omega

/-- A vector that is not shortened keeps its elements. -/
theorem resize_of_le {α : Type*} {xs : List (Option α)} {n : Nat} (h : xs.length ≤ n) :
    resize xs n = xs ++ List.replicate (n - xs.length) none := by
  rw [resize, List.take_of_length_le h]

theorem epollWait_of_sized {s : Poller π} (hs : s.Sized) {answer : Answer (List (ReadyEvent π))}
    {ready : List (ReadyEvent π)}
    (h : epollWait (toInt s.activeEvents.length) answer = some ready) :
    s.polled answer = ready ∧ ready.length ≤ s.activeEvents.length := by
  refine ⟨by rw [polled, h]; rfl, ?_⟩
  rw [hs.toInt_eq] at h
  cases answer with
  | failed e => cases h
  | done all =>
      simp only [epollWait] at h
      split at h
      · cases h
      · cases h
        rw [List.length_take, Int.toNat_natCast]
        exact Nat.min_le_left _ _

/-- Both vectors grow when the kernel has filled `m_activeEvents`. -/
theorem expand_of_full {activeEvents : List (Option (ReadyEvent π))} (channels : List (Option π))
    (hsize : activeEvents.length ≤ 2147483647)
    (hfull : (activeEvents.length * 2 : Int) < intMax) :
    expand activeEvents.length activeEvents channels =
      .ok (resize activeEvents (activeEvents.length * 2),
        resize channels (activeEvents.length * 2 * 2)) := by
  rw [expand, toInt_of_le hsize, if_pos rfl, if_neg (Int.lt_asymm hfull), if_pos hfull]
  simp only [resize_length]

/-- They stay as they are in every other case that is defined. -/
theorem expand_of_not_full {nums : Nat} {activeEvents : List (Option (ReadyEvent π))}
    (channels : List (Option π)) (hsize : activeEvents.length ≤ 2147483647)
    (hfull : ¬(nums = activeEvents.length ∧ (activeEvents.length * 2 : Int) < intMax)) :
    expand nums activeEvents channels = .ok (activeEvents, channels) ∨
      expand nums activeEvents channels = .error .signedOverflow ∧ nums = activeEvents.length := by
  rw [expand, toInt_of_le hsize]
  by_cases hnums : nums = activeEvents.length
  · have hbig : ¬(activeEvents.length * 2 : Int) < intMax := fun h => hfull ⟨hnums, h⟩
    rw [if_pos (congrArg _ hnums), if_neg hbig]
    by_cases hoverflow : intMax < (activeEvents.length * 2 : Int)
    · exact .inr ⟨if_pos hoverflow, hnums⟩
    · exact .inl (if_neg hoverflow)
  · exact .inl (if_neg fun h => hnums (Int.ofNat_inj.mp h))

/-! ## The two loops -/

theorem handleLoop_eq (masks : π → EventMask) {channels rest : List (Option π)} {ptrs : List π}
    {i : Nat} (hptrs : channels.drop i = ptrs.map some ++ rest) :
    handleLoop masks channels ptrs.length i = .ok (ptrs.map fun ptr => (ptr, masks ptr)) := by
  induction ptrs generalizing i with
  | nil => rfl
  | cons ptr ptrs ih =>
      obtain ⟨hhead, htail⟩ := Segment.getElem?_of_drop_eq_cons hptrs
      simp only [List.length_cons, handleLoop, hhead, ih htail, List.map_cons]
      rfl

variable [DecidableEq π]

/-- The fields `activeEvents` after the loop over `ready`. -/
def activate (masks : π → EventMask) (ready : List (ReadyEvent π)) : π → EventMask :=
  ready.foldl (fun masks event => Function.update masks event.ptr event.events) masks

theorem storeLoop_of_le {ready : List (ReadyEvent π)} {rest : List (Option (ReadyEvent π))}
    {i : Nat} {s : Poller π} {channels : List (Option π)}
    (hready : s.activeEvents.drop i = ready.map some ++ rest)
    (hfits : i + ready.length ≤ channels.length) :
    storeLoop ready.length i s channels =
      .ok ({ s with masks := activate s.masks ready },
        Segment.overwrite channels i (ready.map fun event => some event.ptr)) := by
  induction ready generalizing i s channels with
  | nil => simp [storeLoop, activate]
  | cons event ready ih =>
      obtain ⟨hhead, htail⟩ := Segment.getElem?_of_drop_eq_cons hready
      rw [List.length_cons] at hfits
      have hi : i < channels.length := by omega
      simp only [List.length_cons, storeLoop, hhead, if_pos hi]
      have hloop := @ih (i + 1)
        { s with masks := Function.update s.masks event.ptr event.events }
        (channels.set i (some event.ptr)) htail (by rw [List.length_set]; omega)
      rw [hloop, List.map_cons, Segment.overwrite_cons hi]
      rfl

/-- A vector that is too short stops the loop at the first index past its end. -/
theorem storeLoop_of_lt {ready : List (ReadyEvent π)} {rest : List (Option (ReadyEvent π))}
    {i : Nat} {s : Poller π} {channels : List (Option π)}
    (hready : s.activeEvents.drop i = ready.map some ++ rest)
    (hi : i ≤ channels.length) (hlong : channels.length < i + ready.length) :
    storeLoop ready.length i s channels = .error .outOfRange := by
  induction ready generalizing i s channels with
  | nil => exact absurd hlong (Nat.not_lt.mpr hi)
  | cons event ready ih =>
      obtain ⟨hhead, htail⟩ := Segment.getElem?_of_drop_eq_cons hready
      rw [List.length_cons] at hlong
      simp only [List.length_cons, storeLoop, hhead]
      by_cases h : i < channels.length
      · rw [if_pos h]
        exact ih htail (by rw [List.length_set]; omega) (by rw [List.length_set]; omega)
      · rw [if_neg h]

/-! ## One iteration -/

omit [DecidableEq π] in
theorem filled_eq (s : Poller π) (ready : List (ReadyEvent π)) :
    s.filled ready = ready.map some ++ s.activeEvents.drop ready.length := by
  rw [filled, Segment.overwrite_zero, List.length_map]

omit [DecidableEq π] in
theorem filled_length {s : Poller π} {ready : List (ReadyEvent π)}
    (h : ready.length ≤ s.activeEvents.length) :
    (s.filled ready).length = s.activeEvents.length := by
  rw [filled]
  exact Segment.overwrite_length (by rw [List.length_map]; omega)

/-- The calls of an iteration on the ready events. -/
def calls (masks : π → EventMask) (ready : List (ReadyEvent π)) : List (π × EventMask) :=
  ready.map fun event => (event.ptr, activate masks ready event.ptr)

section Iteration

variable {s : Poller π} {answer : Answer (List (ReadyEvent π))} {ready : List (ReadyEvent π)}
variable {activeEvents rest : List (Option (ReadyEvent π))} {channels channels' : List (Option π)}

theorem poll_of_wait (hwait : epollWait (toInt s.activeEvents.length) answer = some ready)
    (hexpand : expand ready.length (s.filled ready) channels = .ok (activeEvents, channels')) :
    s.poll channels answer =
      (storeLoop ready.length 0 ⟨activeEvents, s.masks⟩ channels').map
        fun r => (r.1, r.2, ready.length) := by
  unfold poll
  generalize epollWait (toInt s.activeEvents.length) answer = waited at hwait ⊢
  rw [hwait]
  simp only [hexpand]

/-- The iteration once the two vectors have their size. -/
theorem start_of_expand (hwait : epollWait (toInt s.activeEvents.length) answer = some ready)
    (hexpand : expand ready.length (s.filled ready) (List.replicate 4 none) =
      .ok (activeEvents, channels)) (hready : activeEvents = ready.map some ++ rest) :
    s.start answer =
      if ready.length ≤ channels.length then
        .ok (⟨activeEvents, activate s.masks ready⟩, calls s.masks ready)
      else .error .outOfRange := by
  have hpoll := poll_of_wait hwait hexpand
  by_cases hroom : ready.length ≤ channels.length
  · have hstore := storeLoop_of_le (i := 0) (s := ⟨activeEvents, s.masks⟩) hready
      (by rwa [Nat.zero_add])
    rw [hstore] at hpoll
    have hdrop : (Segment.overwrite channels 0 (ready.map fun event => some event.ptr)).drop 0 =
        (ready.map ReadyEvent.ptr).map some ++ channels.drop ready.length := by simp
    have hhandle := handleLoop_eq (activate s.masks ready) hdrop
    rw [List.length_map, List.map_map] at hhandle
    rw [if_pos hroom, start, hpoll]
    simp only [Except.map, hhandle]
    rfl
  · have hstore := storeLoop_of_lt (i := 0) (s := ⟨activeEvents, s.masks⟩) hready
      (Nat.zero_le _) (by rw [Nat.zero_add]; exact Nat.not_le.mp hroom)
    rw [hstore] at hpoll
    rw [if_neg hroom, start, hpoll]
    rfl

/-- An iteration whose vectors are long enough handles the events in the order in
which the kernel hands them out. -/
theorem start_of_fits (hs : s.Sized) (hfits : s.Fits answer) :
    ∃ s', s.start answer = .ok (s', calls s.masks (s.polled answer)) ∧ s'.Sized := by
  cases hwait : epollWait (toInt s.activeEvents.length) answer with
  | none =>
      have hpolled : s.polled answer = [] := by rw [polled, hwait]; rfl
      refine ⟨s, ?_, hs⟩
      simp only [start, poll, hwait, hpolled]
      rfl
  | some ready =>
      obtain ⟨hpolled, hlen⟩ := epollWait_of_sized hs hwait
      have hsize := filled_length hlen
      rw [Fits, hpolled] at hfits
      rw [hpolled]
      by_cases hfull : ready.length = s.activeEvents.length ∧
          (s.activeEvents.length * 2 : Int) < intMax
      · have hexpand := expand_of_full (List.replicate 4 (none : Option π))
          (hsize ▸ hs.2) (hsize ▸ hfull.2)
        rw [hsize, ← hfull.1] at hexpand
        have hready : resize (s.filled ready) (ready.length * 2) = ready.map some ++
            (s.activeEvents.drop ready.length ++
              List.replicate (ready.length * 2 - (s.filled ready).length) none) := by
          rw [resize_of_le (by omega), filled_eq, List.append_assoc]
        refine ⟨_, (start_of_expand hwait hexpand hready).trans (if_pos ?_), ?_⟩
        · rw [resize_length]
          omega
        · obtain ⟨hnums, hmax⟩ := hfull
          rw [intMax] at hmax
          rw [Sized, resize_length]
          have := hs.1
          omega
      · have hfour : ready.length ≤ 4 := hfits.resolve_right hfull
        obtain hexpand | ⟨-, hnums⟩ := expand_of_not_full
          (List.replicate 4 (none : Option π)) (hsize ▸ hs.2) (hsize ▸ hfull)
        · refine ⟨_, (start_of_expand hwait hexpand (filled_eq s ready)).trans (if_pos hfour), ?_⟩
          rw [Sized, hsize]
          exact hs
        · have := hs.1
          omega

/-- Otherwise it leaves a vector, or the range of `int`. -/
theorem start_of_not_fits (hs : s.Sized) (hfits : ¬s.Fits answer) :
    ∃ fault, s.start answer = .error fault := by
  cases hwait : epollWait (toInt s.activeEvents.length) answer with
  | none =>
      have hpolled : s.polled answer = [] := by rw [polled, hwait]; rfl
      exact absurd (.inl (by rw [hpolled]; exact Nat.zero_le 4)) hfits
  | some ready =>
      obtain ⟨hpolled, hlen⟩ := epollWait_of_sized hs hwait
      have hsize := filled_length hlen
      rw [Fits, hpolled, not_or] at hfits
      obtain hexpand | ⟨hexpand, -⟩ := expand_of_not_full
        (List.replicate 4 (none : Option π)) (hsize ▸ hs.2) (hsize ▸ hfits.2)
      · exact ⟨.outOfRange,
          (start_of_expand hwait hexpand (filled_eq s ready)).trans (if_neg hfits.1)⟩
      · refine ⟨.signedOverflow, ?_⟩
        unfold start poll
        simp only [hwait, hexpand]

end Iteration

/-! ## Any number of iterations -/

/-- The iteration neither leaves a vector nor the range of `int`. -/
def InBounds (s : Poller π) (answer : Answer (List (ReadyEvent π))) : Prop :=
  ∃ s', s.iterate answer = .ok s'

omit [DecidableEq π] in
theorem new_sized : (new : Poller π).Sized := by
  rw [Sized, new, List.length_replicate]
  omega

theorem inBounds_iff {s : Poller π} (hs : s.Sized) (answer : Answer (List (ReadyEvent π))) :
    s.InBounds answer ↔ s.Fits answer := by
  constructor
  · intro h
    by_contra hfits
    obtain ⟨fault, hstart⟩ := start_of_not_fits hs hfits
    obtain ⟨s', hs'⟩ := h
    rw [iterate, hstart] at hs'
    cases hs'
  · intro hfits
    obtain ⟨s', hstart, -⟩ := start_of_fits hs hfits
    exact ⟨s', by rw [iterate, hstart]; rfl⟩

theorem iterate_sized {s s' : Poller π} {answer : Answer (List (ReadyEvent π))} (hs : s.Sized)
    (hfits : s.Fits answer) (h : s.iterate answer = .ok s') : s'.Sized := by
  obtain ⟨t, hstart, ht⟩ := start_of_fits hs hfits
  rw [iterate, hstart] at h
  cases h
  exact ht

/-- Every index of every iteration lies in its vector exactly if every poll yields
at most four events or fills a vector that is doubled. -/
theorem always_inBounds_iff (answers : List (Answer (List (ReadyEvent π)))) :
    Run.Always iterate InBounds new answers ↔ Run.Always iterate Fits new answers :=
  Run.always_iff_always (fun _ _ _ hs hfits h => iterate_sized hs hfits h)
    (fun _ answer hs => inBounds_iff hs answer) new_sized answers

/-- Five events are ready in the first iteration. -/
theorem not_inBounds_five : ¬Run.Always iterate InBounds (new : Poller Nat)
    [.done ((List.range 5).map (ReadyEvent.mk fun ev => ev == .IN))] := by
  intro h
  obtain ⟨s', hs'⟩ := h.1
  cases hs'

end Poller

end Netpp
