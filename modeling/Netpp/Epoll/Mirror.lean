import Netpp.Epoll.Epoll
import Netpp.Library.Run

/-!
# The table and the kernel

The table `_events` decides whether a descriptor is added or modified, so it
should say what the kernel has registered. It is changed before the system call
and the failure of the call is swallowed: after a failed registration the table
has an entry that the kernel has not. `KernelAgrees` is the condition under which
a call keeps the two alike, and `mirrored_iff_kernelAgrees` shows that it is
exact. Once they differ at a descriptor, updating it again does not help.
-/

namespace Netpp

namespace Epoll

variable {π : Type*}

/-- A call of the table's interface and the kernel's answer to its `epoll_ctl`. -/
inductive Call (π : Type*) where
  | update (event : EpollEvent π) (answer : Answer Unit)
  | remove (event : EpollEvent π) (answer : Answer Unit)

def step [DecidableEq π] (ep : Epoll π) : Call π → Except Empty (Epoll π)
  | .update event answer => .ok (ep.updateEvent event answer)
  | .remove event answer => .ok (ep.removeEvent event answer)

/-- The table has the descriptors and pointers of the interest list. -/
def Mirrored (ep : Epoll π) : Prop := ∀ fd, ep.events fd = (ep.interest fd).map Prod.fst

/-- The kernel accepts the call, or the call leaves the table alone. -/
def KernelAgrees (ep : Epoll π) : Call π → Prop
  | .update event answer => answer = .done () ∨ ep.events event.watchingFd = some event.ptr
  | .remove event answer => answer = .done () ∨ ep.events event.watchingFd = none

theorem mirrored_new : Mirrored (new : Epoll π) := fun _ => rfl

/-- The interest list changes at the descriptor of the call only. -/
theorem ctlInterest_of_ne (interest : Int → Option (π × EventMask)) (op : CtlOp)
    (event : EpollEvent π) (answer : Answer Unit) {fd : Int} (h : fd ≠ event.watchingFd) :
    ctlInterest interest op event answer fd = interest fd := by
  unfold ctlInterest
  cases ctlAnswer interest op event.watchingFd answer with
  | failed e => rfl
  | done u => cases op <;> exact Function.update_of_ne h _ _

/-- A removal keeps table and kernel alike exactly if the kernel agrees. -/
theorem mirrored_remove_iff {ep : Epoll π} (h : Mirrored ep) (event : EpollEvent π)
    (answer : Answer Unit) :
    Mirrored (ep.removeEvent event answer) ↔ KernelAgrees ep (.remove event answer) := by
  have hfd := h event.watchingFd
  cases hevents : ep.events event.watchingFd with
  | none =>
      have hsame : ep.removeEvent event answer = ep := by
        simp only [removeEvent, hevents]
      rw [hsame]
      exact ⟨fun _ => .inr hevents, fun _ => h⟩
  | some registered =>
      obtain ⟨mask, hmask⟩ : ∃ mask, ep.interest event.watchingFd = some (registered, mask) := by
        rw [hevents] at hfd
        cases hinterest : ep.interest event.watchingFd with
        | none => simp [hinterest] at hfd
        | some entry => exact ⟨entry.2, by simp_all⟩
      cases answer with
      | done u =>
          constructor
          · exact fun _ => .inl rfl
          · intro _ fd
            rw [removeEvent_events]
            simp only [removeEvent, hevents, epollCtl, ctlInterest, ctlAnswer, hmask]
            by_cases hne : fd = event.watchingFd
            · rw [hne, Function.update_self, Function.update_self]
              rfl
            · rw [Function.update_of_ne hne, Function.update_of_ne hne, h fd]
      | failed e =>
          constructor
          · intro hmirrored
            have hleft := hmirrored event.watchingFd
            rw [removeEvent_events, Function.update_self] at hleft
            simp [removeEvent, hevents, epollCtl, ctlInterest, ctlAnswer, hmask] at hleft
          · rintro (hdone | hnone)
            · cases hdone
            · rw [hevents] at hnone
              cases hnone

variable [DecidableEq π]

/-- The pointers of the interest list after an accepted update. -/
theorem updateEvent_interest_done {ep : Epoll π} (h : Mirrored ep) (event : EpollEvent π) :
    (ep.updateEvent event (.done ())).interest event.watchingFd =
      some (event.ptr, event.watchingEvents) := by
  have hfd := h event.watchingFd
  cases hinterest : ep.interest event.watchingFd with
  | none =>
      rw [hinterest] at hfd
      simp [updateEvent, hfd, epollCtl, ctlInterest, ctlAnswer, hinterest]
  | some registered =>
      rw [hinterest] at hfd
      simp [updateEvent, hfd, epollCtl, ctlInterest, ctlAnswer, hinterest]

/-- A refused update leaves the interest list alone. -/
theorem updateEvent_interest_failed (ep : Epoll π) (event : EpollEvent π) (e : Errno) :
    (ep.updateEvent event (.failed e)).interest = ep.interest := by
  cases hfd : ep.events event.watchingFd with
  | none =>
      cases hinterest : ep.interest event.watchingFd <;>
        simp [updateEvent, hfd, epollCtl, ctlInterest, ctlAnswer, hinterest]
  | some registered =>
      cases hinterest : ep.interest event.watchingFd <;>
        simp [updateEvent, hfd, epollCtl, ctlInterest, ctlAnswer, hinterest]

theorem updateEvent_interest_of_ne (ep : Epoll π) (event : EpollEvent π) (answer : Answer Unit)
    {fd : Int} (h : fd ≠ event.watchingFd) :
    (ep.updateEvent event answer).interest fd = ep.interest fd := by
  cases hfd : ep.events event.watchingFd with
  | none =>
      simp only [updateEvent, hfd]
      exact ctlInterest_of_ne _ _ _ _ h
  | some registered =>
      simp only [updateEvent, hfd]
      exact ctlInterest_of_ne _ _ _ _ h

/-- After an update the only descriptor to look at is that of the call. -/
theorem mirrored_updateEvent_iff {ep : Epoll π} (h : Mirrored ep) (event : EpollEvent π)
    (answer : Answer Unit) :
    Mirrored (ep.updateEvent event answer) ↔
      ((ep.updateEvent event answer).interest event.watchingFd).map Prod.fst =
        some event.ptr := by
  constructor
  · intro hmirrored
    have hfd := hmirrored event.watchingFd
    rw [updateEvent_events, Function.update_self] at hfd
    exact hfd.symm
  · intro hfd fd
    rw [updateEvent_events]
    by_cases hne : fd = event.watchingFd
    · rw [hne, Function.update_self, hfd]
    · rw [Function.update_of_ne hne, updateEvent_interest_of_ne ep event answer hne, h fd]

/-- An update keeps table and kernel alike exactly if the kernel agrees. -/
theorem mirrored_update_iff {ep : Epoll π} (h : Mirrored ep) (event : EpollEvent π)
    (answer : Answer Unit) :
    Mirrored (ep.updateEvent event answer) ↔ KernelAgrees ep (.update event answer) := by
  rw [mirrored_updateEvent_iff h]
  cases answer with
  | done u =>
      rw [updateEvent_interest_done h event]
      exact ⟨fun _ => .inl rfl, fun _ => rfl⟩
  | failed e =>
      rw [updateEvent_interest_failed, ← h event.watchingFd]
      constructor
      · exact .inr
      · rintro (hdone | hsame)
        · cases hdone
        · exact hsame

/-- Along every sequence of calls the table has the registrations of the kernel
after each call exactly if the kernel agrees to each one. -/
theorem mirrored_iff_kernelAgrees (calls : List (Call π)) :
    Run.Always step (Run.After step Mirrored) (new : Epoll π) calls ↔
      Run.Always step KernelAgrees new calls := by
  have hcall : ∀ (ep : Epoll π) (call : Call π), Mirrored ep →
      (Run.After step Mirrored ep call ↔ KernelAgrees ep call) := by
    intro ep call h
    cases call with
    | update event answer =>
        rw [← mirrored_update_iff h event answer]
        exact ⟨fun hafter => hafter _ rfl, fun hmirrored s' hok => by cases hok; exact hmirrored⟩
    | remove event answer =>
        rw [← mirrored_remove_iff h event answer]
        exact ⟨fun hafter => hafter _ rfl, fun hmirrored s' hok => by cases hok; exact hmirrored⟩
  apply Run.always_iff_always (J := Mirrored)
  · intro ep call ep' h hagrees hok
    exact (hcall ep call h).mpr hagrees ep' hok
  · intro ep call h
    exact hcall ep call h
  · exact mirrored_new

/-- The first registration of a descriptor fails for lack of memory. -/
theorem mirrored_fails : ¬ Run.Always step (Run.After step Mirrored) (new : Epoll Unit)
    [.update ⟨(), 0, fun _ => false⟩ (.failed .ENOMEM)] := by
  intro h
  have hfd := h.1 _ rfl 0
  exact absurd hfd (by decide)

/-! ## A failed registration is final -/

/-- The descriptor is in the table but not in the interest list. -/
def Stale (fd : Int) (ep : Epoll π) : Prop := ep.events fd ≠ none ∧ ep.interest fd = none

/-- A refused registration of a new descriptor makes it stale. -/
theorem stale_of_failed {ep : Epoll π} (event : EpollEvent π) (e : Errno)
    (h : ep.interest event.watchingFd = none) :
    Stale event.watchingFd (ep.updateEvent event (.failed e)) := by
  constructor
  · rw [updateEvent_events, Function.update_self]
    exact Option.some_ne_none _
  · rw [updateEvent_interest_failed, h]

/-- No later update registers a stale descriptor, whatever the kernel answers. -/
theorem Stale.updateEvent {fd : Int} {ep : Epoll π} (h : Stale fd ep) (event : EpollEvent π)
    (answer : Answer Unit) : Stale fd (ep.updateEvent event answer) := by
  constructor
  · rw [updateEvent_events]
    by_cases hfd : fd = event.watchingFd
    · rw [hfd, Function.update_self]
      exact Option.some_ne_none _
    · rw [Function.update_of_ne hfd]
      exact h.1
  · by_cases hfd : fd = event.watchingFd
    · obtain ⟨registered, hregistered⟩ := Option.ne_none_iff_exists'.mp h.1
      rw [hfd] at hregistered
      have hinterest := h.2
      rw [hfd] at hinterest
      rw [hfd]
      simp [Epoll.updateEvent, hregistered, epollCtl, ctlInterest, ctlAnswer, hinterest]
    · rw [updateEvent_interest_of_ne ep event answer hfd]
      exact h.2

/-- A stale descriptor stays stale through any number of updates. -/
theorem stale_updates {fd : Int} {ep ep' : Epoll π} (h : Stale fd ep)
    (updates : List (EpollEvent π × Answer Unit))
    (hrun : Run.final step ep (updates.map fun u => .update u.1 u.2) = .ok ep') :
    Stale fd ep' := by
  induction updates generalizing ep with
  | nil =>
      cases hrun
      exact h
  | cons u updates ih => exact ih (h.updateEvent u.1 u.2) hrun

end Epoll

end Netpp
