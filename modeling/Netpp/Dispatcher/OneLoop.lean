import Netpp.Dispatcher.OnConnected

/-!
# One loop

A connection that has not been reported is being reported by the thread of some loop.
If there is only one loop, that is also the thread that would run the handlers of the
connection, so `onConnected` comes first in every run.
-/

namespace Netpp

namespace EventLoopDispatcher

variable {d d' : EventLoopDispatcher} {e : Event}

/-- The invariant: a connection that has not been reported is being reported by the
thread of some loop. -/
structure Announced (d : EventLoopDispatcher) : Prop where
  owner : ∀ connection ∈ d.connections, connection.owner < d.loopsCount
  reporting : ∀ id connection, d.connections[id]? = some connection →
    connection.connected = false → ∃ loop < d.loopsCount,
      d.reporting loop = some (.made id) ∨ d.reporting loop = some (.locked id)

theorem new_announced (loopsCount : Nat) (ctlAnswers : Nat → Nat → Answer Unit)
    (wheel : Option (TimeWheel WheelEntry)) : (new loopsCount ctlAnswers wheel).Announced where
  owner _ h := by cases h
  reporting id connection h := by simp [new] at h

/-- A change of what one thread reports leaves the reports of the others. -/
theorem Announced.others (h : d.Announced) {loop id : Nat} {connection : Connection}
    {report : Option Reporting} (hconnection : d.connections[id]? = some connection)
    (hunreported : connection.connected = false)
    (hother : d.reporting loop ≠ some (.made id) ∧ d.reporting loop ≠ some (.locked id)) :
    ∃ loop' < d.loopsCount, Function.update d.reporting loop report loop' = some (.made id) ∨
      Function.update d.reporting loop report loop' = some (.locked id) := by
  obtain ⟨loop', hloop', hreporting⟩ := h.reporting id connection hconnection hunreported
  have hne : loop' ≠ loop := by
    rintro rfl
    rcases hreporting with hmade | hlocked
    · exact hother.1 hmade
    · exact hother.2 hlocked
  refine ⟨loop', hloop', ?_⟩
  rw [Function.update_of_ne hne]
  exact hreporting

theorem reporting_of_idle {loop : Nat} (h : d.idle loop) : d.reporting loop = none := by
  have hnone := (Bool.and_eq_true_iff.mp h).1
  simpa using hnone

/-- No step gives a connection to a loop that there is not. -/
theorem Stepped.owner_lt (hstep : Stepped d d' e)
    (howner : ∀ connection ∈ d.connections, connection.owner < d.loopsCount) :
    ∀ connection ∈ d'.connections, connection.owner < d.loopsCount := by
  intro connection hmem
  cases hstep with
  | unchanged e hother hconnections hreporting =>
      rw [hconnections] at hmem
      exact howner connection hmem
  | made e loop owner tcp hother hloop hidle hlt hcallbacks hunfilled hconnections hreporting =>
      rw [hconnections, List.mem_append, List.mem_singleton] at hmem
      rcases hmem with hmem | rfl
      · exact howner connection hmem
      · exact hlt
  | locked loop id hmade hconnections hreporting =>
      rw [hconnections] at hmem
      exact howner connection hmem
  | reported loop id hlocked hconnections hreporting =>
      rw [hconnections] at hmem
      obtain ⟨before, hbefore, hsame, -, -⟩ := mem_reported hmem
      rw [hsame]
      exact howner before hbefore
  | connection id e before tcp hconnection hfree hstep hconnections hreporting =>
      rw [hconnections] at hmem
      rcases List.mem_or_eq_of_mem_set hmem with hmem | rfl
      · exact howner connection hmem
      · exact howner before (List.mem_of_getElem? hconnection)

/-- Step lemma: every step keeps the invariant. -/
theorem Announced.step (h : d.Announced) (hcount : d'.loopsCount = d.loopsCount)
    (hstep : Stepped d d' e) : d'.Announced where
  owner := by
    rw [hcount]
    exact hstep.owner_lt h.owner
  reporting := by
    intro id connection hconnection hunreported
    rw [hcount]
    cases hstep with
    | unchanged e hother hconnections hreporting =>
        rw [hconnections] at hconnection
        rw [hreporting]
        exact h.reporting id connection hconnection hunreported
    | made e loop owner tcp hother hloop hidle howner hcallbacks hunfilled hconnections
        hreporting =>
        rw [hconnections] at hconnection
        rw [hreporting]
        rcases Nat.lt_or_ge id d.connections.length with hlt | hge
        · rw [List.getElem?_append_left hlt] at hconnection
          apply h.others hconnection hunreported
          rw [reporting_of_idle hidle]
          exact ⟨nofun, nofun⟩
        · have hid : id = d.connections.length := by
            have hlength := (List.getElem?_eq_some_iff.mp hconnection).1
            rw [List.length_append, List.length_singleton] at hlength
            omega
          refine ⟨loop, hloop, .inl ?_⟩
          rw [Function.update_self, hid]
    | locked loop id' hmade hconnections hreporting =>
        rw [hconnections] at hconnection
        rw [hreporting]
        by_cases hid : id = id'
        · subst hid
          obtain ⟨loop', hloop', hreports⟩ := h.reporting id connection hconnection hunreported
          refine ⟨loop', hloop', ?_⟩
          by_cases hsame : loop' = loop
          · subst hsame
            exact .inr (Function.update_self ..)
          · rw [Function.update_of_ne hsame]
            exact hreports
        · apply h.others hconnection hunreported
          rw [hmade]
          simp [Ne.symm hid]
    | reported loop id' hlocked hconnections hreporting =>
        rw [hconnections, List.getElem?_modify] at hconnection
        rw [hreporting]
        obtain ⟨before, hbefore, hsame⟩ := Option.map_eq_some_iff.mp hconnection
        by_cases hid : id' = id
        · rw [if_pos hid] at hsame
          cases hsame
          cases hunreported
        · rw [if_neg hid] at hsame
          cases hsame
          apply h.others hbefore hunreported
          rw [hlocked]
          simp [hid]
    | connection id' e before tcp hbefore hfree hstep hconnections hreporting =>
        rw [hconnections, List.getElem?_set] at hconnection
        rw [hreporting]
        by_cases hid : id' = id
        · subst hid
          rw [if_pos rfl] at hconnection
          split at hconnection
          · cases hconnection
            exact h.reporting id' before hbefore hunreported
          · cases hconnection
        · rw [if_neg hid] at hconnection
          exact h.reporting id connection hconnection hunreported

/-- With one loop the thread that would deliver early is the one that reports. -/
theorem Announced.not_early (h : d.Announced) (hone : d.loopsCount = 1)
    (hstep : Stepped d d' e) : ¬d.Early e := by
  intro hearly
  cases hstep with
  | connection id e connection tcp hconnection hfree hstep hconnections hreporting =>
      obtain ⟨connection', hconnection', hunreported, hdelivers⟩ := hearly
      rw [hconnection] at hconnection'
      cases hconnection'
      have howner := h.owner connection (List.mem_of_getElem? hconnection)
      obtain ⟨loop, hloop, hreports⟩ := h.reporting id connection hconnection hunreported
      have hsame : connection.owner = loop := by omega
      cases e with
      | handler answer =>
          have hnone : d.reporting connection.owner = none := by simpa [free] using hfree
          rw [hsame] at hnone
          rcases hreports with hmade | hlocked
          · rw [hnone] at hmade
            cases hmade
          · rw [hnone] at hlocked
            cases hlocked
      | _ => exact hdelivers
  | unchanged e hother hconnections hreporting => exact not_early_of_other hother hearly
  | made e loop owner tcp hother hloop hidle howner hcallbacks hunfilled hconnections hreporting =>
      exact not_early_of_other hother hearly
  | locked loop id hmade hconnections hreporting => exact hearly
  | reported loop id hlocked hconnections hreporting => exact hearly

/-- With one loop `onConnected` comes first in every run. -/
theorem connectedFirst_of_one_loop (ctlAnswers : Nat → Nat → Answer Unit)
    (wheel : Option (TimeWheel WheelEntry)) (events : List Event) :
    Run.Always step (Run.After step ConnectedFirst) (new 1 ctlAnswers wheel) events := by
  have hinvariant : Run.Always step
      (Run.After step fun d => d.loopsCount = 1 ∧ d.Announced ∧ d.Orderly)
      (new 1 ctlAnswers wheel) events := by
    apply Run.always_of_invariant
    · rintro d e d' ⟨hone, hannounced, horderly⟩ hok
      obtain ⟨hcount, hstep⟩ := step_ok hok
      refine ⟨hcount.trans hone, hannounced.step hcount hstep, ?_⟩
      exact horderly.step hstep (hannounced.not_early hone hstep)
    · exact ⟨rfl, new_announced 1 ctlAnswers wheel, new_orderly 1 ctlAnswers wheel⟩
  exact Run.Always.mono (fun d e h d' hok => (h d' hok).2.2.connectedFirst) hinvariant

end EventLoopDispatcher

end Netpp
