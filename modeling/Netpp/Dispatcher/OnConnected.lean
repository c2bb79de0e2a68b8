import Netpp.Dispatcher.EventLoopDispatcher

/-!
# `onConnected` comes first

A connection that has been made and not yet reported belongs to the thread of its own
loop as any other. If that thread is not the one that is about to report it, it may
call back first. `connectedFirst_iff_not_early` says that `onConnected` comes first
exactly if no handler delivers anything in that time.
-/

namespace Netpp

namespace EventLoopDispatcher

/-- A connection whose `onConnected` has not been called has delivered nothing. -/
def ConnectedFirst (d : EventLoopDispatcher) : Prop :=
  ∀ connection ∈ d.connections, connection.connected = false →
    ∀ callback ∈ connection.tcp.callbacks, ¬callback.IsDelivery

/-- The step runs a handler that delivers for a connection that has not been reported. -/
def Early (d : EventLoopDispatcher) : Event → Prop
  | .connection id e => ∃ connection, d.connections[id]? = some connection ∧
      connection.connected = false ∧ connection.tcp.onHandler connection.tcp.delivers e
  | _ => False

variable {d d' : EventLoopDispatcher} {e : Event}

/-! ## Steps -/

theorem dispatchEventLoop_owner {owner : Nat}
    (h : d.dispatchEventLoop = (some owner, d')) : owner < d.loopsCount := by
  unfold dispatchEventLoop at h
  split at h
  · cases h
  · split at h <;> cases h <;> omega

/-- The dispatcher changes nothing but its index. -/
theorem dispatchEventLoop_kept (d : EventLoopDispatcher) :
    ∃ index, d.dispatchEventLoop.2 = { d with dispatchIndex := index } := by
  unfold dispatchEventLoop
  split
  · exact ⟨d.dispatchIndex, rfl⟩
  · split
    · exact ⟨0, rfl⟩
    · exact ⟨d.dispatchIndex + 1, rfl⟩

/-- The outcomes of a step, as far as the connections and the threads are concerned. -/
inductive Stepped (d d' : EventLoopDispatcher) : Event → Prop
  | unchanged (e : Event) (hother : ∀ id e', e ≠ .connection id e')
      (hconnections : d'.connections = d.connections) (hreporting : d'.reporting = d.reporting) :
      Stepped d d' e
  | made (e : Event) (loop owner tcp) (hother : ∀ id e', e ≠ .connection id e')
      (hloop : loop < d.loopsCount) (hidle : d.idle loop) (howner : owner < d.loopsCount)
      (hcallbacks : tcp.callbacks = []) (hunfilled : tcp.Unfilled)
      (hconnections : d'.connections = d.connections ++ [⟨owner, tcp, false⟩])
      (hreporting : d'.reporting =
        Function.update d.reporting loop (some (.made d.connections.length))) :
      Stepped d d' e
  | locked (loop id) (hmade : d.reporting loop = some (.made id))
      (hconnections : d'.connections = d.connections)
      (hreporting : d'.reporting = Function.update d.reporting loop (some (.locked id))) :
      Stepped d d' (.lock loop)
  | reported (loop id) (hlocked : d.reporting loop = some (.locked id))
      (hconnections : d'.connections = d.connections.modify id fun connection =>
        { connection with connected := true })
      (hreporting : d'.reporting = Function.update d.reporting loop none) :
      Stepped d d' (.onConnected loop)
  | connection (id : Nat) (e : TcpConnection.Event) (connection tcp)
      (hconnection : d.connections[id]? = some connection)
      (hfree : d.free connection.owner e) (hstep : (d.enter connection).step e = .ok tcp)
      (hconnections : d'.connections = d.connections.set id { connection with tcp := tcp })
      (hreporting : d'.reporting = d.reporting) :
      Stepped d d' (.connection id e)

/-- A new connection, as far as the connections and the threads are concerned. -/
theorem makeTcpConnection_ok {loop : Nat} {fd : Int} (h : d.makeTcpConnection loop fd = .ok d') :
    d'.loopsCount = d.loopsCount ∧ ∃ owner tcp, owner < d.loopsCount ∧ tcp.callbacks = [] ∧
      tcp.Unfilled ∧ d'.connections = d.connections ++ [⟨owner, tcp, false⟩] ∧
      d'.reporting = Function.update d.reporting loop (some (.made d.connections.length)) := by
  unfold makeTcpConnection at h
  obtain ⟨index, hkept⟩ := dispatchEventLoop_kept d
  cases hdispatch : d.dispatchEventLoop with
  | mk chosen d₁ =>
      rw [hdispatch] at h hkept
      have hd₁ : d₁ = { d with dispatchIndex := index } := hkept
      cases chosen with
      | none => cases h
      | some owner =>
          have howner := dispatchEventLoop_owner hdispatch
          cases h
          subst hd₁
          exact ⟨rfl, owner, _, howner, rfl, TcpConnection.makeTcpConnection_unfilled .., rfl, rfl⟩

/-- A step has one of the outcomes. -/
theorem step_ok (h : d.step e = .ok d') : d'.loopsCount = d.loopsCount ∧ Stepped d d' e := by
  cases e with
  | dispatchEventLoop =>
      cases h
      obtain ⟨index, hkept⟩ := dispatchEventLoop_kept d
      rw [hkept]
      exact ⟨rfl, .unchanged _ nofun rfl rfl⟩
  | handleIn loop answer =>
      simp only [step] at h
      split at h
      · rename_i hidle
        unfold handleIn at h
        split at h
        · obtain ⟨hcount, owner, tcp, howner, hcallbacks, hunfilled, hconnections, hreporting⟩ :=
            makeTcpConnection_ok h
          exact ⟨hcount, .made _ loop owner tcp nofun hidle.1 hidle.2 howner hcallbacks hunfilled
            hconnections hreporting⟩
        · cases h
          exact ⟨rfl, .unchanged _ nofun rfl rfl⟩
        · cases h
          exact ⟨rfl, .unchanged _ nofun rfl rfl⟩
      · cases h
  | handleOut loop fd =>
      simp only [step] at h
      split at h
      · rename_i hidle
        obtain ⟨hcount, owner, tcp, howner, hcallbacks, hunfilled, hconnections, hreporting⟩ :=
          makeTcpConnection_ok h
        exact ⟨hcount, .made _ loop owner tcp nofun hidle.1 hidle.2 howner hcallbacks hunfilled
          hconnections hreporting⟩
      · cases h
  | lock loop =>
      simp only [step, lock] at h
      split at h
      · rename_i id hmade
        split at h
        · split at h
          · cases h
            exact ⟨rfl, .locked loop id hmade rfl rfl⟩
          · cases h
        · cases h
      · cases h
  | onConnected loop =>
      simp only [step, onConnected] at h
      split at h
      · rename_i id hlocked
        cases h
        exact ⟨rfl, .reported loop id hlocked rfl rfl⟩
      · cases h
  | connection id e =>
      simp only [step] at h
      split at h
      · cases h
      · rename_i connection hconnection
        split at h
        · rename_i hfree
          split at h
          · cases h
          · rename_i tcp hstep
            cases h
            exact ⟨rfl, .connection id e connection tcp hconnection hfree hstep rfl rfl⟩
        · cases h

/-- A connection after a report is one from before, which may have been reported. -/
theorem mem_reported {connections : List Connection} {id : Nat} {connection : Connection}
    (h : connection ∈ connections.modify id fun connection =>
      { connection with connected := true }) :
    ∃ before ∈ connections, connection.owner = before.owner ∧ connection.tcp = before.tcp ∧
      (connection.connected = false → before.connected = false) := by
  obtain ⟨j, hj⟩ := List.mem_iff_getElem?.mp h
  rw [List.getElem?_modify] at hj
  obtain ⟨before, hbefore, hsame⟩ := Option.map_eq_some_iff.mp hj
  refine ⟨before, List.mem_of_getElem? hbefore, ?_⟩
  split at hsame
  · cases hsame
    exact ⟨rfl, rfl, fun hfalse => by cases hfalse⟩
  · cases hsame
    exact ⟨rfl, rfl, fun hconnected => hconnected⟩

/-! ## The order of the callbacks -/

/-- Only a step of a connection delivers anything. -/
theorem not_early_of_other (h : ∀ id e', e ≠ .connection id e') : ¬d.Early e := by
  intro hearly
  cases e with
  | connection id e' => exact h id e' rfl
  | _ => exact hearly

/-- The invariant: besides the order, nothing fills the arrays that the connections
send from. -/
structure Orderly (d : EventLoopDispatcher) : Prop where
  connectedFirst : d.ConnectedFirst
  unfilled : ∀ connection ∈ d.connections, connection.tcp.Unfilled

theorem new_orderly (loopsCount : Nat) (ctlAnswers : Nat → Nat → Answer Unit)
    (wheel : Option (TimeWheel WheelEntry)) : (new loopsCount ctlAnswers wheel).Orderly where
  connectedFirst _ h := by cases h
  unfilled _ h := by cases h

theorem Orderly.entered (h : d.Orderly) {id : Nat} {connection : Connection}
    (hconnection : d.connections[id]? = some connection) : (d.enter connection).Unfilled := by
  have hunfilled := h.unfilled connection (List.mem_of_getElem? hconnection)
  exact ⟨hunfilled.readArray, hunfilled.accepted, hunfilled.retrieved⟩

/-- What a step of a connection does to its callbacks. -/
theorem Orderly.deliveries (h : d.Orderly) {id : Nat} {connection : Connection}
    (hconnection : d.connections[id]? = some connection) {e : TcpConnection.Event}
    {tcp : TcpConnection} (hstep : (d.enter connection).step e = .ok tcp) :
    TcpConnection.Deliveries connection.tcp tcp
      (connection.tcp.onHandler connection.tcp.delivers e) := by
  have hentered := h.entered hconnection
  obtain ⟨called, hcallbacks, hdelivery⟩ := (TcpConnection.step_ok hstep).deliveries hentered
  exact ⟨called, hcallbacks, hdelivery⟩

/-- Step lemma: the order is kept exactly if the step does not deliver early. -/
theorem Orderly.connectedFirst_iff (h : d.Orderly) (hstep : Stepped d d' e) :
    d'.ConnectedFirst ↔ ¬d.Early e := by
  cases hstep with
  | unchanged e hother hconnections hreporting =>
      have hlate := not_early_of_other (d := d) hother
      refine iff_of_true ?_ hlate
      rw [ConnectedFirst, hconnections]
      exact h.connectedFirst
  | made e loop owner tcp hother hloop hidle howner hcallbacks hunfilled hconnections hreporting =>
      have hlate := not_early_of_other (d := d) hother
      refine iff_of_true ?_ hlate
      intro connection hmem hunreported callback hcallback
      rw [hconnections, List.mem_append, List.mem_singleton] at hmem
      rcases hmem with hmem | rfl
      · exact h.connectedFirst connection hmem hunreported callback hcallback
      · simp only [hcallbacks] at hcallback
        cases hcallback
  | locked loop id hmade hconnections hreporting =>
      refine iff_of_true ?_ not_false
      rw [ConnectedFirst, hconnections]
      exact h.connectedFirst
  | reported loop id hlocked hconnections hreporting =>
      refine iff_of_true ?_ not_false
      intro connection hmem hunreported callback hcallback
      rw [hconnections] at hmem
      obtain ⟨before, hbefore, -, htcp, hconnected⟩ := mem_reported hmem
      rw [htcp] at hcallback
      exact h.connectedFirst before hbefore (hconnected hunreported) callback hcallback
  | connection id e connection tcp hconnection hfree hstep hconnections hreporting =>
      obtain ⟨called, hcallbacks, hdelivery⟩ := h.deliveries hconnection hstep
      constructor
      · rintro hfirst ⟨connection', hconnection', hunreported, hdelivers⟩
        rw [hconnection] at hconnection'
        cases hconnection'
        obtain ⟨callback, hcallback, hisDelivery⟩ := hdelivery.mpr hdelivers
        have hlength := (List.getElem?_eq_some_iff.mp hconnection).1
        have hmem : { connection with tcp := tcp } ∈ d'.connections := by
          rw [hconnections]
          exact List.mem_set hlength _
        refine hfirst _ hmem hunreported callback ?_ hisDelivery
        simp only [hcallbacks]
        exact List.mem_append_right _ hcallback
      · intro hlate connection' hmem hunreported callback hcallback hisDelivery
        rw [hconnections] at hmem
        rcases List.mem_or_eq_of_mem_set hmem with hmem | rfl
        · exact h.connectedFirst connection' hmem hunreported callback hcallback hisDelivery
        · simp only [hcallbacks, List.mem_append] at hcallback
          rcases hcallback with hbefore | hcalled
          · have hold := List.mem_of_getElem? hconnection
            exact h.connectedFirst connection hold hunreported callback hbefore hisDelivery
          · exact hlate ⟨connection, hconnection, hunreported,
              hdelivery.mp ⟨callback, hcalled, hisDelivery⟩⟩

theorem Orderly.step (h : d.Orderly) (hstep : Stepped d d' e) (hlate : ¬d.Early e) :
    d'.Orderly where
  connectedFirst := (h.connectedFirst_iff hstep).mpr hlate
  unfilled := by
    intro connection' hmem
    cases hstep with
    | unchanged e hother hconnections hreporting =>
        exact h.unfilled connection' (hconnections ▸ hmem)
    | made e loop owner tcp hother hloop hidle howner hcallbacks hunfilled hconnections
        hreporting =>
        rw [hconnections, List.mem_append, List.mem_singleton] at hmem
        rcases hmem with hmem | rfl
        · exact h.unfilled connection' hmem
        · exact hunfilled
    | locked loop id hmade hconnections hreporting =>
        exact h.unfilled connection' (hconnections ▸ hmem)
    | reported loop id hlocked hconnections hreporting =>
        rw [hconnections] at hmem
        obtain ⟨before, hbefore, -, htcp, -⟩ := mem_reported hmem
        rw [htcp]
        exact h.unfilled before hbefore
    | connection id e connection tcp hconnection hfree hstep hconnections hreporting =>
        rw [hconnections] at hmem
        rcases List.mem_or_eq_of_mem_set hmem with hmem | rfl
        · exact h.unfilled connection' hmem
        · exact (h.entered hconnection).step (TcpConnection.step_ok hstep)

/-- In a run `onConnected` comes first for every connection, if and only if no handler
delivers for a connection that has not been reported. -/
theorem connectedFirst_iff_not_early (loopsCount : Nat) (ctlAnswers : Nat → Nat → Answer Unit)
    (wheel : Option (TimeWheel WheelEntry)) (events : List Event) :
    Run.Always step (Run.Each step fun _ _ d => d.ConnectedFirst)
        (new loopsCount ctlAnswers wheel) events ↔
      Run.Always step (Run.Each step fun d e _ => ¬d.Early e)
        (new loopsCount ctlAnswers wheel) events := by
  apply Run.always_each_iff (J := Orderly)
  · intro d e d' h hlate hok
    exact h.step (step_ok hok).2 hlate
  · intro d e d' h hok
    exact h.connectedFirst_iff (step_ok hok).2
  · exact new_orderly loopsCount ctlAnswers wheel

/-- With two loops the first one accepts a connection that lives in the second, which
receives a byte before the first one reports the connection. -/
theorem connectedFirst_fails : ¬Run.Always step (Run.Each step fun _ _ d => d.ConnectedFirst)
    (new 2 (fun _ _ => .done ()) none)
    [.handleIn 0 (.done 5), .connection 0 (.peerSend [7]),
      .connection 0 (.dispatch fun ev => ev == .IN), .connection 0 (.handler (.done 1))] := by
  intro h
  have hfirst := (((h.2 _ rfl).2 _ rfl).2 _ rfl).1 _ rfl
  exact hfirst _ (List.mem_singleton_self _) rfl _ (List.mem_singleton_self _) trivial

end EventLoopDispatcher

end Netpp
