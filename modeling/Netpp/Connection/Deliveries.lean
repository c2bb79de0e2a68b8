import Netpp.Connection.Effects

/-!
# The callbacks that deliver something

Apart from `onError`, every callback of a connection gives the user its channel.
`delivers` says which branches of the handlers make such a call, as `callsBack` does
for the callbacks of any kind.
-/

namespace Netpp

/-- The callback gives the user the channel. -/
def Callback.IsDelivery : Callback → Prop
  | .onError _ => False
  | _ => True

namespace TcpConnection

variable {c c' : TcpConnection} {e : Event} {answer : Answer Nat}

/-- The handler calls `onMessageReceived`, `onWriteCompleted` or `onDisconnect`. -/
def delivers (c : TcpConnection) (answer : Answer Nat) : EpollEv → Prop
  | .IN => ∀ err, Stub.recvmsg (c.arrived answer) ≠ .error (.resourceLimitException err)
  | .OUT => completes answer .OUT ∨ c.raises answer .OUT
  | ev => c.endsIdle ev

/-- The step from `c` to `c'` calls back, with a delivery if the proposition holds. -/
def Deliveries (c c' : TcpConnection) (delivers : Prop) : Prop :=
  ∃ called, c'.callbacks = c.callbacks ++ called ∧
    ((∃ callback ∈ called, callback.IsDelivery) ↔ delivers)

theorem Deliveries.none (hcallbacks : c'.callbacks = c.callbacks) {delivers : Prop}
    (hnot : ¬delivers) : Deliveries c c' delivers :=
  ⟨[], by rw [hcallbacks, List.append_nil], by simp [hnot]⟩

theorem HandleRdhup.deliveries (h : HandleRdhup c c') (answer : Answer Nat) :
    Deliveries c c' (c.delivers answer .RDHUP) := by
  cases h with
  | closed wheel hstate hidle =>
      refine ⟨[.onDisconnect], rfl, ?_⟩
      simp [Callback.IsDelivery, delivers, endsIdle, hstate, hidle]
  | halfClosed hstate hwaiting =>
      apply Deliveries.none
      · rfl
      · simp [delivers, endsIdle, hwaiting]
  | ignored hstate =>
      apply Deliveries.none
      · rfl
      · simp [delivers, endsIdle, hstate]

theorem HandleIn.deliveries (h : HandleIn c answer c') :
    Deliveries c c' (c.delivers answer .IN) := by
  cases h with
  | received wheel b taken hread =>
      obtain ⟨arrived, hstub⟩ := read_ok hread
      refine ⟨[.onMessageReceived], rfl, ?_⟩
      simp [Callback.IsDelivery, delivers, hstub]
  | refused wheel err hstub =>
      refine ⟨[.onError (getError err), .onDisconnect], ?_, ?_⟩
      · simp [disconnect, disable, call]
      · simp [Callback.IsDelivery, delivers, hstub]
  | limited wheel err hstub =>
      refine ⟨[.onError (getError err)], rfl, ?_⟩
      simp [Callback.IsDelivery, delivers, hstub]

theorem HandleOut.deliveries (hunfilled : c.Unfilled) (h : HandleOut c answer c') :
    Deliveries c c' (c.delivers answer .OUT) := by
  cases h with
  | finished wheel b sent hwrite hstate =>
      obtain ⟨-, room, hstub⟩ := hunfilled.write hwrite wheel
      refine ⟨[.onWriteCompleted], rfl, ?_⟩
      simp [Callback.IsDelivery, delivers, completes, hstub]
  | closed wheel b sent hwrite hstate =>
      obtain ⟨-, room, hstub⟩ := hunfilled.write hwrite wheel
      refine ⟨[.onWriteCompleted, .onDisconnect], ?_, ?_⟩
      · simp [disconnect, disable, completed, transmitted, deactivate, call]
      · simp [Callback.IsDelivery, delivers, completes, hstub]
  | unfinished wheel b sent hwrite =>
      obtain ⟨-, hstub⟩ := hunfilled.write hwrite wheel
      rw [if_neg (by decide)] at hstub
      apply Deliveries.none
      · rfl
      · simp [delivers, completes, raises, hstub]
  | reset wheel err hstub =>
      refine ⟨[.onError (getError err), .onDisconnect], ?_, ?_⟩
      · simp [disconnect, disable, call]
      · simp [Callback.IsDelivery, delivers, raises, hstub]
  | limited wheel err hstub =>
      refine ⟨[.onError (getError err)], rfl, ?_⟩
      simp [Callback.IsDelivery, delivers, completes, raises, hstub]

/-- Step lemma: a step delivers exactly if it runs such a handler. -/
theorem Stepped.deliveries (hunfilled : c.Unfilled) (h : Stepped c e c') :
    Deliveries c c' (c.onHandler c.delivers e) := by
  cases h with
  | handler answer ev rest d hrunning hhandle =>
      have hrest := hunfilled.handling rest
      have hdeliveries : Deliveries { c with running := rest } c' (c.delivers answer ev) := by
        cases hhandle with
        | rdhup d h => exact h.deliveries answer
        | receive d h => exact h.deliveries
        | transmit d h => exact h.deliveries hrest
        | nothing ev hev =>
            apply Deliveries.none
            · rfl
            · cases ev <;> simp_all [delivers, endsIdle]
      obtain ⟨called, hcallbacks, hdelivery⟩ := hdeliveries
      exact ⟨called, hcallbacks, hdelivery.trans (onHandler_of_running hrunning).symm⟩
  | functor f rest d hidle hfunctors halive hrun =>
      apply Deliveries.none
      · cases hrun <;> rfl
      · simp [onHandler]
  | _ =>
      apply Deliveries.none
      · rfl
      · simp [onHandler]

end TcpConnection

end Netpp
