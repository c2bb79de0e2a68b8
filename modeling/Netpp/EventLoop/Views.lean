import Netpp.EventLoop.SharedLoop
import Netpp.Time.SharedWheel

/-!
# What a connection sees of its loop

`view` is a connection of the loop as a connection that is alone: of the wheel it sees
its own entries and of the queue its own functors. Every operation of a connection is the
operation of the single connection on its view, whatever epoll that one has (`Simulates`),
and leaves what the others see of the wheel and of the queue as it is (`Leaves`).
-/

namespace Netpp

namespace TcpConnection

/-- What `handleIn` does with the result of `SocketIO::read`. -/
def afterRead (c : TcpConnection) :
    Except Exception (ByteArray × List UInt8) → Except Fault TcpConnection
  | .ok (b, taken) =>
      let c := { c with
        channel := c.channel.set .writeArray b
        history := { c.history with delivered := c.history.delivered ++ taken } }
      .ok (c.call .onMessageReceived)
  | .error (.socketException e) => (c.call (.onError (getError e))).forceClose
  | .error (.resourceLimitException e) => .ok (c.call (.onError (getError e)))

/-- What `handleOut` does with the result of `SocketIO::write`. -/
def afterWrite (c : TcpConnection) :
    Except Exception (ByteArray × List UInt8 × Bool) → Except Fault TcpConnection
  | .ok (b, sent, writeCompleted) =>
      let c := { c with
        channel := c.channel.set .readArray b
        history := { c.history with accepted := c.history.accepted ++ sent } }
      if writeCompleted then
        let c : TcpConnection :=
          { (c.deactivate [.OUT]).call .onWriteCompleted with isWaitWriting := false }
        if c.state = .HalfClose then c.forceClose else .ok c
      else .ok c
  | .error (.socketException e) =>
      forceClose { (c.call (.onError (getError e))) with isWaitWriting := false }
  | .error (.resourceLimitException e) => .ok (c.call (.onError (getError e)))

theorem handleIn_eq {c c' : TcpConnection} {answer : Answer Nat}
    {result : Except Exception (ByteArray × List UInt8)} (hrenew : c.renewWheel = .ok c')
    (hread : SocketIO.read .reader c'.channel.writeArray (c'.arrived answer) = .ok result) :
    c.handleIn answer = c'.afterRead result := by
  change (c.renewWheel >>= _) = _
  rw [hrenew]
  change ( SocketIO.read .reader c'.channel.writeArray _ >>= _) = _
  rw [hread]
  rfl

theorem handleOut_eq {c c' : TcpConnection} {answer : Answer Nat}
    {result : Except Exception (ByteArray × List UInt8 × Bool)} (hrenew : c.renewWheel = .ok c')
    (hwrite : SocketIO.write .reader c'.channel.readArray answer = .ok result) :
    c.handleOut answer = c'.afterWrite result := by
  change (c.renewWheel >>= _) = _
  rw [hrenew]
  change ( SocketIO.write .reader c'.channel.readArray _ >>= _) = _
  rw [hwrite]
  rfl

end TcpConnection

namespace SharedLoop

open TcpConnection (Halt)

namespace Acting

variable {c c' c'' : Acting}

/-- The connection as one that is alone on its loop, with an epoll of its own. -/
def view (c : Acting) (epoll : Epoll Nat) (ctlAnswers : Nat → Answer Unit) : TcpConnection where
  state := c.state
  isWaitWriting := c.isWaitWriting
  channel := c.channel
  epollEvent := c.epollEvent
  epoll := epoll
  ctlAnswers := ctlAnswers
  wheel := c.wheel.map (TimeWheel.only c.id)
  inLoop := c.inLoop
  heldElsewhere := c.heldElsewhere
  functors := Tagged.part c.id c.functors
  running := c.running
  callbacks := c.callbacks
  shutdownWrites := c.shutdownWrites
  peer := c.peer
  history := c.history

/-- What the other connections see stays as it is. -/
structure Leaves (c c' : Acting) : Prop where
  id : c'.id = c.id
  wheel : ∀ i, i ≠ c.id → c'.wheel.map (TimeWheel.only i) = c.wheel.map (TimeWheel.only i)
  functors : ∀ i, i ≠ c.id → Tagged.part i c'.functors = Tagged.part i c.functors

theorem Leaves.of_eq (hid : c'.id = c.id) (hwheel : c'.wheel = c.wheel)
    (hfunctors : c'.functors = c.functors) : c.Leaves c' :=
  ⟨hid, fun _ _ => by rw [hwheel], fun _ _ => by rw [hfunctors]⟩

theorem Leaves.trans (h : c.Leaves c') (h' : c'.Leaves c'') : c.Leaves c'' where
  id := h'.id.trans h.id
  wheel i hi := (h'.wheel i (h.id ▸ hi)).trans (h.wheel i hi)
  functors i hi := (h'.functors i (h.id ▸ hi)).trans (h.functors i hi)

/-- The view of `c` goes with `op` to the view of `c'`, with any epoll. -/
def Simulates {ε : Type} (op : TcpConnection → Except ε TcpConnection) (c c' : Acting) : Prop :=
  ∀ epoll answers, ∃ epoll' answers', op (c.view epoll answers) = .ok (c'.view epoll' answers')

/-! ## The wheel -/

theorem only_renewIfAlive (i : Nat) (wheel : TimeWheel (Tagged Nat WheelEntry))
    (watched renewed : WheelEntry) :
    (renewIfAlive wheel ⟨i, watched⟩ ⟨i, renewed⟩).map (TimeWheel.only i) =
      TcpConnection.renewIfAlive (wheel.only i) watched renewed := by
  rw [renewIfAlive, TcpConnection.renewIfAlive, TimeWheel.lock_isSome_eq, TimeWheel.lock_eq]
  split
  · exact TimeWheel.only_renew i wheel _
  · rfl

theorem only_renewIfAlive_of_ne {i j : Nat} (h : j ≠ i)
    {wheel wheel' : TimeWheel (Tagged Nat WheelEntry)} {watched renewed : WheelEntry}
    (hok : renewIfAlive wheel ⟨j, watched⟩ ⟨j, renewed⟩ = .ok wheel') :
    wheel'.only i = wheel.only i := by
  unfold renewIfAlive at hok
  split at hok
  · rw [TimeWheel.lock_eq] at hok
    exact TimeWheel.only_renew_of_ne h hok
  · cases hok
    rfl

/-- A computation that succeeds, as an owner sees it. -/
theorem eq_ok_of_map {i : Nat} {x : Except Fault (TimeWheel (Tagged Nat WheelEntry))}
    {y : Except Fault (TimeWheel WheelEntry)} {wheel : TimeWheel (Tagged Nat WheelEntry)}
    (h : x.map (TimeWheel.only i) = y) (hx : x = .ok wheel) : y = .ok (wheel.only i) := by
  rw [← h, hx]
  rfl

theorem renewWheel_ok (h : c.renewWheel = .ok c') :
    c.Leaves c' ∧ ∀ epoll answers,
      (c.view epoll answers).renewWheel = .ok (c'.view epoll answers) := by
  unfold renewWheel at h
  cases hwheel : c.wheel with
  | none =>
      rw [hwheel] at h
      cases h
      refine ⟨.of_eq rfl rfl rfl, fun epoll answers => ?_⟩
      simp only [TcpConnection.renewWheel, view, hwheel, Option.map_none]
  | some wheel =>
      rw [hwheel] at h
      obtain ⟨w₁, hidle, h⟩ := Except.exists_of_bind_eq_ok h
      obtain ⟨w₂, hhalfClose, h⟩ := Except.exists_of_bind_eq_ok h
      cases h
      refine ⟨⟨rfl, fun i hi => ?_, fun _ _ => rfl⟩, fun epoll answers => ?_⟩
      · simp only [hwheel, Option.map_some, only_renewIfAlive_of_ne hi.symm hhalfClose,
          only_renewIfAlive_of_ne hi.symm hidle]
      · have hidle' := eq_ok_of_map (only_renewIfAlive c.id wheel .idle .idle) hidle
        have hhalfClose' := eq_ok_of_map (only_renewIfAlive c.id w₁ .halfClose .idle) hhalfClose
        simp only [TcpConnection.renewWheel, view, hwheel, Option.map_some, hidle', hhalfClose',
          bind, Except.bind]

theorem removeFromWheel_ok (h : c.removeFromWheel = .ok c') :
    c.Leaves c' ∧ ∀ epoll answers,
      (c.view epoll answers).removeFromWheel = .ok (c'.view epoll answers) := by
  unfold removeFromWheel at h
  cases hwheel : c.wheel with
  | none =>
      rw [hwheel] at h
      cases h
      refine ⟨.of_eq rfl rfl rfl, fun epoll answers => ?_⟩
      simp only [TcpConnection.removeFromWheel, view, hwheel, Option.map_none]
  | some wheel =>
      rw [hwheel] at h
      obtain ⟨w₁, hidle, h⟩ := Except.exists_of_bind_eq_ok h
      obtain ⟨w₂, hhalfClose, h⟩ := Except.exists_of_bind_eq_ok h
      cases h
      rw [TimeWheel.lock_eq] at hidle hhalfClose
      refine ⟨⟨rfl, fun i hi => ?_, fun _ _ => rfl⟩, fun epoll answers => ?_⟩
      · simp only [hwheel, Option.map_some, TimeWheel.only_removeFromWheel_of_ne hi.symm hhalfClose,
          TimeWheel.only_removeFromWheel_of_ne hi.symm hidle]
      · have hidle' := eq_ok_of_map (TimeWheel.only_removeFromWheel c.id wheel _) hidle
        have hhalfClose' := eq_ok_of_map (TimeWheel.only_removeFromWheel c.id w₁ _) hhalfClose
        simp only [TcpConnection.removeFromWheel, view, hwheel, Option.map_some, hidle',
          hhalfClose', bind, Except.bind]

theorem call_leaves (c : Acting) (callback : Callback) : c.Leaves (c.call callback) :=
  .of_eq rfl rfl rfl

theorem disconnect_leaves (c : Acting) : c.Leaves c.disconnect := .of_eq rfl rfl rfl

theorem disconnect_view (c : Acting) (epoll : Epoll Nat) (answers : Nat → Answer Unit) :
    (c.view epoll answers).disconnect = c.disconnect.view (c.view epoll answers).disconnect.epoll
      (c.view epoll answers).disconnect.ctlAnswers := rfl

theorem forceClose_ok (h : c.forceClose = .ok c') :
    c.Leaves c' ∧ Simulates TcpConnection.forceClose c c' := by
  obtain ⟨c₁, hremove, rfl⟩ := Except.exists_of_map_eq_ok h
  obtain ⟨hleaves, hview⟩ := removeFromWheel_ok hremove
  refine ⟨hleaves.trans (disconnect_leaves _), fun epoll answers => ?_⟩
  rw [TcpConnection.forceClose, hview]
  exact ⟨_, _, rfl⟩

/-! ## The handlers -/

theorem view_arrived (c : Acting) (epoll : Epoll Nat) (answers : Nat → Answer Unit)
    (answer : Answer Nat) : (c.view epoll answers).arrived answer = c.arrived answer := by
  cases answer with
  | done count => rfl
  | failed e => rfl

theorem handleIn_ok {answer : Answer Nat} (h : c.handleIn answer = .ok c') :
    c.Leaves c' ∧ Simulates (TcpConnection.handleIn · answer) c c' := by
  obtain ⟨c₁, hrenew, h⟩ := Except.exists_of_bind_eq_ok h
  obtain ⟨hleaves, hview⟩ := renewWheel_ok hrenew
  obtain ⟨result, hread, h⟩ := Except.exists_of_bind_eq_ok h
  have hreceives : ∀ epoll answers, (c.view epoll answers).handleIn answer =
      (c₁.view epoll answers).afterRead result := by
    intro epoll answers
    apply TcpConnection.handleIn_eq (hview epoll answers)
    rw [view_arrived]
    exact hread
  cases result with
  | ok r =>
      cases h
      exact ⟨hleaves.trans (.of_eq rfl rfl rfl), fun epoll answers =>
        ⟨epoll, answers, hreceives epoll answers⟩⟩
  | error e =>
      cases e with
      | socketException e =>
          obtain ⟨hcloses, hclosed⟩ := forceClose_ok h
          refine ⟨hleaves.trans ((call_leaves _ _).trans hcloses), fun epoll answers => ?_⟩
          obtain ⟨epoll', answers', hok⟩ := hclosed epoll answers
          exact ⟨epoll', answers', (hreceives epoll answers).trans hok⟩
      | resourceLimitException e =>
          cases h
          exact ⟨hleaves.trans (call_leaves _ _), fun epoll answers =>
            ⟨epoll, answers, hreceives epoll answers⟩⟩

theorem handleOut_ok {answer : Answer Nat} (h : c.handleOut answer = .ok c') :
    c.Leaves c' ∧ Simulates (TcpConnection.handleOut · answer) c c' := by
  obtain ⟨c₁, hrenew, h⟩ := Except.exists_of_bind_eq_ok h
  obtain ⟨hleaves, hview⟩ := renewWheel_ok hrenew
  obtain ⟨result, hwrite, h⟩ := Except.exists_of_bind_eq_ok h
  have htransmits : ∀ epoll answers, (c.view epoll answers).handleOut answer =
      (c₁.view epoll answers).afterWrite result :=
    fun epoll answers => TcpConnection.handleOut_eq (hview epoll answers) hwrite
  -- a force-close of a connection that has changed in its own members only
  have hcloses : ∀ c₂ : Acting, c₂.forceClose = .ok c' → c₁.Leaves c₂ →
      (∀ epoll answers, ∃ epoll₂ answers₂, (c₁.view epoll answers).afterWrite result =
        (c₂.view epoll₂ answers₂).forceClose) →
      c.Leaves c' ∧ Simulates (TcpConnection.handleOut · answer) c c' := by
    intro c₂ hclose hleaves₂ hafter
    obtain ⟨hcloses, hclosed⟩ := forceClose_ok hclose
    refine ⟨hleaves.trans (hleaves₂.trans hcloses), fun epoll answers => ?_⟩
    obtain ⟨epoll₂, answers₂, heq⟩ := hafter epoll answers
    obtain ⟨epoll', answers', hok⟩ := hclosed epoll₂ answers₂
    exact ⟨epoll', answers', (htransmits epoll answers).trans (heq.trans hok)⟩
  cases result with
  | ok r =>
      obtain ⟨b, sent, writeCompleted⟩ := r
      cases writeCompleted with
      | false =>
          cases h
          exact ⟨hleaves.trans (.of_eq rfl rfl rfl), fun epoll answers =>
            ⟨epoll, answers, htransmits epoll answers⟩⟩
      | true =>
          simp only [if_true] at h
          split at h
          case isTrue hstate =>
            exact hcloses _ h (.of_eq rfl rfl rfl) fun epoll answers => ⟨_, _, if_pos hstate⟩
          case isFalse hstate =>
            cases h
            exact ⟨hleaves.trans (.of_eq rfl rfl rfl), fun epoll answers =>
              ⟨_, _, (htransmits epoll answers).trans (if_neg hstate)⟩⟩
  | error e =>
      cases e with
      | socketException e =>
          exact hcloses _ h (.of_eq rfl rfl rfl) fun epoll answers => ⟨epoll, answers, rfl⟩
      | resourceLimitException e =>
          cases h
          exact ⟨hleaves.trans (call_leaves _ _), fun epoll answers =>
            ⟨epoll, answers, htransmits epoll answers⟩⟩

theorem handleRdhup_ok (h : c.handleRdhup = .ok c') :
    c.Leaves c' ∧ Simulates TcpConnection.handleRdhup c c' := by
  unfold handleRdhup at h
  simp only at h
  split at h
  case isTrue hstate =>
    split at h
    case isTrue hwaiting =>
      cases h
      exact ⟨.of_eq rfl rfl rfl, fun epoll answers =>
        ⟨_, _, (if_pos hstate).trans (if_pos hwaiting)⟩⟩
    case isFalse hwaiting =>
      obtain ⟨hcloses, hclosed⟩ := forceClose_ok h
      have hhalfCloses : c.Leaves { c.deactivate [.RDHUP, .IN] with state := .HalfClose } :=
        .of_eq rfl rfl rfl
      refine ⟨hhalfCloses.trans hcloses, fun epoll answers => ?_⟩
      let d := (c.view epoll answers).deactivate [.RDHUP, .IN]
      obtain ⟨epoll', answers', hok⟩ := hclosed d.epoll d.ctlAnswers
      exact ⟨epoll', answers', (if_pos hstate).trans ((if_neg hwaiting).trans hok)⟩
  case isFalse hstate =>
    cases h
    exact ⟨.of_eq rfl rfl rfl, fun epoll answers => ⟨_, _, if_neg hstate⟩⟩

theorem handle_ok {answer : Answer Nat} {ev : EpollEv} (h : c.handle answer ev = .ok c') :
    c.Leaves c' ∧ Simulates (TcpConnection.handle · answer ev) c c' := by
  cases ev with
  | RDHUP => exact handleRdhup_ok h
  | IN => exact handleIn_ok h
  | OUT => exact handleOut_ok h
  | _ =>
      cases h
      exact ⟨.of_eq rfl rfl rfl, fun epoll answers => ⟨epoll, answers, rfl⟩⟩

/-! ## The functors -/

theorem sendFunctor_view (c : Acting) (covers : Nat) (epoll : Epoll Nat)
    (answers : Nat → Answer Unit) : ∃ epoll' answers',
      (c.view epoll answers).sendFunctor covers = (c.sendFunctor covers).view epoll' answers' :=
  ⟨_, _, rfl⟩

/-- Adding an entry of `i`, as `i` sees it. -/
theorem map_addToWheel (wheel : Option (TimeWheel (Tagged Nat WheelEntry))) (i : Nat)
    (entry : WheelEntry) :
    (wheel.map (TimeWheel.only i)).map (·.addToWheel entry) =
      (wheel.map (·.addToWheel ⟨i, entry⟩)).map (TimeWheel.only i) := by
  cases wheel with
  | none => rfl
  | some wheel => exact congrArg some (TimeWheel.only_addToWheel i wheel entry).symm

theorem map_addToWheel_of_ne {i j : Nat} (h : j ≠ i)
    (wheel : Option (TimeWheel (Tagged Nat WheelEntry))) (entry : WheelEntry) :
    (wheel.map (·.addToWheel ⟨j, entry⟩)).map (TimeWheel.only i) =
      wheel.map (TimeWheel.only i) := by
  cases wheel with
  | none => rfl
  | some wheel => exact congrArg some (TimeWheel.only_addToWheel_of_ne h wheel entry)

theorem closeFunctor_leaves (c : Acting) : c.Leaves c.closeFunctor := by
  unfold closeFunctor
  split
  case isTrue =>
    split
    case isTrue => exact .of_eq rfl rfl rfl
    case isFalse =>
      exact ⟨rfl, fun i hi => map_addToWheel_of_ne hi.symm c.wheel .halfClose, fun _ _ => rfl⟩
  case isFalse => exact .of_eq rfl rfl rfl

theorem closeFunctor_view (c : Acting) (epoll : Epoll Nat) (answers : Nat → Answer Unit) :
    ∃ epoll' answers',
      (c.view epoll answers).closeFunctor = c.closeFunctor.view epoll' answers' := by
  unfold closeFunctor TcpConnection.closeFunctor
  by_cases hstate : c.state = .Established
  · rw [if_pos hstate, if_pos (show (c.view epoll answers).state = .Established from hstate)]
    by_cases hwaiting : c.isWaitWriting = true
    · rw [if_pos hwaiting, if_pos (show (c.view epoll answers).isWaitWriting = true from hwaiting)]
      exact ⟨epoll, answers, rfl⟩
    · rw [if_neg hwaiting,
        if_neg (show ¬(c.view epoll answers).isWaitWriting = true from hwaiting)]
      let d := TcpConnection.deactivate { c.view epoll answers with
        state := .HalfClose
        shutdownWrites := c.shutdownWrites + 1 } [.RDHUP]
      have hwheel : d.wheel.map (·.addToWheel .halfClose) =
          (c.wheel.map (·.addToWheel ⟨c.id, .halfClose⟩)).map (TimeWheel.only c.id) :=
        map_addToWheel c.wheel c.id .halfClose
      exact ⟨d.epoll, d.ctlAnswers, congrArg (fun wheel => { d with wheel := wheel }) hwheel⟩
  · rw [if_neg hstate, if_neg (show ¬(c.view epoll answers).state = .Established from hstate)]
    exact ⟨epoll, answers, rfl⟩

theorem runFunctor_ok (c : Acting) (f : Functor) :
    c.Leaves (c.runFunctor f) ∧ ∀ epoll answers, ∃ epoll' answers',
      (c.view epoll answers).runFunctor f = (c.runFunctor f).view epoll' answers' := by
  cases f with
  | sendInLoop covers =>
      exact ⟨.of_eq rfl rfl rfl, fun epoll answers => sendFunctor_view c covers epoll answers⟩
  | closeAfterWriteCompleted => exact ⟨closeFunctor_leaves c, closeFunctor_view c⟩

/-! ## A step of one connection -/

/-- Queuing a functor of `i`. -/
theorem queue_leaves (c : Acting) (f : Functor) :
    c.Leaves { c with functors := c.functors ++ [⟨c.id, f⟩] } := by
  refine ⟨rfl, fun _ _ => rfl, fun i hi => ?_⟩
  rw [Tagged.part_append, Tagged.part_cons_of_ne hi.symm, Tagged.part_nil, List.append_nil]

theorem queue_view (c : Acting) (f : Functor) (epoll : Epoll Nat) (answers : Nat → Answer Unit) :
    { c.view epoll answers with functors := (c.view epoll answers).functors ++ [f] } =
      Acting.view { c with functors := c.functors ++ [⟨c.id, f⟩] } epoll answers := by
  simp only [view, Tagged.part_append, Tagged.part_cons_self, Tagged.part_nil]

/-- An operation that changes members of the connection only, as its view does. -/
theorem own_ok {ε : Type} {op : TcpConnection → Except ε TcpConnection} (hleaves : c.Leaves c')
    (hop : ∀ epoll answers, op (c.view epoll answers) = .ok (c'.view epoll answers)) :
    c.Leaves c' ∧ Simulates op c c' :=
  ⟨hleaves, fun epoll answers => ⟨epoll, answers, hop epoll answers⟩⟩

/-- Step lemma: each step of a connection of the loop is one of the single connection. -/
theorem step_ok {e : TcpConnection.Event} (h : c.step e = .ok c') :
    c.Leaves c' ∧ Simulates (TcpConnection.step · e) c c' := by
  cases e with
  | write data =>
      obtain ⟨channel, hchannel, rfl⟩ :=
        Except.exists_of_map_eq_ok (Except.eq_ok_of_mapError_eq_ok h)
      refine own_ok (.of_eq rfl rfl rfl) fun epoll answers => ?_
      change ((c.channel.write data).map _).mapError _ = _
      rw [hchannel]
      rfl
  | retrieve length =>
      obtain ⟨r, hchannel, rfl⟩ :=
        Except.exists_of_map_eq_ok (Except.eq_ok_of_mapError_eq_ok h)
      refine own_ok (.of_eq rfl rfl rfl) fun epoll answers => ?_
      change ((c.channel.retrieve length).map _).mapError _ = _
      rw [hchannel]
      rfl
  | send =>
      simp only [step] at h
      split at h
      case isTrue halive =>
        cases h
        refine own_ok (queue_leaves c _) fun epoll answers => ?_
        exact (if_pos halive).trans (congrArg Except.ok (queue_view c _ epoll answers))
      case isFalse hdead =>
        cases h
        exact own_ok (.of_eq rfl rfl rfl) fun epoll answers => if_neg hdead
  | close =>
      simp only [step] at h
      split at h
      case isTrue halive =>
        cases h
        refine own_ok (queue_leaves c _) fun epoll answers => ?_
        exact (if_pos halive).trans (congrArg Except.ok (queue_view c _ epoll answers))
      case isFalse hdead =>
        cases h
        exact own_ok (.of_eq rfl rfl rfl) fun epoll answers => if_neg hdead
  | hold =>
      simp only [step] at h
      split at h
      case isTrue halive =>
        cases h
        exact own_ok (.of_eq rfl rfl rfl) fun epoll answers => if_pos halive
      case isFalse => cases h
  | release =>
      cases h
      exact own_ok (.of_eq rfl rfl rfl) fun epoll answers => rfl
  | peerSend data =>
      simp only [step] at h
      split at h
      case isTrue => cases h
      case isFalse hfin =>
        cases h
        exact own_ok (.of_eq rfl rfl rfl) fun epoll answers => if_neg hfin
  | peerFin =>
      cases h
      exact own_ok (.of_eq rfl rfl rfl) fun epoll answers => rfl
  | dispatch mask =>
      simp only [step] at h
      split at h
      case isTrue hidle =>
        cases h
        exact own_ok (.of_eq rfl rfl rfl) fun epoll answers => if_pos hidle
      case isFalse => cases h
  | handler answer =>
      simp only [step] at h
      split at h
      case h_1 => cases h
      case h_2 ev rest hrunning =>
        obtain ⟨hleaves, hview⟩ := handle_ok (Except.eq_ok_of_mapError_eq_ok h)
        have hstarts : c.Leaves { c with running := rest } := .of_eq rfl rfl rfl
        refine ⟨hstarts.trans hleaves, fun epoll answers => ?_⟩
        obtain ⟨epoll', answers', hok⟩ := hview epoll answers
        have hrunning' : (c.view epoll answers).running = ev :: rest := hrunning
        refine ⟨epoll', answers', ?_⟩
        simp only [TcpConnection.step, hrunning']
        exact congrArg (Except.mapError Halt.fault) hok
  | functor => cases h

end Acting

end SharedLoop

end Netpp
