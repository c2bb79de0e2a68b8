import Netpp.Connection.Shut
import Netpp.EventLoop.Views

/-!
# Each connection is alone

In every run of a loop, each connection sees a run of a single connection that has the
loop to itself: the events of its own, its own functors in their order, and every tick.
The others are not seen, although they share the wheel and the queue. A tick that
succeeds has called no half-close entry of a connection that is alive, so what it does to
the wheel is what it does to the part of each connection.
-/

namespace Netpp

namespace SharedLoop

open TcpConnection (Halt Timed timedStep Usable)

variable {l l' : SharedLoop} {i : Nat} {c c' : Acting} {d d' : TcpConnection} {e : Event}

/-- `d` is the connection `i` as it sees its loop, with an epoll of its own. -/
def Sees (l : SharedLoop) (i : Nat) (d : TcpConnection) : Prop :=
  ∃ c, l.acting i = some c ∧ d = c.view d.epoll d.ctlAnswers

/-- What an event of the loop is for the connection `i`. -/
def seen (l : SharedLoop) (i : Nat) : Event → List Timed
  | .make _ _ => []
  | .conn j e => if j = i then [.event e] else []
  | .functor =>
      match l.parts.functors with
      | [] => []
      | f :: _ => if f.tag = i then [.event .functor] else []
  | .tick => [.tick]

/-! ## The connections of a loop -/

theorem acting_some (h : l.acting i = some c) :
    c.id = i ∧ c.toParts = l.parts ∧ l.conns[i]? = some c.toConn := by
  obtain ⟨conn, hconn, rfl⟩ := Option.map_eq_some_iff.mp h
  exact ⟨rfl, rfl, hconn⟩

theorem acting_lt (h : l.acting i = some c) : i < l.conns.length :=
  (List.getElem?_eq_some_iff.mp (acting_some h).2.2).1

theorem acting_of_lt (h : i < l.conns.length) :
    l.acting i = some { toConn := l.conns[i], toParts := l.parts, id := i } := by
  rw [acting, List.getElem?_eq_getElem h]
  rfl

@[simp] theorem put_length (l : SharedLoop) (c : Acting) :
    (l.put c).conns.length = l.conns.length := List.length_set

theorem acting_put (h : c.id < l.conns.length) : (l.put c).acting c.id = some c := by
  rw [acting, put, List.getElem?_set_self h]
  rfl

theorem acting_put_of_ne (h : i ≠ c.id) :
    (l.put c).acting i = (l.acting i).map fun a => { a with toParts := c.toParts } := by
  rw [acting, acting, put, List.getElem?_set_ne h.symm, Option.map_map]
  rfl

/-! ## What a connection sees -/

theorem sees_view (h : l.acting i = some c) (epoll : Epoll Nat) (answers : Nat → Answer Unit) :
    l.Sees i (c.view epoll answers) := ⟨c, h, rfl⟩

/-- What the connection sees is settled but for the epoll. -/
theorem Sees.eq (h : l.Sees i d) (h' : l.Sees i d') : d'.wheel = d.wheel ∧ d'.state = d.state := by
  obtain ⟨c, hc, hd⟩ := h
  obtain ⟨c', hc', hd'⟩ := h'
  rw [hc] at hc'
  cases hc'
  rw [hd, hd']
  exact ⟨rfl, rfl⟩

theorem wheeled_of_eq (h : d.Wheeled) (heq : d'.wheel = d.wheel ∧ d'.state = d.state) :
    d'.Wheeled := by
  intro w hw
  rw [heq.2]
  exact h w (heq.1 ▸ hw)

/-- A connection does not see what another one does. -/
theorem Sees.put_of_ne (h : l.Sees i d) {j : Nat} (hc : l.acting j = some c)
    (hleaves : c.Leaves c') (hij : i ≠ j) : (l.put c').Sees i d := by
  obtain ⟨a, ha, hd⟩ := h
  obtain ⟨hid, hparts, -⟩ := acting_some hc
  have hi : i ≠ c'.id := by rwa [hleaves.id, hid]
  refine ⟨{ a with toParts := c'.toParts }, ?_, ?_⟩
  · rw [acting_put_of_ne hi, ha]
    rfl
  · obtain ⟨haid, haparts, -⟩ := acting_some ha
    have hwheel : a.wheel = c.wheel := congrArg Parts.wheel (haparts.trans hparts.symm)
    have hfunctors : a.functors = c.functors :=
      congrArg Parts.functors (haparts.trans hparts.symm)
    have hcid : a.id ≠ c.id := by rwa [haid, hid]
    rw [hd]
    simp only [Acting.view, hwheel, hfunctors, hleaves.wheel a.id hcid,
      hleaves.functors a.id hcid]

theorem sees_put (hc : l.acting i = some c) (hid : c'.id = c.id) (epoll : Epoll Nat)
    (answers : Nat → Answer Unit) : (l.put c').Sees i (c'.view epoll answers) := by
  have hi := (acting_some hc).1
  apply sees_view
  rw [← hi, ← hid]
  apply acting_put
  rw [hid, hi]
  exact acting_lt hc

theorem Sees.idle (h : l.Sees i d) (hidle : l.idle = true) : d.running = [] := by
  obtain ⟨c, hc, hd⟩ := h
  have hmem := List.mem_of_getElem? (acting_some hc).2.2
  have hrunning := List.all_eq_true.mp hidle _ hmem
  rw [hd]
  exact List.isEmpty_iff.mp hrunning

theorem Sees.wheel (h : l.Sees i d) : d.wheel = l.parts.wheel.map (TimeWheel.only i) := by
  obtain ⟨c, hc, hd⟩ := h
  obtain ⟨hid, hparts, -⟩ := acting_some hc
  rw [hd, ← hparts, ← hid]
  rfl

theorem Sees.alive (h : l.Sees i d) : l.alive i = d.alive := by
  obtain ⟨c, hc, hd⟩ := h
  rw [hd, SharedLoop.alive, hc]
  rfl

/-! ## The invariant -/

/-- The functors in the queue and the entries in the wheel are those of connections that
have been made, and each connection has a usable wheel. -/
structure Sound (l : SharedLoop) : Prop where
  functors : ∀ f ∈ l.parts.functors, f.tag < l.conns.length
  fresh : ∀ i, l.conns.length ≤ i → ∀ w, l.parts.wheel = some w →
    Usable (w.only i) ∧ ∀ entry, ¬(w.only i).InWheel entry
  wheeled : ∀ i d, l.Sees i d → d.Wheeled

/-- Each owner sees a sound wheel. -/
theorem Sound.only (h : l.Sound) {w : TimeWheel (Tagged Nat WheelEntry)}
    (hw : l.parts.wheel = some w) (i : Nat) : Usable (w.only i) := by
  rcases Nat.lt_or_ge i l.conns.length with hi | hi
  · have hsees := sees_view (acting_of_lt hi) Epoll.new fun _ => .done ()
    refine (h.wheeled i _ hsees (w.only i) ?_).1
    change l.parts.wheel.map _ = _
    rw [hw]
    rfl
  · exact (h.fresh i hi w hw).1

/-- The shared wheel is well formed and has each entry in its place. -/
theorem Sound.wheel_ok (h : l.Sound) {w : TimeWheel (Tagged Nat WheelEntry)}
    (hw : l.parts.wheel = some w) (hsize : w.bucketSize ≠ 0) : w.WellFormed ∧ w.Placed := by
  have honly := fun i => (h.only hw i).resolve_left fun hzero => hsize hzero.1
  exact ⟨TimeWheel.wellFormed_of_only fun i => (honly i).1,
    TimeWheel.placed_of_only fun i => (honly i).2⟩

/-- A connection that acts and leaves the others alone keeps the loop sound. -/
theorem Sound.put (h : l.Sound) (hc : l.acting i = some c) (hleaves : c.Leaves c')
    (hwheeled : ∀ epoll answers, (c'.view epoll answers).Wheeled) : (l.put c').Sound := by
  obtain ⟨hid, hparts, -⟩ := acting_some hc
  have hlt := acting_lt hc
  constructor
  · intro f hf
    rw [put_length]
    by_cases htag : f.tag = c.id
    · rw [htag, hid]
      exact hlt
    · have hmem : f.entry ∈ Tagged.part f.tag c'.functors := Tagged.mem_part.mpr hf
      rw [hleaves.functors f.tag htag, Tagged.mem_part] at hmem
      exact h.functors f (by rw [← hparts]; exact hmem)
  · intro k hk w hw
    rw [put_length] at hk
    have hne : k ≠ c.id := by omega
    have honly := hleaves.wheel k hne
    have hw' : c'.wheel = some w := hw
    rw [hw', Option.map_some] at honly
    obtain ⟨w₀, hw₀, heq⟩ := Option.map_eq_some_iff.mp honly.symm
    rw [← heq]
    exact h.fresh k hk w₀ (by rw [← hparts]; exact hw₀)
  · intro k d hd
    by_cases hki : k = i
    · subst hki
      exact wheeled_of_eq (hwheeled Epoll.new fun _ => .done ())
        (Sees.eq (sees_put hc hleaves.id _ _) hd)
    · obtain ⟨a, ha, hda⟩ := hd
      have hlt' := acting_lt ha
      rw [put_length] at hlt'
      have hsees := sees_view (acting_of_lt hlt') Epoll.new fun _ => .done ()
      exact wheeled_of_eq (h.wheeled k _ hsees)
        (Sees.eq (hsees.put_of_ne hc hleaves hki) ⟨a, ha, hda⟩)

/-! ## An event of a connection -/

theorem Sound.conn_ok (h : l.Sound) (hc : l.acting i = some c) {e : TcpConnection.Event}
    (hok : c.step e = .ok c') : (l.put c').Sound ∧
      ∀ d, l.Sees i d → ∃ d', d.step e = .ok d' ∧ (l.put c').Sees i d' := by
  obtain ⟨hleaves, hview⟩ := Acting.step_ok hok
  constructor
  · refine h.put hc hleaves fun epoll answers => ?_
    obtain ⟨epoll', answers', hstep⟩ := hview epoll answers
    have hwheeled := (h.wheeled i _ (sees_view hc epoll answers)).event hstep
    exact wheeled_of_eq hwheeled ⟨rfl, rfl⟩
  · rintro d ⟨a, ha, hd⟩
    rw [hc] at ha
    cases ha
    obtain ⟨epoll', answers', hstep⟩ := hview d.epoll d.ctlAnswers
    refine ⟨_, ?_, sees_put hc hleaves.id epoll' answers'⟩
    rw [hd]
    exact hstep

/-! ## A functor -/

/-- The loop after the functor at the head of the queue has been taken. -/
def popped (l : SharedLoop) (rest : List (Tagged Nat Functor)) : SharedLoop :=
  { l with parts := { l.parts with functors := rest } }

theorem popped_acting (l : SharedLoop) (rest : List (Tagged Nat Functor)) (i : Nat) :
    (l.popped rest).acting i = (l.acting i).map fun a => { a with functors := rest } := by
  rw [acting, acting, Option.map_map]
  rfl

variable {f : Tagged Nat Functor} {rest : List (Tagged Nat Functor)}

theorem Sees.popped_of_ne (h : l.Sees i d) (hfunctors : l.parts.functors = f :: rest)
    (htag : f.tag ≠ i) : (l.popped rest).Sees i d := by
  obtain ⟨a, ha, hd⟩ := h
  refine ⟨{ a with functors := rest }, by rw [popped_acting, ha]; rfl, ?_⟩
  obtain ⟨hid, hparts, -⟩ := acting_some ha
  have hall : a.functors = f :: rest := by
    rw [← hfunctors]
    exact congrArg Parts.functors hparts
  have hpart : Tagged.part a.id a.functors = Tagged.part a.id rest := by
    rw [hall]
    exact Tagged.part_cons_of_ne (hid ▸ htag) f.entry rest
  rw [hd]
  simp only [Acting.view, hpart]

theorem Sees.popped (h : l.Sees f.tag d) (hfunctors : l.parts.functors = f :: rest) :
    d.functors = f.entry :: Tagged.part f.tag rest ∧
      (l.popped rest).Sees f.tag { d with functors := Tagged.part f.tag rest } := by
  obtain ⟨a, ha, hd⟩ := h
  obtain ⟨hid, hparts, -⟩ := acting_some ha
  have hall : a.functors = f :: rest := by
    rw [← hfunctors]
    exact congrArg Parts.functors hparts
  constructor
  · rw [hd]
    change Tagged.part a.id a.functors = _
    rw [hall, hid]
    exact Tagged.part_cons_self f.tag f.entry rest
  · refine ⟨{ a with functors := rest }, by rw [popped_acting, ha]; rfl, ?_⟩
    rw [hd, ← hid]
    rfl

theorem Sound.popped (h : l.Sound) (hfunctors : l.parts.functors = f :: rest) :
    (l.popped rest).Sound where
  functors g hg := h.functors g (by rw [hfunctors]; exact List.mem_cons_of_mem _ hg)
  fresh := h.fresh
  wheeled i d := by
    rintro ⟨a, ha, hd⟩
    have hlt : i < (l.popped rest).conns.length := acting_lt ha
    have hsees := sees_view (acting_of_lt (l := l) hlt) d.epoll d.ctlAnswers
    refine wheeled_of_eq (h.wheeled i _ hsees) ?_
    rw [popped_acting, acting_of_lt (l := l) hlt] at ha
    cases ha
    rw [hd]
    exact ⟨rfl, rfl⟩

/-- The functor at the head of the queue of a connection that is alive. -/
theorem Sees.runFunctor (h : l.Sees f.tag d) (hfunctors : l.parts.functors = f :: rest)
    (hidle : l.idle = true) (hc : (l.popped rest).acting f.tag = some c)
    (halive : c.alive = true) :
    ∃ d', d.step .functor = .ok d' ∧
      ((l.popped rest).put (c.runFunctor f.entry)).Sees f.tag d' := by
  obtain ⟨hqueue, a, ha, hrest⟩ := h.popped hfunctors
  rw [hc] at ha
  cases ha
  obtain ⟨hleaves, hview⟩ := Acting.runFunctor_ok c f.entry
  obtain ⟨epoll', answers', hrun⟩ := hview d.epoll d.ctlAnswers
  have halive' : d.alive = true := (congrArg TcpConnection.alive hrest).trans halive
  refine ⟨(c.runFunctor f.entry).view epoll' answers', ?_, sees_put hc hleaves.id epoll' answers'⟩
  simp only [TcpConnection.step, if_pos (h.idle hidle), hqueue, if_pos halive', hrest]
  exact congrArg Except.ok hrun

/-- The functor of a connection that is not alive. -/
theorem Sees.dropFunctor (h : l.Sees f.tag d) (hfunctors : l.parts.functors = f :: rest)
    (hidle : l.idle = true) (hc : (l.popped rest).acting f.tag = some c)
    (hdead : ¬c.alive = true) :
    ∃ d', d.step .functor = .ok d' ∧ (l.popped rest).Sees f.tag d' := by
  obtain ⟨hqueue, a, ha, hrest⟩ := h.popped hfunctors
  rw [hc] at ha
  cases ha
  have hdead' : ¬d.alive = true := fun hd =>
    hdead ((congrArg TcpConnection.alive hrest).symm.trans hd)
  refine ⟨{ d with functors := Tagged.part f.tag rest }, ?_, c, hc, hrest⟩
  simp only [TcpConnection.step, if_pos (h.idle hidle), hqueue, if_neg hdead']

theorem runPending_ok (h : l.Sound) (hfunctors : l.parts.functors = f :: rest) :
    ∃ c, (l.popped rest).acting f.tag = some c ∧ l.runPending =
      .ok (if c.alive then (l.popped rest).put (c.runFunctor f.entry) else l.popped rest) := by
  have hlt : f.tag < (l.popped rest).conns.length :=
    h.functors f (by rw [hfunctors]; exact List.mem_cons_self ..)
  refine ⟨_, acting_of_lt hlt, ?_⟩
  have hacting : acting { l with parts := { l.parts with functors := rest } } f.tag = some _ :=
    acting_of_lt hlt
  unfold SharedLoop.runPending
  simp only [hfunctors, hacting]
  rfl

/-- A functor of the loop is one of its connection, and nothing for the others. -/
theorem Sound.runPending (h : l.Sound) (hidle : l.idle = true) (hok : l.runPending = .ok l') :
    l'.Sound ∧ ∀ i d, l.Sees i d →
      ∃ d', Run.final timedStep d (l.seen i .functor) = .ok d' ∧ l'.Sees i d' := by
  cases hfunctors : l.parts.functors with
  | nil =>
      rw [SharedLoop.runPending, hfunctors] at hok
      cases hok
  | cons f rest =>
      have hpopped := h.popped hfunctors
      obtain ⟨c, hc, hrun⟩ := runPending_ok h hfunctors
      rw [hrun] at hok
      have hseen : ∀ i, l.seen i .functor = if f.tag = i then [.event .functor] else [] := by
        intro i
        simp only [seen, hfunctors]
      have hleaves := (Acting.runFunctor_ok c f.entry).1
      by_cases halive : c.alive = true
      · rw [if_pos halive] at hok
        cases hok
        refine ⟨hpopped.put hc hleaves fun epoll answers => ?_, fun i d hd => ?_⟩
        · have hlt : f.tag < (l.popped rest).conns.length := acting_lt hc
          have hsees := sees_view (acting_of_lt (l := l) hlt) epoll answers
          obtain ⟨d', hstep, hd'⟩ := hsees.runFunctor hfunctors hidle hc halive
          exact wheeled_of_eq ((h.wheeled _ _ hsees).event hstep)
            (hd'.eq (sees_put hc hleaves.id epoll answers))
        · rw [hseen]
          by_cases htag : f.tag = i
          · subst htag
            obtain ⟨d', hstep, hd'⟩ := hd.runFunctor hfunctors hidle hc halive
            rw [if_pos rfl]
            exact ⟨d', Run.final_cons_of_ok hstep [], hd'⟩
          · rw [if_neg htag]
            exact ⟨d, rfl, (hd.popped_of_ne hfunctors htag).put_of_ne hc hleaves (Ne.symm htag)⟩
      · rw [if_neg halive] at hok
        cases hok
        refine ⟨hpopped, fun i d hd => ?_⟩
        rw [hseen]
        by_cases htag : f.tag = i
        · subst htag
          obtain ⟨d', hstep, hd'⟩ := hd.dropFunctor hfunctors hidle hc halive
          rw [if_pos rfl]
          exact ⟨d', Run.final_cons_of_ok hstep [], hd'⟩
        · rw [if_neg htag]
          exact ⟨d, rfl, hd.popped_of_ne hfunctors htag⟩

/-! ## A new connection -/

theorem makeTcpConnection_length (l : SharedLoop) (ptr : Nat) (fd : Int) :
    (l.makeTcpConnection ptr fd).conns.length = l.conns.length + 1 := by
  rw [makeTcpConnection]
  exact List.length_append

/-- The new connection sees itself as `TcpConnection::makeTcpConnection` leaves it. -/
theorem Sound.sees_new (h : l.Sound) (epoll : Epoll Nat) (answers : Nat → Answer Unit)
    (ptr : Nat) (fd : Int) : (l.makeTcpConnection ptr fd).Sees l.conns.length
      (TcpConnection.makeTcpConnection epoll answers
        (l.parts.wheel.map (TimeWheel.only l.conns.length)) ptr fd) := by
  have hfunctors : Tagged.part l.conns.length l.parts.functors = [] :=
    Tagged.part_eq_nil fun f hf => Nat.ne_of_lt (h.functors f hf)
  have hwheel := Acting.map_addToWheel l.parts.wheel l.conns.length .idle
  refine ⟨_, congrArg (Option.map _) List.getElem?_concat_length, ?_⟩
  unfold TcpConnection.makeTcpConnection makeTcpConnection Acting.view
  simp only [Acting.active, hfunctors, ← hwheel]
  rfl

theorem Sees.make (h : l.Sees i d) (ptr : Nat) (fd : Int) :
    (l.makeTcpConnection ptr fd).Sees i d := by
  obtain ⟨a, ha, hd⟩ := h
  obtain ⟨hid, hparts, hconn⟩ := acting_some ha
  have hlt := acting_lt ha
  refine ⟨{ a with toParts := (l.makeTcpConnection ptr fd).parts }, ?_, ?_⟩
  · have hold : (l.makeTcpConnection ptr fd).conns[i]? = some a.toConn :=
      (List.getElem?_append_left hlt).trans hconn
    rw [acting, hold, ← hid]
    rfl
  · have hwheel : a.wheel = l.parts.wheel := congrArg Parts.wheel hparts
    have hfunctors : (l.makeTcpConnection ptr fd).parts.functors = a.functors :=
      (congrArg Parts.functors hparts).symm
    have hne : l.conns.length ≠ a.id := by omega
    have honly : (l.makeTcpConnection ptr fd).parts.wheel.map (TimeWheel.only a.id) =
        a.wheel.map (TimeWheel.only a.id) := by
      rw [hwheel]
      exact Acting.map_addToWheel_of_ne hne l.parts.wheel .idle
    rw [hd]
    simp only [Acting.view, honly, hfunctors]

theorem Sound.make (h : l.Sound) (ptr : Nat) (fd : Int) :
    (l.makeTcpConnection ptr fd).Sound := by
  have hlength := makeTcpConnection_length l ptr fd
  constructor
  · intro f hf
    have hlt := h.functors f hf
    omega
  · intro k hk w hw
    have hne : l.conns.length ≠ k := by omega
    obtain ⟨w₀, hw₀, rfl⟩ := Option.map_eq_some_iff.mp hw
    have hfresh := h.fresh k (by omega) w₀ hw₀
    rw [← TimeWheel.only_addToWheel_of_ne hne w₀ .idle] at hfresh
    exact hfresh
  · intro k d hd
    by_cases hk : k = l.conns.length
    · subst hk
      refine wheeled_of_eq ?_ (Sees.eq (h.sees_new Epoll.new (fun _ => .done ()) ptr fd) hd)
      refine (TcpConnection.makeTcpConnection_shuts _ _ (fun w hw => ?_) ptr fd).wheeled
      obtain ⟨w₀, hw₀, rfl⟩ := Option.map_eq_some_iff.mp hw
      exact h.fresh _ le_rfl w₀ hw₀
    · obtain ⟨a, ha, hda⟩ := hd
      have hlt := acting_lt ha
      have hsees := sees_view (acting_of_lt (l := l) (i := k) (by omega)) d.epoll d.ctlAnswers
      exact wheeled_of_eq (h.wheeled k _ hsees) (Sees.eq (hsees.make ptr fd) ⟨a, ha, hda⟩)

/-! ## A tick -/

/-- `onTimeout` of an entry changes its connection as it changes a single one. -/
theorem Sees.onTimeout (h : l.Sees i d) (x : Tagged Nat WheelEntry) :
    (l.onTimeout x).Sees i (if x.tag = i then d.onTimeout x.entry else d) := by
  unfold SharedLoop.onTimeout
  cases hc : l.acting x.tag with
  | none =>
      have hne : x.tag ≠ i := by
        rintro rfl
        obtain ⟨a, ha, -⟩ := h
        rw [hc] at ha
        cases ha
      rw [if_neg hne]
      exact h
  | some c =>
      dsimp only
      by_cases htag : x.tag = i
      · subst htag
        obtain ⟨a, ha, hd⟩ := h
        rw [hc] at ha
        cases ha
        have halive : d.alive = c.alive := congrArg TcpConnection.alive hd
        rw [if_pos rfl, TcpConnection.onTimeout.eq_def, halive]
        by_cases hc' : c.alive = true
        · rw [if_pos hc', if_pos hc']
          cases x.entry with
          | idle =>
              have hview := Acting.queue_view c .closeAfterWriteCompleted d.epoll d.ctlAnswers
              rw [← hd] at hview
              dsimp only
              rw [hview]
              exact sees_put hc (Acting.queue_leaves c _).id _ _
          | halfClose =>
              have hview := Acting.disconnect_view c d.epoll d.ctlAnswers
              rw [← hd] at hview
              dsimp only
              rw [hview]
              exact sees_put hc (Acting.disconnect_leaves c).id _ _
        · rw [if_neg hc', if_neg hc']
          exact ⟨c, hc, hd⟩
      · rw [if_neg htag]
        split
        · cases x.entry with
          | idle => exact h.put_of_ne hc (Acting.queue_leaves c _) (Ne.symm htag)
          | halfClose => exact h.put_of_ne hc (Acting.disconnect_leaves c) (Ne.symm htag)
        · exact h

/-- The timeouts of a tick. -/
theorem Sees.foldl_onTimeout (h : l.Sees i d) (fired : List (Tagged Nat WheelEntry)) :
    (fired.foldl SharedLoop.onTimeout l).Sees i
      ((Tagged.part i fired).foldl TcpConnection.onTimeout d) := by
  induction fired generalizing l d with
  | nil => exact h
  | cons x fired ih =>
      have hx := ih (h.onTimeout x)
      obtain ⟨j, entry⟩ := x
      by_cases hj : j = i
      · subst hj
        rw [if_pos rfl] at hx
        rw [Tagged.part_cons_self]
        exact hx
      · rw [if_neg hj] at hx
        rw [Tagged.part_cons_of_ne hj]
        exact hx

/-- The functors in the queue are those of the connections that have been made. -/
def Queued (l : SharedLoop) : Prop := ∀ f ∈ l.parts.functors, f.tag < l.conns.length

/-- A timeout makes no connection and leaves the wheel to the tick. -/
theorem onTimeout_parts (h : l.Queued) (x : Tagged Nat WheelEntry) :
    (l.onTimeout x).conns.length = l.conns.length ∧
      (l.onTimeout x).parts.wheel = l.parts.wheel ∧ (l.onTimeout x).Queued := by
  unfold onTimeout
  cases hc : l.acting x.tag with
  | none => exact ⟨rfl, rfl, h⟩
  | some c =>
      obtain ⟨hid, hparts, -⟩ := acting_some hc
      have hwheel : c.wheel = l.parts.wheel := congrArg Parts.wheel hparts
      have hfunctors : ∀ f ∈ c.functors, f.tag < l.conns.length := by
        rw [show c.functors = l.parts.functors from congrArg Parts.functors hparts]
        exact h
      dsimp only
      split
      · cases x.entry with
        | idle =>
            refine ⟨put_length l _, hwheel, fun f hf => ?_⟩
            rw [put_length]
            rcases List.mem_append.mp hf with hmem | hmem
            · exact hfunctors f hmem
            · rw [List.mem_singleton.mp hmem, hid]
              exact acting_lt hc
        | halfClose =>
            refine ⟨put_length l _, hwheel, fun f hf => ?_⟩
            rw [put_length]
            exact hfunctors f hf
      · exact ⟨rfl, rfl, h⟩

theorem foldl_onTimeout_parts (h : l.Queued) (fired : List (Tagged Nat WheelEntry)) :
    (fired.foldl onTimeout l).conns.length = l.conns.length ∧
      (fired.foldl onTimeout l).parts.wheel = l.parts.wheel ∧
        (fired.foldl onTimeout l).Queued := by
  induction fired generalizing l with
  | nil => exact ⟨rfl, rfl, h⟩
  | cons x fired ih =>
      obtain ⟨hlength, hwheel, hqueued⟩ := onTimeout_parts h x
      obtain ⟨hlength', hwheel', hqueued'⟩ := ih hqueued
      exact ⟨hlength'.trans hlength, hwheel'.trans hwheel, hqueued'⟩

theorem behaviour_removing (l : SharedLoop) (wheel : TimeWheel (Tagged Nat WheelEntry)) :
    TimeWheel.Removing (l.behaviour wheel) where
  erases _ := rfl
  removes := by
    rintro ⟨i, entry⟩
    cases entry with
    | idle => exact .inl rfl
    | halfClose =>
        cases halive : l.alive i with
        | false => exact .inl (by simp [behaviour, halive])
        | true =>
            right
            simp [behaviour, halive]

/-- The callback of an entry of `i` does nothing to the wheel that `i` sees if it does
nothing to the shared wheel. -/
theorem Sees.silent (h : l.Sees i d) {w : TimeWheel (Tagged Nat WheelEntry)} {entry : WheelEntry}
    (hsilent : (l.behaviour w).onTimeout ⟨i, entry⟩ = []) :
    (d.behaviour (w.only i)).onTimeout entry = [] := by
  cases entry with
  | idle => rfl
  | halfClose =>
      simp only [behaviour, h.alive] at hsilent
      simp only [TcpConnection.behaviour]
      split at hsilent
      case isTrue => cases hsilent
      case isFalse hdead => exact if_neg hdead

/-- The loop after the wheel has turned. -/
def withWheel (l : SharedLoop) (w : TimeWheel (Tagged Nat WheelEntry)) : SharedLoop :=
  { l with parts := { l.parts with wheel := some w } }

theorem Sees.withWheel (h : l.Sees i d) (w : TimeWheel (Tagged Nat WheelEntry)) :
    (l.withWheel w).Sees i { d with wheel := some (w.only i) } := by
  obtain ⟨a, ha, hd⟩ := h
  obtain ⟨hid, hparts, hconn⟩ := acting_some ha
  refine ⟨{ a with wheel := some w }, ?_, ?_⟩
  · have hconn' : (l.withWheel w).conns[i]? = some a.toConn := hconn
    rw [acting, hconn', ← hid, Option.map_some, SharedLoop.withWheel, ← hparts]
  · rw [hd, ← hid]
    rfl

theorem tick_ok (hok : l.tick = .ok l') : ∃ w s, l.parts.wheel = some w ∧ l.idle = true ∧
    w.bucketSize ≠ 0 ∧ w.tick (l.behaviour w) = .ok s ∧
      s.fired.foldl onTimeout (l.withWheel s.wheel) = l' := by
  unfold tick at hok
  cases hw : l.parts.wheel with
  | none =>
      rw [hw] at hok
      cases hok
  | some w =>
      rw [hw] at hok
      dsimp only at hok
      split at hok
      case isTrue hidle =>
        obtain ⟨s, htick, hfold⟩ := Except.exists_of_map_eq_ok (Except.eq_ok_of_mapError_eq_ok hok)
        exact ⟨w, s, rfl, hidle.1, hidle.2, htick, hfold⟩
      case isFalse => cases hok

/-- A tick of the loop is a tick for every connection. -/
theorem Sound.tick_sees (h : l.Sound) (hok : l.tick = .ok l') (hd : l.Sees i d) :
    ∃ d', d.tick = .ok d' ∧ l'.Sees i d' := by
  obtain ⟨w, s, hw, hidle, hsize, htick, rfl⟩ := tick_ok hok
  obtain ⟨hwf, hplaced⟩ := h.wheel_ok hw hsize
  have htick' : (w.only i).tick (d.behaviour (w.only i)) =
      .ok ⟨s.wheel.only i, none, Tagged.part i s.fired, []⟩ :=
    (l.behaviour_removing w).tick_only hwf hplaced htick (fun _ => rfl) fun _ => hd.silent
  have hwheel : d.wheel = some (w.only i) := by rw [hd.wheel, hw, Option.map_some]
  refine ⟨_, ?_, (hd.withWheel s.wheel).foldl_onTimeout s.fired⟩
  unfold TcpConnection.tick
  simp only [hwheel]
  rw [if_pos ⟨hd.idle hidle, hsize⟩, htick']
  rfl

theorem Sound.tick (h : l.Sound) (hok : l.tick = .ok l') : l'.Sound := by
  obtain ⟨w, s, hw, -, hsize, htick, hfold⟩ := tick_ok hok
  obtain ⟨hwf, hplaced⟩ := h.wheel_ok hw hsize
  obtain ⟨hlength, hwheel, hqueued⟩ :=
    foldl_onTimeout_parts (l := l.withWheel s.wheel) h.functors s.fired
  rw [hfold] at hlength hwheel hqueued
  have hlength' : l'.conns.length = l.conns.length := hlength
  refine ⟨hqueued, fun k hk w' hw' => ?_, fun k d' hd' => ?_⟩
  · rw [hwheel] at hw'
    cases hw'
    obtain ⟨hsound, hempty⟩ := h.fresh k (by omega) w hw
    obtain ⟨hwf', hplaced'⟩ := hsound.resolve_left fun hzero => hsize hzero.1
    -- the wheel of an owner without entries turns as well
    have hadding : TimeWheel.Removing (TimeWheel.adding fun _ : WheelEntry => []) :=
      ⟨fun _ => rfl, fun _ => .inl rfl⟩
    have hturns : (w.only k).tick (TimeWheel.adding fun _ => []) =
        .ok ⟨s.wheel.only k, none, Tagged.part k s.fired, []⟩ :=
      (l.behaviour_removing w).tick_only hwf hplaced htick (fun _ => rfl) fun _ _ => rfl
    obtain ⟨-, hloses, -⟩ := hadding.tick hwf' hplaced' hturns
    exact ⟨.inr ⟨hloses.wellFormed, hloses.placed hplaced'⟩,
      fun entry hin => hempty entry (hloses.inWheel hin)⟩
  · obtain ⟨a, ha, heq⟩ := hd'
    have hlt := acting_lt ha
    have hsees := sees_view (acting_of_lt (l := l) (i := k) (by omega)) d'.epoll d'.ctlAnswers
    obtain ⟨d₁, hstep, hd₁⟩ := h.tick_sees hok hsees
    exact wheeled_of_eq ((h.wheeled k _ hsees).tick hstep).1 (hd₁.eq ⟨a, ha, heq⟩)

/-! ## Runs -/

/-- Step lemma: an event of the loop is for each connection what it sees of it. -/
theorem Sound.step (h : l.Sound) (hok : l.step e = .ok l') :
    l'.Sound ∧ ∀ i d, l.Sees i d →
      ∃ d', Run.final timedStep d (l.seen i e) = .ok d' ∧ l'.Sees i d' := by
  cases e with
  | make ptr fd =>
      cases hok
      exact ⟨h.make ptr fd, fun i d hd => ⟨d, rfl, hd.make ptr fd⟩⟩
  | conn j e =>
      simp only [SharedLoop.step] at hok
      cases hc : l.acting j with
      | none =>
          rw [hc] at hok
          cases hok
      | some c =>
          rw [hc] at hok
          dsimp only at hok
          split at hok
          case isTrue =>
            obtain ⟨c', hstep, rfl⟩ := Except.exists_of_map_eq_ok hok
            obtain ⟨hsound, hsees⟩ := h.conn_ok hc hstep
            refine ⟨hsound, fun i d hd => ?_⟩
            by_cases hji : j = i
            · subst hji
              obtain ⟨d', hstep', hd'⟩ := hsees d hd
              exact ⟨d', by rw [seen, if_pos rfl]; exact Run.final_cons_of_ok hstep' [], hd'⟩
            · exact ⟨d, by rw [seen, if_neg hji]; rfl,
                hd.put_of_ne hc (Acting.step_ok hstep).1 (Ne.symm hji)⟩
          case isFalse => cases hok
  | functor =>
      simp only [SharedLoop.step] at hok
      split at hok
      case isTrue hidle => exact h.runPending hidle hok
      case isFalse => cases hok
  | tick =>
      refine ⟨h.tick hok, fun i d hd => ?_⟩
      obtain ⟨d', hstep, hd'⟩ := h.tick_sees hok hd
      exact ⟨d', Run.final_cons_of_ok hstep [], hd'⟩

/-- What the connection `i` sees of a run. -/
def seenBy (i : Nat) : SharedLoop → List Event → List Timed
  | _, [] => []
  | l, e :: es =>
      l.seen i e ++
        match l.step e with
        | .ok l' => seenBy i l' es
        | .error _ => []

/-- Run lemma. -/
theorem Sound.run (h : l.Sound) {es : List Event} (hrun : Run.final SharedLoop.step l es = .ok l') :
    l'.Sound ∧ ∀ i d, l.Sees i d →
      ∃ d', Run.final timedStep d (seenBy i l es) = .ok d' ∧ l'.Sees i d' := by
  induction es generalizing l with
  | nil =>
      cases hrun
      exact ⟨h, fun i d hd => ⟨d, rfl, hd⟩⟩
  | cons e es ih =>
      cases hstep : l.step e with
      | error err => simp [Run.final, hstep] at hrun
      | ok l₁ =>
          rw [Run.final_cons_of_ok hstep] at hrun
          obtain ⟨hsound, hsees⟩ := h.step hstep
          obtain ⟨hsound', hsees'⟩ := ih hsound hrun
          refine ⟨hsound', fun i d hd => ?_⟩
          obtain ⟨d₁, hfirst, hd₁⟩ := hsees i d hd
          obtain ⟨d', hrest, hd'⟩ := hsees' i d₁ hd₁
          refine ⟨d', ?_, hd'⟩
          simp only [seenBy, hstep]
          rw [Run.final_append_of_ok hfirst, hrest]

theorem new_sound (ctlAnswers : Nat → Answer Unit) (bucketCount : Option Nat) :
    (new ctlAnswers bucketCount).Sound where
  functors _ hf := absurd hf List.not_mem_nil
  fresh i _ w hw := by
    obtain ⟨n, -, rfl⟩ := Option.map_eq_some_iff.mp hw
    have honly : (TimeWheel.new n : TimeWheel (Tagged Nat WheelEntry)).only i =
        TimeWheel.new n := by
      simp [TimeWheel.only, TimeWheel.new]
    rw [honly]
    refine ⟨?_, fun entry => ?_⟩
    · rcases Nat.eq_zero_or_pos n with rfl | hn
      · exact .inl ⟨rfl, rfl⟩
      · refine .inr ⟨TimeWheel.new_wellFormed hn, fun e k hk => ?_⟩
        rw [TimeWheel.new_bucket] at hk
        exact absurd hk List.not_mem_nil
    rintro ⟨k, hk⟩
    rw [TimeWheel.new_bucket] at hk
    exact List.not_mem_nil hk
  wheeled i d hd := by
    obtain ⟨c, hc, -⟩ := hd
    cases hc

end SharedLoop

end Netpp
