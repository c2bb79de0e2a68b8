import Mathlib.Logic.Function.Basic
import Netpp.Buffer.RoundTrip

/-!
# Readers of a channel in several threads

Every retrieve method of a `ChannelReader` first asks the byte array for
`readableBytes()`, returns `nullopt` if there are too few, and then calls the
retrieve method of the byte array. Each of the two calls locks the mutex for itself,
so they are two steps of the model, and other readers and writers come in between.
The methods differ in the `Kind` they ask for.

A reader that finds its bytes gone at the second step returns a default value all
the same. `StillThere` rules this out, `exact_iff_stillThere` shows that it is what
has to be ruled out, and that the results are then those of a queue that is read by
one call after the other.
-/

namespace Netpp

open Endian

namespace ChannelReader

/-- A byte array and the readers `ι` on it. -/
structure State (ι : Type*) where
  readBuffer : ByteArray
  /-- A call that has found enough bytes and has still to retrieve them. -/
  found : ι → Option ByteArray.Kind
  /-- What the calls have returned. -/
  results : List (ι × Option ByteArray.Value)

inductive Event (ι : Type*) where
  /-- A writer calls `writeRaw`, which every write method is. -/
  | write (data : List UInt8)
  /-- A retrieve method is called and calls `readableBytes()`. -/
  | check (i : ι) (k : ByteArray.Kind)
  /-- It calls the retrieve method of the byte array. -/
  | retrieve (i : ι)

inductive Halt where
  /-- The event is not the next step of its thread. -/
  | disabled
  | fault (f : Fault)
  deriving DecidableEq

variable {ι : Type*} [DecidableEq ι]

def init : State ι := ⟨ByteArray.new, fun _ => none, []⟩

def step (o : Order) (s : State ι) : Event ι → Except Halt (State ι)
  | .write data =>
      if ByteArray.memoryLimit ≤ s.readBuffer.readableBytes + data.length then
        .error (.fault .badAlloc)
      else
        ((s.readBuffer.writeRaw data).map fun b => { s with readBuffer := b }).mapError .fault
  | .check i k =>
      match s.found i with
      | some _ => .error .disabled
      | none =>
          if k.size ≤ s.readBuffer.readableBytes then
            .ok { s with found := Function.update s.found i (some k) }
          else .ok { s with results := s.results ++ [(i, none)] }
  | .retrieve i =>
      match s.found i with
      | none => .error .disabled
      | some k =>
          ((s.readBuffer.retrieve o k).map fun (b, v) => { s with
            readBuffer := b
            found := Function.update s.found i none
            results := s.results ++ [(i, some v)] }).mapError .fault

/-! ## The property and the condition -/

/-- A call that returns `nullopt` finds too few bytes, and one that returns a value has
consumed the bytes of the value. -/
def Exact (o : Order) (s : State ι) (e : Event ι) (s' : State ι) : Prop :=
  match e with
  | .write _ => True
  | .check i k => s'.results = s.results ∨
      s.readBuffer.unread.length < k.size ∧ s'.results = s.results ++ [(i, none)] ∧
        s'.readBuffer = s.readBuffer
  | .retrieve i => ∀ k, s.found i = some k → ∃ bytes, bytes.length = k.size ∧
      s.readBuffer.unread = bytes ++ s'.readBuffer.unread ∧
        s'.results = s.results ++ [(i, some (k.decode o bytes))]

/-- The bytes that a reader has found are still there when it retrieves them. -/
def StillThere (s : State ι) : Event ι → Prop
  | .retrieve i => ∀ k, s.found i = some k → k.size ≤ s.readBuffer.readableBytes
  | _ => True

instance (s : State ι) : ∀ e, Decidable (StillThere s e)
  | .retrieve i =>
      match h : s.found i with
      | none => .isTrue fun k hk => by rw [h] at hk; cases hk
      | some k => decidable_of_iff (k.size ≤ s.readBuffer.readableBytes) (by
          constructor
          · intro hsize j hj
            rw [h] at hj
            cases hj
            exact hsize
          · intro hall
            exact hall k h)
  | .write _ => .isTrue trivial
  | .check _ _ => .isTrue trivial

/-- A call of a retrieve method in one step, on a queue. -/
def retrieveQueue (o : Order) (q : List UInt8) (k : ByteArray.Kind) :
    List UInt8 × Option ByteArray.Value :=
  if k.size ≤ q.length then (q.drop k.size, some (k.decode o (q.take k.size))) else (q, none)

/-- The queue, and what the calls on it return in one order: a call that returns
`nullopt` stands where it checks, another one where it retrieves. -/
def record (o : Order) (s : State ι) (e : Event ι)
    (r : List UInt8 × List (ι × Option ByteArray.Value)) :
    List UInt8 × List (ι × Option ByteArray.Value) :=
  match e with
  | .write data => (r.1 ++ data, r.2)
  | .check i k =>
      if k.size ≤ s.readBuffer.readableBytes then r
      else ((retrieveQueue o r.1 k).1, r.2 ++ [(i, (retrieveQueue o r.1 k).2)])
  | .retrieve i =>
      match s.found i with
      | none => r
      | some k => ((retrieveQueue o r.1 k).1, r.2 ++ [(i, (retrieveQueue o r.1 k).2)])

/-- The array holds the queue, and the calls have returned what those on the queue
have. -/
def Sequential (s : State ι × List UInt8 × List (ι × Option ByteArray.Value)) : Prop :=
  s.1.readBuffer.unread = s.2.1 ∧ s.1.results = s.2.2

/-! ## Steps -/

variable {o : Order} {s s' : State ι} {q : List UInt8} {i : ι} {k : ByteArray.Kind}

omit [DecidableEq ι] in
theorem retrieveQueue_of_le (h : k.size ≤ q.length) :
    retrieveQueue o q k = (q.drop k.size, some (k.decode o (q.take k.size))) := if_pos h

omit [DecidableEq ι] in
theorem retrieveQueue_of_lt (h : q.length < k.size) : retrieveQueue o q k = (q, none) :=
  if_neg (Nat.not_le.mpr h)

theorem step_write_ok {data : List UInt8}
    (h : ByteArray.Holds ByteArray.memoryLimit s.readBuffer q)
    (hok : step o s (.write data) = .ok s') :
    ∃ b, s' = { s with readBuffer := b } ∧
      ByteArray.Holds ByteArray.memoryLimit b (q ++ data) := by
  have hreadable := h.readableBytes
  by_cases hmemory : ByteArray.memoryLimit ≤ s.readBuffer.readableBytes + data.length
  · rw [step, if_pos hmemory] at hok
    cases hok
  · obtain ⟨b, hwrite, hholds⟩ := h.writeRaw data ByteArray.memoryLimit_le (by omega)
    rw [step, if_neg hmemory, hwrite] at hok
    cases hok
    exact ⟨b, rfl, hholds⟩

theorem step_check_ok (hok : step o s (.check i k) = .ok s') :
    s' = (if k.size ≤ s.readBuffer.readableBytes then
        { s with found := Function.update s.found i (some k) }
      else { s with results := s.results ++ [(i, none)] }) := by
  rw [step] at hok
  split at hok
  · cases hok
  · split at hok
    · rename_i hk
      cases hok
      rw [if_pos hk]
    · rename_i hk
      cases hok
      rw [if_neg hk]

/-- What the readers have found fits into memory. -/
structure Fitting (s : State ι) : Prop where
  readable_lt : s.readBuffer.readableBytes < ByteArray.memoryLimit
  found : ∀ i k, s.found i = some k → k.Fits

omit [DecidableEq ι] in
theorem fits_of_size_lt (h : k.size < ByteArray.memoryLimit) : k.Fits := by
  cases k with
  | string length => exact h
  | _ => trivial

/-- A reader whose bytes are still there. -/
theorem step_retrieve_of_le (h : ByteArray.Holds ByteArray.memoryLimit s.readBuffer q)
    (hfits : k.Fits) (hfound : s.found i = some k) (hk : k.size ≤ q.length) :
    ∃ b, ByteArray.Holds ByteArray.memoryLimit b (q.drop k.size) ∧
      step o s (.retrieve i) = .ok { s with
        readBuffer := b
        found := Function.update s.found i none
        results := s.results ++ [(i, some (k.decode o (q.take k.size)))] } := by
  obtain ⟨b, hok, hholds⟩ := h.retrieve (o := o) ByteArray.memoryLimit_le hfits hk
  exact ⟨b, hholds, by simp only [step, hfound, hok, Except.map, Except.mapError]⟩

/-- A reader whose bytes are gone returns a default value. -/
theorem step_retrieve_of_lt (h : ByteArray.Holds ByteArray.memoryLimit s.readBuffer q)
    (hfits : k.Fits) (hfound : s.found i = some k) (hk : q.length < k.size) :
    step o s (.retrieve i) = .ok { s with
      found := Function.update s.found i none
      results := s.results ++ [(i, some k.default)] } := by
  simp only [step, hfound, h.retrieve_of_lt (o := o) hfits hk, Except.map, Except.mapError]

theorem fits_update {found : ι → Option ByteArray.Kind} {x : Option ByteArray.Kind}
    (h : ∀ j k, found j = some k → k.Fits) (hx : ∀ k, x = some k → k.Fits) :
    ∀ j k, Function.update found i x j = some k → k.Fits := by
  intro j k hj
  by_cases hji : j = i
  · rw [hji, Function.update_self] at hj
    exact hx k hj
  · rw [Function.update_of_ne hji] at hj
    exact h j k hj

/-- Step lemma: a reader finds no more bytes than there are. -/
theorem Fitting.step {e : Event ι} (hfitting : Fitting s)
    (h : ByteArray.Holds ByteArray.memoryLimit s.readBuffer q)
    (hok : ChannelReader.step o s e = .ok s') : Fitting s' := by
  have hreadable := h.readableBytes
  cases e with
  | write data =>
      by_cases hmemory : ByteArray.memoryLimit ≤ s.readBuffer.readableBytes + data.length
      · rw [ChannelReader.step, if_pos hmemory] at hok
        cases hok
      · obtain ⟨b, rfl, hholds⟩ := step_write_ok h hok
        refine ⟨?_, hfitting.found⟩
        rw [hholds.readableBytes, List.length_append]
        omega
  | check i k =>
      rw [step_check_ok hok]
      split
      next hk =>
        refine ⟨hfitting.readable_lt, fits_update hfitting.found fun k' hk' => ?_⟩
        cases hk'
        exact fits_of_size_lt (hk.trans_lt hfitting.readable_lt)
      next => exact ⟨hfitting.readable_lt, hfitting.found⟩
  | retrieve i =>
      cases hfound : s.found i with
      | none => simp [ChannelReader.step, hfound] at hok
      | some k =>
          have hfits := hfitting.found i k hfound
          have hfound' := fits_update (i := i) (x := none) hfitting.found fun k' hk' => by cases hk'
          by_cases hk : k.size ≤ q.length
          · obtain ⟨b, hholds, hstep⟩ := step_retrieve_of_le (o := o) h hfits hfound hk
            rw [hstep] at hok
            cases hok
            refine ⟨?_, hfound'⟩
            rw [hholds.readableBytes, List.length_drop]
            exact (Nat.sub_le ..).trans_lt (hreadable ▸ hfitting.readable_lt)
          · rw [step_retrieve_of_lt h hfits hfound (Nat.not_le.mp hk)] at hok
            cases hok
            exact ⟨hfitting.readable_lt, hfound'⟩

/-- A step is exact if and only if it finds the bytes it has to retrieve. -/
theorem exact_step_iff (e : Event ι) (hfitting : Fitting s)
    (h : ByteArray.Holds ByteArray.memoryLimit s.readBuffer q) :
    Run.Each (step o) (Exact o) s e ↔ StillThere s e := by
  have hreadable := h.readableBytes
  cases e with
  | write data => exact ⟨fun _ => trivial, fun _ _ _ => trivial⟩
  | check i k =>
      refine ⟨fun _ => trivial, fun _ s' hok => ?_⟩
      rw [step_check_ok hok]
      by_cases hk : k.size ≤ s.readBuffer.readableBytes
      · rw [if_pos hk]
        exact .inl rfl
      · rw [if_neg hk]
        refine .inr ⟨?_, rfl, rfl⟩
        rw [h.1]
        omega
  | retrieve i =>
      constructor
      · intro hexact k hfound
        by_contra hgone
        have hk : q.length < k.size := by omega
        obtain ⟨bytes, hlength, hunread, -⟩ :=
          hexact _ (step_retrieve_of_lt h (hfitting.found i k hfound) hfound hk) k hfound
        have hempty := congrArg List.length hunread
        rw [List.length_append] at hempty
        simp only at hempty
        omega
      · intro hthere s' hok k hfound
        have hk : k.size ≤ q.length := by
          rw [← hreadable]
          exact hthere k hfound
        obtain ⟨b, hholds, hstep⟩ :=
          step_retrieve_of_le (o := o) h (hfitting.found i k hfound) hfound hk
        rw [hstep] at hok
        cases hok
        refine ⟨q.take k.size, List.length_take_of_le hk, ?_, rfl⟩
        rw [h.1, hholds.1, List.take_append_drop]

/-- The array holds the queue of the record, and the results are those of the record. -/
def Recorded (s : State ι × List UInt8 × List (ι × Option ByteArray.Value)) : Prop :=
  ByteArray.Holds ByteArray.memoryLimit s.1.readBuffer s.2.1 ∧ s.1.results = s.2.2

theorem recorded_step {s s' : State ι × List UInt8 × List (ι × Option ByteArray.Value)}
    {e : Event ι} (h : Recorded s) (hfitting : Fitting s.1) (hthere : StillThere s.1 e)
    (hok : Run.recorded (step o) (record o) s e = .ok s') : Recorded s' := by
  obtain ⟨s, q, replies⟩ := s
  obtain ⟨s', r'⟩ := s'
  obtain ⟨hholds, hresults⟩ := h
  obtain ⟨hstep, hrecord⟩ := Run.recorded_ok hok
  simp only at hholds hresults hstep hrecord hthere hfitting
  have hreadable := hholds.readableBytes
  subst hrecord
  cases e with
  | write data =>
      obtain ⟨b, rfl, hholds'⟩ := step_write_ok hholds hstep
      exact ⟨hholds', hresults⟩
  | check i k =>
      rw [step_check_ok hstep]
      by_cases hk : k.size ≤ s.readBuffer.readableBytes
      · simp only [record, if_pos hk]
        exact ⟨hholds, hresults⟩
      · simp only [record, if_neg hk, retrieveQueue_of_lt (o := o) (q := q) (k := k) (by omega)]
        exact ⟨hholds, by rw [hresults]⟩
  | retrieve i =>
      cases hfound : s.found i with
      | none => simp [step, hfound] at hstep
      | some k =>
          have hk : k.size ≤ q.length := by
            rw [← hreadable]
            exact hthere k hfound
          obtain ⟨b, hholds', hok'⟩ :=
            step_retrieve_of_le (o := o) hholds (hfitting.found i k hfound) hfound hk
          rw [hok'] at hstep
          cases hstep
          simp only [record, hfound, retrieveQueue_of_le (o := o) hk]
          exact ⟨hholds', by rw [hresults]⟩

/-! ## Every run -/

omit [DecidableEq ι] in
theorem init_fitting : Fitting (init : State ι) where
  readable_lt := by
    rw [init, (ByteArray.new_holds ByteArray.memoryLimit).readableBytes]
    decide
  found i k hfound := by cases hfound

/-- In a run every call is exact, and the results are those of a queue on which each
call is one step, if and only if every reader finds its bytes still there. -/
theorem exact_iff_stillThere (o : Order) (events : List (Event ι)) :
    Run.Always (Run.recorded (step o) (record o))
        (fun s e => Run.Each (step o) (Exact o) s.1 e ∧
          Run.After (Run.recorded (step o) (record o)) Sequential s e)
        (init, [], []) events ↔
      Run.Always (Run.recorded (step o) (record o)) (fun s => StillThere s.1)
        (init, [], []) events := by
  refine Run.always_iff_always (J := fun s => Recorded s ∧ Fitting s.1) ?_ ?_
    ⟨⟨ByteArray.new_holds _, rfl⟩, init_fitting⟩ events
  · rintro s e s' ⟨h, hfitting⟩ hthere hok
    exact ⟨recorded_step h hfitting hthere hok, hfitting.step h.1 (Run.recorded_ok hok).1⟩
  · rintro s e ⟨h, hfitting⟩
    constructor
    · rintro ⟨hexact, -⟩
      exact (exact_step_iff e hfitting h.1).mp hexact
    · intro hthere
      refine ⟨(exact_step_iff e hfitting h.1).mpr hthere, fun s' hok => ?_⟩
      obtain ⟨hholds, hresults⟩ := recorded_step h hfitting hthere hok
      exact ⟨hholds.1, hresults⟩

/-- Two readers find the same byte, and both return a value. -/
theorem exact_twice : ¬ Run.Always (Run.recorded (step .little) (record .little))
    (fun s e => Run.Each (step .little) (Exact .little) s.1 e ∧
      Run.After (Run.recorded (step .little) (record .little)) Sequential s e)
    ((init, [], []) : State Bool × _ × _)
    [.write [7], .check true .int8, .check false .int8, .retrieve true, .retrieve false] := by
  intro h
  have hrun : (Run.final (Run.recorded (step .little) (record .little))
      ((init, [], []) : State Bool × _ × _)
      [.write [7], .check true .int8, .check false .int8, .retrieve true]).map (fun s =>
        (s.1.found false, s.1.readBuffer.unread, (step .little s.1 (.retrieve false)).map
          fun s' => s'.readBuffer.unread)) = .ok (some .int8, [], .ok []) := by
    decide +kernel
  obtain ⟨s, hs, hobserved⟩ := Except.exists_of_map_eq_ok hrun
  obtain ⟨hfound, hunread, hlast⟩ : s.1.found false = some .int8 ∧ s.1.readBuffer.unread = [] ∧
      (step .little s.1 (.retrieve false)).map (fun s' => s'.readBuffer.unread) = .ok [] := by
    simpa using hobserved
  obtain ⟨s', hstep, -⟩ := Except.exists_of_map_eq_ok hlast
  have hexact : Run.Each (step .little) (Exact .little) s.1 (.retrieve false) :=
    (Run.Always.of_append [_, _, _, _] [Event.retrieve false] h hs).1.1
  obtain ⟨bytes, hlength, hbytes, -⟩ := hexact s' hstep .int8 hfound
  rw [hunread] at hbytes
  have hempty : bytes = [] := (List.append_eq_nil_iff.mp hbytes.symm).1
  rw [hempty] at hlength
  exact absurd hlength (by decide)

end ChannelReader

end Netpp
