import Mathlib.Data.List.Nodup
import Mathlib.Logic.Function.Basic
import Netpp.Library.Run
import Netpp.Library.Tagged

/-!
# Objects with a lock each

Threads operate on shared objects, each of which has a mutex. A call takes the locks of
its objects one after the other, works on the objects in steps of any kind, and releases
the locks one after the other. The steps of the threads interleave in any way; a thread
that asks for a lock that is held waits.

`record` keeps the calls in the order in which they end their work.
-/

namespace Locking

/-- What is done under the locks: steps that read and write the state, each of which may
fail, and a result. -/
inductive Prog (ε σ ρ : Type) : Type 1
  | ret (r : ρ)
  | step {α : Type} (f : σ → Except ε (σ × α)) (next : α → Prog ε σ ρ)

namespace Prog

variable {ε σ ρ τ : Type}

/-- The program without any other one between its steps. -/
def run : Prog ε σ ρ → σ → Except ε (σ × ρ)
  | ret r, s => .ok (s, r)
  | step f next, s =>
      match f s with
      | .ok (s', a) => (next a).run s'
      | .error err => .error err

theorem run_step_of_ok {α : Type} {f : σ → Except ε (σ × α)} {s s' : σ} {a : α}
    (h : f s = .ok (s', a)) (next : α → Prog ε σ ρ) :
    (step f next).run s = (next a).run s' := by
  rw [run, h]

theorem run_step_of_error {α : Type} {f : σ → Except ε (σ × α)} {s : σ} {err : ε}
    (h : f s = .error err) (next : α → Prog ε σ ρ) :
    (step f next).run s = .error err := by
  rw [run, h]

/-- The program with another result. -/
def map {τ : Type} (f : ρ → τ) : Prog ε σ ρ → Prog ε σ τ
  | ret r => ret (f r)
  | step g next => step g fun a => (next a).map f

theorem run_map {τ : Type} (f : ρ → τ) (p : Prog ε σ ρ) (s : σ) :
    (p.map f).run s = (p.run s).map fun x => (x.1, f x.2) := by
  induction p generalizing s with
  | ret r => rfl
  | step g next ih =>
      rw [map, run, run]
      cases g s with
      | error err => rfl
      | ok x => exact ih x.2 x.1

/-- The program on a part of a larger state. -/
def on (get : τ → σ) (put : τ → σ → τ) : Prog ε σ ρ → Prog ε τ ρ
  | ret r => ret r
  | step f next => step (fun t => (f (get t)).map fun x => (put t x.1, x.2)) fun a =>
      (next a).on get put

/-- On a part it does what it does alone. -/
theorem run_on {get : τ → σ} {put : τ → σ → τ} (hget : ∀ t s, get (put t s) = s)
    (hput : ∀ t s s', put (put t s) s' = put t s') (hsame : ∀ t, put t (get t) = t)
    (p : Prog ε σ ρ) (t : τ) :
    (p.on get put).run t = (p.run (get t)).map fun x => (put t x.1, x.2) := by
  induction p generalizing t with
  | ret r =>
      rw [on, run, run, Except.map, hsame]
  | step f next ih =>
      rw [on, run, run]
      cases hf : f (get t) with
      | error err => rfl
      | ok x =>
          simp only [Except.map]
          rw [ih, hget]
          simp only [hput]
          rfl

end Prog

/-! ## Calls -/

variable {κ σ ε ρ ι : Type} [DecidableEq κ]

/-- The objects that are locked. -/
abbrev View (σ : Type) (locks : List κ) : Type := {k // k ∈ locks} → σ

/-- A call works on the objects whose locks it takes, and on no others. -/
structure Op (κ σ ε ρ : Type) where
  locks : List κ
  nodup : locks.Nodup
  body : Prog ε (View σ locks) ρ

/-- What the locked objects are in the store. -/
def view (locks : List κ) (s : κ → σ) : View σ locks := fun k => s k

/-- The store with other values for the locked objects. -/
def overwrite {locks : List κ} (s : κ → σ) (v : View σ locks) : κ → σ := fun k =>
  if h : k ∈ locks then v ⟨k, h⟩ else s k

variable {locks : List κ} {s s' : κ → σ} {v : View σ locks} {k : κ}

theorem overwrite_of_mem (h : k ∈ locks) (s : κ → σ) (v : View σ locks) :
    overwrite s v k = v ⟨k, h⟩ := dif_pos h

theorem overwrite_of_not_mem (h : k ∉ locks) (s : κ → σ) (v : View σ locks) :
    overwrite s v k = s k := dif_neg h

@[simp] theorem view_overwrite (s : κ → σ) (v : View σ locks) :
    view locks (overwrite s v) = v := by
  funext k
  exact overwrite_of_mem k.2 s v

omit [DecidableEq κ] in
theorem view_congr (h : ∀ k ∈ locks, s k = s' k) : view locks s = view locks s' := by
  funext k
  exact h k k.2

theorem overwrite_view (locks : List κ) (s : κ → σ) : overwrite s (view locks s) = s := by
  funext k
  by_cases hk : k ∈ locks
  · rw [overwrite_of_mem hk]
    rfl
  · rw [overwrite_of_not_mem hk]

theorem overwrite_update (s : κ → σ) (v : View σ locks) (k : {k // k ∈ locks}) (a : σ) :
    overwrite s (Function.update v k a) = Function.update (overwrite s v) k a := by
  funext k'
  by_cases hk' : k' = k
  · subst hk'
    rw [overwrite_of_mem k.2, Function.update_self, Function.update_self]
  · rw [Function.update_of_ne hk']
    by_cases hmem : k' ∈ locks
    · rw [overwrite_of_mem hmem, overwrite_of_mem hmem,
        Function.update_of_ne fun heq => hk' (congrArg Subtype.val heq)]
    · rw [overwrite_of_not_mem hmem, overwrite_of_not_mem hmem]

/-- The call without any other one between its steps. -/
def Op.apply (op : Op κ σ ε ρ) (s : κ → σ) : Except ε ((κ → σ) × ρ) :=
  (op.body.run (view op.locks s)).map fun x => (overwrite s x.1, x.2)

theorem Op.apply_of_ok {op : Op κ σ ε ρ} {v : View σ op.locks} {r : ρ}
    (h : op.body.run (view op.locks s) = .ok (v, r)) : op.apply s = .ok (overwrite s v, r) := by
  rw [apply, h]
  rfl

/-! ## Threads -/

variable (code : ι → Op κ σ ε ρ)

inductive Phase (code : ι → Op κ σ ε ρ) : Type 1
  | outside
  /-- So many of the locks are taken. -/
  | acquiring (c : ι) (taken : Nat)
  /-- What is left to do under the locks. -/
  | running (c : ι) (rest : Prog ε (View σ (code c).locks) ρ)
  /-- So many of the locks are released. -/
  | releasing (c : ι) (released : Nat) (r : ρ)

variable {code}

def Phase.held : Phase code → List κ
  | outside => []
  | acquiring c taken => (code c).locks.take taken
  | running c _ => (code c).locks
  | releasing c released _ => (code c).locks.drop released

/-- The objects that the thread is working on. -/
def Phase.working : Phase code → List κ
  | running c _ => (code c).locks
  | _ => []

/-- A call that has not ended its work. -/
def Phase.unended : Phase code → List ι
  | acquiring c _ => [c]
  | running c _ => [c]
  | _ => []

/-- A call that has ended its work and has not returned. -/
def Phase.ended : Phase code → List (ι × ρ)
  | releasing c _ r => [(c, r)]
  | _ => []

omit [DecidableEq κ] in
theorem Phase.working_subset (p : Phase code) : p.working ⊆ p.held := by
  cases p with
  | running c rest => exact fun _ h => h
  | _ => exact List.nil_subset _

structure State (code : ι → Op κ σ ε ρ) : Type 1 where
  threads : List (Phase code)
  store : κ → σ
  /-- What the calls have returned, with the threads that made them. -/
  returned : List (Tagged Nat (ι × ρ))

inductive Event (ι : Type)
  | call (i : Nat) (c : ι)
  /-- The next step of the thread. -/
  | step (i : Nat)

inductive Halt (ε : Type)
  /-- The thread waits, or is not in a call. -/
  | disabled
  | fault (err : ε)

namespace State

def init (n : Nat) (store : κ → σ) : State code := ⟨List.replicate n .outside, store, []⟩

def enter (s : State code) (i : Nat) (p : Phase code) : State code :=
  { s with threads := s.threads.set i p }

/-- No thread holds the lock. -/
def Free (s : State code) (k : κ) : Prop := ∀ p ∈ s.threads, k ∉ p.held

instance (s : State code) (k : κ) : Decidable (s.Free k) :=
  inferInstanceAs (Decidable (∀ p ∈ s.threads, k ∉ p.held))

def step (s : State code) : Event ι → Except (Halt ε) (State code)
  | .call i c =>
      match s.threads[i]? with
      | some .outside => .ok (s.enter i (.acquiring c 0))
      | _ => .error .disabled
  | .step i =>
      match s.threads[i]? with
      | some (.acquiring c taken) =>
          match (code c).locks[taken]? with
          | some k => if s.Free k then .ok (s.enter i (.acquiring c (taken + 1)))
              else .error .disabled
          | none => .ok (s.enter i (.running c (code c).body))
      | some (.running c (.step f next)) =>
          match f (view (code c).locks s.store) with
          | .ok (v, a) =>
              .ok { s.enter i (.running c (next a)) with store := overwrite s.store v }
          | .error err => .error (.fault err)
      | some (.running c (.ret r)) => .ok (s.enter i (.releasing c 0 r))
      | some (.releasing c released r) =>
          if released < (code c).locks.length then .ok (s.enter i (.releasing c (released + 1) r))
          else .ok { s.enter i .outside with returned := s.returned ++ [⟨i, (c, r)⟩] }
      | _ => .error .disabled

/-- The calls in the order in which they end their work, with their results. -/
def record (s : State code) (e : Event ι) (log : List (Tagged Nat (ι × ρ))) :
    List (Tagged Nat (ι × ρ)) :=
  match e with
  | .call _ _ => log
  | .step i =>
      match s.threads[i]? with
      | some (.running c (.ret r)) => log ++ [⟨i, (c, r)⟩]
      | _ => log

/-- What a step can do. -/
inductive Stepped (s : State code) : Event ι → State code → Prop
  | called {i : Nat} {c : ι} (h : s.threads[i]? = some .outside) :
      Stepped s (.call i c) (s.enter i (.acquiring c 0))
  | acquired {i : Nat} {c : ι} {taken : Nat} {k : κ}
      (h : s.threads[i]? = some (.acquiring c taken)) (hk : (code c).locks[taken]? = some k)
      (hfree : s.Free k) : Stepped s (.step i) (s.enter i (.acquiring c (taken + 1)))
  | started {i : Nat} {c : ι} {taken : Nat} (h : s.threads[i]? = some (.acquiring c taken))
      (hall : (code c).locks[taken]? = none) :
      Stepped s (.step i) (s.enter i (.running c (code c).body))
  | worked {i : Nat} {c : ι} {α : Type} {f : View σ (code c).locks → Except ε (_ × α)}
      {next : α → Prog ε (View σ (code c).locks) ρ} {v : View σ (code c).locks} {a : α}
      (h : s.threads[i]? = some (.running c (.step f next)))
      (hf : f (view (code c).locks s.store) = .ok (v, a)) :
      Stepped s (.step i) { s.enter i (.running c (next a)) with store := overwrite s.store v }
  | ended {i : Nat} {c : ι} {r : ρ} (h : s.threads[i]? = some (.running c (.ret r))) :
      Stepped s (.step i) (s.enter i (.releasing c 0 r))
  | released {i : Nat} {c : ι} {released : Nat} {r : ρ}
      (h : s.threads[i]? = some (.releasing c released r))
      (hlt : released < (code c).locks.length) :
      Stepped s (.step i) (s.enter i (.releasing c (released + 1) r))
  | returned {i : Nat} {c : ι} {released : Nat} {r : ρ}
      (h : s.threads[i]? = some (.releasing c released r))
      (hall : (code c).locks.length ≤ released) :
      Stepped s (.step i)
        { s.enter i .outside with returned := s.returned ++ [⟨i, (c, r)⟩] }

theorem step_ok {s s' : State code} {e : Event ι} (hok : s.step e = .ok s') : Stepped s e s' := by
  cases e with
  | call i c =>
      rw [step] at hok
      split at hok
      case h_1 h =>
        cases hok
        exact .called h
      case h_2 => cases hok
  | step i =>
      rw [step] at hok
      split at hok
      case h_1 c taken h =>
        split at hok
        case h_1 k hk =>
          split at hok
          case isTrue hfree =>
            cases hok
            exact .acquired h hk hfree
          case isFalse => cases hok
        case h_2 hall =>
          cases hok
          exact .started h hall
      case h_2 c α f next h =>
        split at hok
        case h_1 v a hf =>
          cases hok
          exact .worked h hf
        case h_2 => cases hok
      case h_3 c r h =>
        cases hok
        exact .ended h
      case h_4 c released r h =>
        split at hok
        case isTrue hlt =>
          cases hok
          exact .released h hlt
        case isFalse hall =>
          cases hok
          exact .returned h (Nat.not_lt.mp hall)
      case h_5 => cases hok

end State

end Locking
