import Netpp.Http.Decoding
import Netpp.Http.KnownSections
import Netpp.Library.Run

/-!
# Consuming the header section

A decoded header section is to be taken off the array. `setByteArrayLength` compares the
number of bytes parsed with the number of bytes in the first node, and if they are equal
it takes the position for a wrong one. So a header section stays in the array if nothing
follows it in its node, and is decoded again.
-/

namespace Netpp

namespace HttpParser

open HttpMessage DecoderImpl Netpp.ByteArray

variable {μ : Type} [HttpMessage μ] {llhttp : Llhttp} {b b' : ByteArray}
variable {h rest : List UInt8}

/-- The decoding succeeds and leaves exactly `rest` in the array. -/
def Leaves (μ : Type) [HttpMessage μ] (llhttp : Llhttp) (b : ByteArray) (rest : List UInt8) :
    Prop :=
  ∃ m b', decode μ llhttp b = .ok (some m, b') ∧ b'.unread = rest

/-- A header section of this length ends strictly before the first node does, and the
first node is the read node. -/
def EndsInside (b : ByteArray) (length : Nat) : Prop :=
  length < b.firstNode.length ∧ b.readStart < 1024

instance (b : ByteArray) (length : Nat) : Decidable (EndsInside b length) :=
  inferInstanceAs (Decidable (_ ∧ _))

/-- A header section that lies in the first node is what llhttp sees. -/
theorem execute_firstNode (hdoc : llhttp.Documented) (hh : llhttp.HeaderSection h)
    (hholds : Holds memoryLimit b (h ++ rest)) (hinside : h.length ≤ b.firstNode.length) :
    llhttp.execute b.firstNode = llhttp.execute h := by
  obtain ⟨tail, htail⟩ :=
    List.prefix_of_prefix_length_le (List.prefix_append h rest) hholds.firstNode_prefix hinside
  rw [← htail]
  exact hdoc.execute_append h tail hh

/-- What the decoding of a header section in the first node does to the array. -/
theorem decode_of_complete (hdoc : llhttp.Documented) (hh : llhttp.HeaderSection h)
    (hholds : Holds memoryLimit b (h ++ rest)) (hinside : h.length ≤ b.firstNode.length) :
    ∃ b', decode μ llhttp b = .ok (some (setBody ((llhttp.execute h).message μ)
        (bodyOf (llhttp.execute h) b')), b') ∧
      (EndsInside b h.length → Holds memoryLimit b' rest) ∧
        (¬EndsInside b h.length → b'.unread = h ++ rest) := by
  have hne : h ≠ [] := hdoc.ne_nil h hh
  have hexecute := execute_firstNode hdoc hh hholds hinside
  have hpos := hdoc.errorPos_of_complete h hh
  have hdecode : decode μ llhttp b = _ := decode_of_accepted hholds
    (List.append_ne_nil_of_left_ne_nil hne rest)
    (by rw [hexecute]; exact .inr (hdoc.errno_of_complete h hh))
  rw [hexecute] at hdecode
  by_cases hlt : h.length < b.firstNode.length
  · obtain ⟨b', hok, hdropped, hkept⟩ := setByteArrayLength_of_inside hholds hpos
      (List.length_pos_iff.mpr hne) hlt
    rw [List.drop_left] at hdropped
    refine ⟨b', by rw [hdecode, hok]; rfl, fun hends => hdropped hends.2, fun hnot => hkept ?_⟩
    exact fun hstart => hnot ⟨hlt, hstart⟩
  · have hok : setByteArrayLength (llhttp.execute h) b b.firstNode.length = .ok b := by
      refine setByteArrayLength_of_not_inside fun n hn hboth => ?_
      rw [hpos] at hn
      cases hn
      exact hlt hboth.2
    exact ⟨b, by rw [hdecode, hok]; rfl, fun hends => absurd hends.1 hlt, fun _ => hholds.1⟩

/-- The decoding of a header section in the first node leaves what follows it exactly if
the header section ends inside the node. -/
theorem leaves_iff (hdoc : llhttp.Documented) (hh : llhttp.HeaderSection h)
    (hholds : Holds memoryLimit b (h ++ rest)) (hinside : h.length ≤ b.firstNode.length) :
    Leaves μ llhttp b rest ↔ EndsInside b h.length := by
  obtain ⟨b', hdecode, hdropped, hkept⟩ := decode_of_complete (μ := μ) hdoc hh hholds hinside
  constructor
  · rintro ⟨m, b'', hok, hunread⟩
    rw [hdecode] at hok
    cases hok
    by_contra hnot
    rw [hkept hnot] at hunread
    exact hdoc.ne_nil h hh (List.append_left_eq_self.mp hunread)
  · intro hends
    exact ⟨_, b', hdecode, (hdropped hends).1⟩

/-- A request that is followed by a byte. -/
theorem leaves_iff_followed : ∃ b, b.Reachable ∧ b.unread = KnownSections.getSection ++ [88] ∧
    (Leaves HttpRequest KnownSections.get.llhttp b [88] ↔
      EndsInside b KnownSections.getSection.length) := by
  obtain ⟨b, hreachable, hobserved⟩ := exists_made [.put (KnownSections.getSection ++ [88])]
    (fun b => (b.unread, b.firstNode.length)) (KnownSections.getSection ++ [88], 19)
    (by decide +kernel)
  obtain ⟨hunread, hfirst⟩ := Prod.mk.inj hobserved
  have hholds := hreachable.holds
  rw [hunread] at hholds
  refine ⟨b, hreachable, hunread, leaves_iff KnownSections.get.documented
    KnownSections.headerSection_get hholds ?_⟩
  rw [hfirst]
  decide

/-- A request that nothing follows stays in the array. -/
theorem leaves_fails : ∃ b, b.Reachable ∧ b.unread = KnownSections.getSection ∧
    ¬Leaves HttpRequest KnownSections.get.llhttp b [] := by
  obtain ⟨b, hreachable, hobserved⟩ := exists_made [.put KnownSections.getSection]
    (fun b => (b.unread, (decodeRequest KnownSections.get.llhttp b).map fun r => r.2.unread))
    (KnownSections.getSection, .ok KnownSections.getSection) (by decide +kernel)
  obtain ⟨hunread, hdecode⟩ := Prod.mk.inj hobserved
  refine ⟨b, hreachable, hunread, ?_⟩
  rintro ⟨m, b', hok, hnil⟩
  obtain ⟨r, hok', hleft⟩ := Except.exists_of_map_eq_ok hdecode
  change decodeRequest _ b = _ at hok
  rw [hok] at hok'
  cases hok'
  rw [hnil] at hleft
  exact absurd hleft (by decide)

/-! ## Messages back to back -/

/-- Why a message is not followed by the next one. -/
inductive Halt where
  /-- There is no complete message. -/
  | incomplete
  | fault (f : Fault)

/-- Decode one message, of which the input says the header section. -/
def next (μ : Type) [HttpMessage μ] (llhttp : Llhttp) (b : ByteArray) (_ : List UInt8) :
    Except Halt ByteArray :=
  match decode μ llhttp b with
  | .ok (some _, b') => .ok b'
  | .ok (none, _) => .error .incomplete
  | .error f => .error (.fault f)

/-- Run lemma: header sections that come one after the other and each end inside the
first node are decoded once each. -/
theorem final_next (hdoc : llhttp.Documented) {hs : List (List UInt8)}
    (hsections : ∀ h ∈ hs, llhttp.HeaderSection h)
    (hholds : Holds memoryLimit b (hs.flatten ++ rest))
    (hends : Run.Always (next μ llhttp) (fun b h => EndsInside b h.length) b hs) :
    ∃ b', Run.final (next μ llhttp) b hs = .ok b' ∧ Holds memoryLimit b' rest := by
  induction hs generalizing b with
  | nil => exact ⟨b, rfl, hholds⟩
  | cons h hs ih =>
      obtain ⟨hinside, hrest⟩ := hends
      rw [List.flatten_cons, List.append_assoc] at hholds
      obtain ⟨b₁, hdecode, hdropped, -⟩ := decode_of_complete (μ := μ) hdoc
        (hsections h (List.mem_cons_self ..)) hholds hinside.1.le
      have hnext : next μ llhttp b h = .ok b₁ := by
        rw [next, hdecode]
      rw [Run.final_cons_of_ok hnext]
      exact ih (fun h' hmem => hsections h' (List.mem_cons_of_mem _ hmem)) (hdropped hinside)
        (hrest b₁ hnext)

end HttpParser

end Netpp
