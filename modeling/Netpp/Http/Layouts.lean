import Netpp.Http.Consume

/-!
# Decoding and the layout of the array

Two arrays may hold the same bytes in different nodes. `LayoutIndependent` says that
decoding them gives the same message, and a message exactly if the header section is
complete. llhttp sees the first node only and reports no error if the header section goes
on behind it, and `parse` takes that for a complete one. So the message depends on where
the first node ends, and an incomplete header section gives a message as well.

What llhttp reports of bytes on which a header section ends too early is not documented, and
the message is made of it. `Resembles` are the parsers that may differ in this only;
`Determined` is the condition on the arrays under which the decoding comes out right with
each of them.
-/

namespace Netpp

namespace Llhttp

/-- The bytes begin with a complete header section. -/
def Complete (llhttp : Llhttp) (q : List UInt8) : Prop :=
  ∃ h rest, llhttp.HeaderSection h ∧ q = h ++ rest

/-- The bytes are a strict prefix of a header section. -/
def Incomplete (llhttp : Llhttp) (q : List UInt8) : Prop :=
  ∃ s, s ≠ [] ∧ llhttp.HeaderSection (q ++ s)

/-- The two parsers report the same, except perhaps of strict prefixes of header sections. -/
structure Resembles (llhttp' llhttp : Llhttp) : Prop where
  headerSection : llhttp'.HeaderSection = llhttp.HeaderSection
  execute : ∀ p, ¬llhttp.Incomplete p → llhttp'.execute p = llhttp.execute p

variable {llhttp llhttp' : Llhttp} {p q : List UInt8}

theorem Documented.not_complete_nil (hdoc : llhttp.Documented) : ¬llhttp.Complete [] := by
  rintro ⟨h, rest, hh, hnil⟩
  exact hdoc.ne_nil h hh (List.append_eq_nil_iff.mp hnil.symm).1

/-- No header section goes on behind a header section. -/
theorem Documented.not_complete (hdoc : llhttp.Documented) (hincomplete : llhttp.Incomplete q) :
    ¬llhttp.Complete q := by
  rintro ⟨h, rest, hh, rfl⟩
  obtain ⟨s, hs, hlong⟩ := hincomplete
  have hshort := hdoc.errorPos_of_complete h hh
  rw [← hdoc.execute_append h (rest ++ s) hh, ← List.append_assoc,
    hdoc.errorPos_of_complete _ hlong] at hshort
  injection hshort with hlength
  rw [List.length_append, List.length_append] at hlength
  have hpos := List.length_pos_iff.mpr hs
  omega

theorem Documented.errno_of_cut (hdoc : llhttp.Documented) (hp : llhttp.Incomplete p) :
    (llhttp.execute p).errno = .HPE_OK := by
  obtain ⟨s, hs, hh⟩ := hp
  exact hdoc.errno_of_incomplete p s hh hs

theorem Documented.errorPos_of_cut (hdoc : llhttp.Documented) (hp : llhttp.Incomplete p) :
    (llhttp.execute p).errorPos = none := by
  obtain ⟨s, hs, hh⟩ := hp
  exact hdoc.errorPos_of_incomplete p s hh hs

theorem Resembles.complete_iff (h : llhttp'.Resembles llhttp) :
    llhttp'.Complete q ↔ llhttp.Complete q := by
  rw [Complete, Complete, h.headerSection]

/-- A header section is not a strict prefix of one. -/
theorem Documented.not_incomplete {h : List UInt8} (hdoc : llhttp.Documented)
    (hh : llhttp.HeaderSection h) : ¬llhttp.Incomplete h := fun hincomplete =>
  hdoc.not_complete hincomplete ⟨h, [], hh, (List.append_nil h).symm⟩

/-! ## A parser that reports something else -/

/-- The parser that makes other calls on the bytes `p`. -/
def reporting (llhttp : Llhttp) (p : List UInt8) (calls : List ParserCall) : Llhttp where
  execute bytes :=
    if bytes = p then { llhttp.execute p with calls := calls } else llhttp.execute bytes
  HeaderSection := llhttp.HeaderSection

variable {calls : List ParserCall}

theorem reporting_execute_of_ne {bytes : List UInt8} (h : bytes ≠ p) :
    (llhttp.reporting p calls).execute bytes = llhttp.execute bytes := if_neg h

theorem reporting_execute_self :
    (llhttp.reporting p calls).execute p = { llhttp.execute p with calls := calls } := if_pos rfl

theorem reporting_errno (bytes : List UInt8) :
    ((llhttp.reporting p calls).execute bytes).errno = (llhttp.execute bytes).errno ∧
      ((llhttp.reporting p calls).execute bytes).errorPos = (llhttp.execute bytes).errorPos := by
  by_cases hbytes : bytes = p
  · subst hbytes
    rw [reporting_execute_self]
    exact ⟨rfl, rfl⟩
  · rw [reporting_execute_of_ne hbytes]
    exact ⟨rfl, rfl⟩

theorem reporting_resembles (hp : llhttp.Incomplete p) :
    (llhttp.reporting p calls).Resembles llhttp where
  headerSection := rfl
  execute _ hbytes := reporting_execute_of_ne fun heq => hbytes (heq ▸ hp)

/-- Nothing is documented of the calls on a strict prefix of a header section. -/
theorem Documented.reporting (hdoc : llhttp.Documented) (hp : llhttp.Incomplete p) :
    (llhttp.reporting p calls).Documented where
  ne_nil := hdoc.ne_nil
  errno_of_complete h hh := (reporting_errno h).1.trans (hdoc.errno_of_complete h hh)
  errorPos_of_complete h hh := (reporting_errno h).2.trans (hdoc.errorPos_of_complete h hh)
  execute_append h rest hh := by
    have hne : h ≠ p := fun heq => hdoc.not_incomplete hh (heq ▸ hp)
    have hne' : h ++ rest ≠ p := fun heq => hdoc.not_complete hp ⟨h, rest, hh, heq.symm⟩
    rw [reporting_execute_of_ne hne, reporting_execute_of_ne hne', hdoc.execute_append h rest hh]
  errno_of_incomplete bytes s hh hs :=
    (reporting_errno bytes).1.trans (hdoc.errno_of_incomplete bytes s hh hs)
  errorPos_of_incomplete bytes s hh hs :=
    (reporting_errno bytes).2.trans (hdoc.errorPos_of_incomplete bytes s hh hs)

end Llhttp

namespace HttpParser

open HttpMessage DecoderImpl Netpp.ByteArray

/-- What can be seen of a message: the message beside its body, and the bytes of that. -/
def observe {μ : Type} [HttpMessage μ] (m : μ) : μ × List UInt8 :=
  (setBody m ByteArray.new, (base m).body.unread)

/-- Two decodings of arrays that hold `q` agree, and are right. -/
structure Alike {μ : Type} [HttpMessage μ] (llhttp : Llhttp) (q : List UInt8)
    (r₁ r₂ : Option μ × ByteArray) : Prop where
  same : r₁.1.map observe = r₂.1.map observe
  isSome_iff : r₁.1.isSome = true ↔ llhttp.Complete q
  kept : llhttp.Incomplete q → r₁.1 = none ∧ r₁.2.unread = q ∧ r₂.2.unread = q

def LayoutIndependent (μ : Type) [HttpMessage μ] (llhttp : Llhttp) (q : List UInt8)
    (b₁ b₂ : ByteArray) : Prop :=
  ∃ r₁ r₂, decode μ llhttp b₁ = .ok r₁ ∧ decode μ llhttp b₂ = .ok r₂ ∧ Alike llhttp q r₁ r₂

/-- The condition on the two arrays: there are no bytes; or there is a complete header
section, the first nodes contain all of it or end at the same byte, and with a content length
it ends strictly inside both or inside none; or there is no complete header section, and llhttp
finds a syntax error in both first nodes. -/
def Determined (llhttp : Llhttp) (q : List UInt8) (b₁ b₂ : ByteArray) : Prop :=
  q = [] ∨
  (∃ h rest, llhttp.HeaderSection h ∧ q = h ++ rest ∧
    (h.length ≤ b₁.firstNode.length ∧ h.length ≤ b₂.firstNode.length ∨
      b₁.firstNode.length = b₂.firstNode.length) ∧
    ((llhttp.execute h).hasHeader .ContentLength = true →
      (EndsInside b₁ h.length ↔ EndsInside b₂ h.length))) ∨
  ¬llhttp.Complete q ∧ (llhttp.execute b₁.firstNode).errno.Rejected ∧
    (llhttp.execute b₂.firstNode).errno.Rejected

variable {μ : Type} [HttpMessage μ] {llhttp llhttp' : Llhttp} {b b₁ b₂ b' : ByteArray}
variable {p p' q h rest : List UInt8}

/-! ## One decoding -/

theorem observe_setBody (r : Execution) (b : ByteArray) :
    observe (setBody (r.message μ) b) = (r.message μ, b.unread) := by
  rw [observe, setBody_setBody, base_setBody, Execution.message, setBody_decoded]

/-- The header section goes on behind the first node. -/
theorem incomplete_of_lt (hh : llhttp.HeaderSection h)
    (hholds : Holds memoryLimit b (h ++ rest)) (hshort : b.firstNode.length < h.length) :
    llhttp.Incomplete b.firstNode := by
  obtain ⟨s, hs⟩ := List.prefix_of_prefix_length_le hholds.firstNode_prefix
    (List.prefix_append h rest) hshort.le
  refine ⟨s, ?_, hs ▸ hh⟩
  rintro rfl
  rw [List.append_nil] at hs
  exact absurd (congrArg List.length hs) hshort.ne

/-- Wherever the first node ends, a complete header section gives a message. -/
theorem decode_of_prefix (hdoc : llhttp.Documented) (hh : llhttp.HeaderSection h)
    (hholds : Holds memoryLimit b (h ++ rest)) :
    ∃ b', decode μ llhttp b = .ok (some (setBody ((llhttp.execute b.firstNode).message μ)
        (bodyOf (llhttp.execute b.firstNode) b')), b') ∧
      (EndsInside b h.length → b'.unread = rest) ∧
        (¬EndsInside b h.length → b'.unread = h ++ rest) := by
  rcases Nat.lt_or_ge b.firstNode.length h.length with hshort | hinside
  · have hcut := incomplete_of_lt hh hholds hshort
    have hdecode : decode μ llhttp b = _ := decode_of_accepted hholds
      (List.append_ne_nil_of_left_ne_nil (hdoc.ne_nil h hh) rest) (.inl (hdoc.errno_of_cut hcut))
    have hkept : setByteArrayLength (llhttp.execute b.firstNode) b b.firstNode.length = .ok b := by
      refine setByteArrayLength_of_not_inside fun n hn => ?_
      rw [hdoc.errorPos_of_cut hcut] at hn
      cases hn
    refine ⟨b, by rw [hdecode, hkept]; rfl, fun hends => ?_, fun _ => hholds.1⟩
    exact absurd hends.1 (Nat.not_lt.mpr hshort.le)
  · obtain ⟨b', hdecode, hdropped, hkept⟩ := decode_of_complete (μ := μ) hdoc hh hholds hinside
    rw [execute_firstNode hdoc hh hholds hinside]
    exact ⟨b', hdecode, fun hends => (hdropped hends).1, hkept⟩

/-- A decoding that gives no message has found a syntax error and kept the array. -/
theorem rejected_of_decode (hholds : Holds memoryLimit b q) (hq : q ≠ [])
    (hok : decode μ llhttp b = .ok (none, b')) :
    (llhttp.execute b.firstNode).errno.Rejected := by
  cases herrno : (llhttp.execute b.firstNode).errno with
  | HPE_OK =>
      rw [decode_of_accepted hholds hq (.inl herrno)] at hok
      obtain ⟨b'', -, hsome⟩ := Except.exists_of_map_eq_ok hok
      cases hsome
  | HPE_PAUSED_UPGRADE =>
      rw [decode_of_accepted hholds hq (.inr herrno)] at hok
      obtain ⟨b'', -, hsome⟩ := Except.exists_of_map_eq_ok hok
      cases hsome
  | other code =>
      rw [decode_of_other hholds hq herrno] at hok
      cases hok
  | _ => trivial

/-! ## Two decodings -/

/-- Two header sections before the same rest leave the same if both are taken off the array,
or if neither is and they are the same. -/
theorem left_eq_iff {h' left left' : List UInt8} {inside inside' : Prop} (hne : h ≠ [])
    (hne' : h' ≠ []) (hdropped : inside → left = rest) (hkept : ¬inside → left = h ++ rest)
    (hdropped' : inside' → left' = rest) (hkept' : ¬inside' → left' = h' ++ rest) :
    left = left' ↔ inside ∧ inside' ∨ ¬inside ∧ ¬inside' ∧ h = h' := by
  have hrest : rest ≠ h ++ rest := fun heq => hne (List.append_left_eq_self.mp heq.symm)
  have hrest' : rest ≠ h' ++ rest := fun heq => hne' (List.append_left_eq_self.mp heq.symm)
  by_cases hin : inside
  · by_cases hin' : inside'
    · simp [hdropped hin, hdropped' hin', hin, hin']
    · simp [hdropped hin, hkept' hin', hin, hin', hrest']
  · by_cases hin' : inside'
    · simp [hkept hin, hdropped' hin', hin, hin', hrest.symm]
    · simp [hkept hin, hkept' hin', hin, hin']

/-- Two complete header sections. -/
theorem layoutIndependent_iff_of_complete (hdoc : llhttp.Documented)
    (hh : llhttp.HeaderSection h) (h₁ : Holds memoryLimit b₁ (h ++ rest))
    (h₂ : Holds memoryLimit b₂ (h ++ rest)) :
    LayoutIndependent μ llhttp (h ++ rest) b₁ b₂ ↔
      (llhttp.execute b₁.firstNode).message μ = (llhttp.execute b₂.firstNode).message μ ∧
        ((llhttp.execute b₁.firstNode).hasHeader .ContentLength = true →
          (EndsInside b₁ h.length ↔ EndsInside b₂ h.length)) := by
  have hcomplete : llhttp.Complete (h ++ rest) := ⟨h, rest, hh, rfl⟩
  obtain ⟨b₁', hdecode₁, hdropped₁, hkept₁⟩ := decode_of_prefix (μ := μ) hdoc hh h₁
  obtain ⟨b₂', hdecode₂, hdropped₂, hkept₂⟩ := decode_of_prefix (μ := μ) hdoc hh h₂
  have hne := hdoc.ne_nil h hh
  have hbytes : b₁'.unread = b₂'.unread ↔ (EndsInside b₁ h.length ↔ EndsInside b₂ h.length) := by
    rw [left_eq_iff hne hne hdropped₁ hkept₁ hdropped₂ hkept₂]
    by_cases hends : EndsInside b₁ h.length
    · simp [hends]
    · simp [hends]
  have hheader (heq : (llhttp.execute b₁.firstNode).message μ =
      (llhttp.execute b₂.firstNode).message μ) :
      (llhttp.execute b₁.firstNode).hasHeader .ContentLength =
        (llhttp.execute b₂.firstNode).hasHeader .ContentLength := by
    rw [← hasHeader_message μ, heq, hasHeader_message]
  constructor
  · rintro ⟨r₁, r₂, hok₁, hok₂, halike⟩
    rw [hdecode₁] at hok₁
    rw [hdecode₂] at hok₂
    cases hok₁
    cases hok₂
    have hsame := halike.same
    rw [Option.map_some, Option.map_some, observe_setBody, observe_setBody] at hsame
    injection hsame with hsame
    obtain ⟨hmessage, hbody⟩ := Prod.mk.inj hsame
    refine ⟨hmessage, fun hlength => hbytes.mp ?_⟩
    have hlength₂ := hlength
    rw [hheader hmessage] at hlength₂
    rwa [bodyOf, if_pos hlength, bodyOf, if_pos hlength₂] at hbody
  · rintro ⟨hmessage, hlength⟩
    refine ⟨_, _, hdecode₁, hdecode₂, ?_, by simp [hcomplete], fun hincomplete => ?_⟩
    · rw [Option.map_some, Option.map_some, observe_setBody, observe_setBody, hmessage, bodyOf,
        bodyOf, hheader hmessage]
      cases hhas : (llhttp.execute b₂.firstNode).hasHeader .ContentLength with
      | false => rfl
      | true =>
          rw [if_pos rfl, if_pos rfl, hbytes.mpr (hlength (by rw [hheader hmessage, hhas]))]
    · exact absurd hcomplete (hdoc.not_complete hincomplete)

/-- First nodes of the same length have the same bytes. -/
theorem firstNode_eq (h₁ : Holds memoryLimit b₁ q) (h₂ : Holds memoryLimit b₂ q)
    (hlength : b₁.firstNode.length = b₂.firstNode.length) : b₁.firstNode = b₂.firstNode :=
  (List.prefix_of_prefix_length_le h₁.firstNode_prefix h₂.firstNode_prefix hlength.le).eq_of_length
    hlength

/-- Under the condition two decodings do not depend on the layouts and are right. -/
theorem layoutIndependent_of_determined (hdoc : llhttp.Documented) (h₁ : Holds memoryLimit b₁ q)
    (h₂ : Holds memoryLimit b₂ q) (h : Determined llhttp q b₁ b₂) :
    LayoutIndependent μ llhttp q b₁ b₂ := by
  by_cases hq : q = []
  · subst hq
    refine ⟨_, _, decode_of_nil h₁, decode_of_nil h₂, rfl, ?_, fun _ => ⟨rfl, h₁.1, h₂.1⟩⟩
    simp [hdoc.not_complete_nil]
  rcases h with hnil | ⟨h, rest, hh, rfl, hnodes, hlength⟩ | ⟨hcomplete, hrejected₁, hrejected₂⟩
  · exact absurd hnil hq
  · rw [layoutIndependent_iff_of_complete hdoc hh h₁ h₂]
    rcases Nat.lt_or_ge b₁.firstNode.length h.length with hshort | hinside₁
    · -- both first nodes end at the same byte of the header section
      have hsame : b₁.firstNode.length = b₂.firstNode.length := by omega
      rw [firstNode_eq h₁ h₂ hsame]
      refine ⟨rfl, fun _ => iff_of_false (fun hends => ?_) (fun hends => ?_)⟩
      · exact absurd hends.1 (Nat.not_lt.mpr hshort.le)
      · exact absurd hends.1 (Nat.not_lt.mpr (hsame ▸ hshort.le))
    · have hinside₂ : h.length ≤ b₂.firstNode.length := by omega
      rw [execute_firstNode hdoc hh h₁ hinside₁, execute_firstNode hdoc hh h₂ hinside₂]
      exact ⟨rfl, hlength⟩
  · refine ⟨_, _, decode_of_rejected h₁ hq hrejected₁, decode_of_rejected h₂ hq hrejected₂, rfl,
      ?_, fun _ => ⟨rfl, h₁.1, h₂.1⟩⟩
    simp [hcomplete]

/-- The condition does not depend on what is not documented. -/
theorem Determined.of_resembles (hdoc : llhttp.Documented) (hresembles : llhttp'.Resembles llhttp)
    (h : Determined llhttp q b₁ b₂) : Determined llhttp' q b₁ b₂ := by
  have hrejected (bytes : List UInt8) (hrej : (llhttp.execute bytes).errno.Rejected) :
      (llhttp'.execute bytes).errno.Rejected := by
    rw [hresembles.execute bytes fun hcut => ?_]
    · exact hrej
    · rw [hdoc.errno_of_cut hcut] at hrej
      exact hrej
  rcases h with hnil | ⟨h, rest, hh, rfl, hnodes, hlength⟩ | ⟨hcomplete, hrejected₁, hrejected₂⟩
  · exact .inl hnil
  · refine .inr (.inl ⟨h, rest, hresembles.headerSection ▸ hh, rfl, hnodes, ?_⟩)
    rwa [hresembles.execute h (hdoc.not_incomplete hh)]
  · exact .inr (.inr ⟨mt hresembles.complete_iff.mp hcomplete, hrejected _ hrejected₁,
      hrejected _ hrejected₂⟩)

/-! ## What is not documented -/

/-- Messages with different headers are different. -/
theorem exists_calls_message_ne (r r' : Execution) :
    ∃ calls, { r with calls := calls }.message μ ≠ r'.message μ := by
  have hheader (r : Execution) : (base (r.message μ)).header = r.decoder.header := by
    rw [Execution.message, base_decoded]
  have hne {r : Execution} (hlookup : r.decoder.header[([] : List UInt8)]? ≠
      r'.decoder.header[([] : List UInt8)]?) : r.message μ ≠ r'.message μ := by
    intro heq
    apply hlookup
    rw [← hheader r, ← hheader r', heq]
  -- the field with the empty name is reported exactly if it has not been
  cases hname : r'.decoder.header[([] : List UInt8)]? with
  | none =>
      refine ⟨[.onHeaderField [], .onHeaderValue []], hne ?_⟩
      change (Std.TreeMap.insertIfNew (∅ : HeaderMap) [] [])[([] : List UInt8)]? ≠ _
      rw [hname, Std.TreeMap.getElem?_insertIfNew]
      simp
  | some value =>
      refine ⟨[], hne ?_⟩
      change (∅ : HeaderMap)[([] : List UInt8)]? ≠ _
      rw [hname]
      simp

/-- Of a strict prefix of a header section a parser may report another message than of any
other bytes. -/
theorem exists_resembles_message_ne (μ : Type) [HttpMessage μ] (hdoc : llhttp.Documented)
    (hp : llhttp.Incomplete p) (hne : p' ≠ p) :
    ∃ llhttp' : Llhttp, llhttp'.Documented ∧ llhttp'.Resembles llhttp ∧
      (llhttp'.execute p).message μ ≠ (llhttp'.execute p').message μ := by
  obtain ⟨calls, hcalls⟩ := exists_calls_message_ne (μ := μ) (llhttp.execute p) (llhttp.execute p')
  refine ⟨llhttp.reporting p calls, hdoc.reporting hp, Llhttp.reporting_resembles hp, ?_⟩
  rwa [Llhttp.reporting_execute_self, Llhttp.reporting_execute_of_ne hne]

/-- If every parser decodes a complete header section alike, the first nodes contain it or end
at the same byte. -/
theorem nodes_of_layoutIndependent (hdoc : llhttp.Documented) (hh : llhttp.HeaderSection h)
    (h₁ : Holds memoryLimit b₁ (h ++ rest)) (h₂ : Holds memoryLimit b₂ (h ++ rest))
    (hall : ∀ llhttp' : Llhttp, llhttp'.Documented → llhttp'.Resembles llhttp →
      LayoutIndependent μ llhttp' (h ++ rest) b₁ b₂) :
    h.length ≤ b₁.firstNode.length ∧ h.length ≤ b₂.firstNode.length ∨
      b₁.firstNode.length = b₂.firstNode.length := by
  have hmessage {llhttp' : Llhttp} (hdoc' : llhttp'.Documented)
      (hresembles : llhttp'.Resembles llhttp) :
      (llhttp'.execute b₁.firstNode).message μ = (llhttp'.execute b₂.firstNode).message μ :=
    ((layoutIndependent_iff_of_complete hdoc' (hresembles.headerSection ▸ hh) h₁ h₂).mp
      (hall llhttp' hdoc' hresembles)).1
  by_contra hnot
  rw [not_or, not_and_or, Nat.not_le, Nat.not_le] at hnot
  obtain ⟨hcut, hlengths⟩ := hnot
  rcases Nat.lt_or_gt_of_ne hlengths with hlt | hgt
  · have hp := incomplete_of_lt hh h₁ (by omega)
    have hne : b₂.firstNode ≠ b₁.firstNode := fun heq => hlengths (congrArg List.length heq.symm)
    obtain ⟨llhttp', hdoc', hresembles, hdiffers⟩ := exists_resembles_message_ne μ hdoc hp hne
    exact hdiffers (hmessage hdoc' hresembles)
  · have hp := incomplete_of_lt hh h₂ (by omega)
    have hne : b₁.firstNode ≠ b₂.firstNode := fun heq => hlengths (congrArg List.length heq)
    obtain ⟨llhttp', hdoc', hresembles, hdiffers⟩ := exists_resembles_message_ne μ hdoc hp hne
    exact hdiffers (hmessage hdoc' hresembles).symm

/-- Whatever llhttp reports of strict prefixes of header sections, two decodings do not depend
on the layouts and are right: this is so exactly under the condition. -/
theorem layoutIndependent_iff (hdoc : llhttp.Documented) (h₁ : Holds memoryLimit b₁ q)
    (h₂ : Holds memoryLimit b₂ q) :
    (∀ llhttp' : Llhttp, llhttp'.Documented → llhttp'.Resembles llhttp →
        LayoutIndependent μ llhttp' q b₁ b₂) ↔
      Determined llhttp q b₁ b₂ := by
  constructor
  · intro hall
    have hown := hall llhttp hdoc ⟨rfl, fun _ _ => rfl⟩
    by_cases hq : q = []
    · exact .inl hq
    by_cases hcomplete : llhttp.Complete q
    · obtain ⟨h, rest, hh, rfl⟩ := hcomplete
      have hnodes := nodes_of_layoutIndependent hdoc hh h₁ h₂ hall
      refine .inr (.inl ⟨h, rest, hh, rfl, hnodes, fun hhas => ?_⟩)
      rcases Nat.lt_or_ge b₁.firstNode.length h.length with hshort | hinside
      · refine iff_of_false (fun hends => ?_) (fun hends => ?_)
        · exact absurd hends.1 (by omega)
        · exact absurd hends.1 (by omega)
      · apply ((layoutIndependent_iff_of_complete hdoc hh h₁ h₂).mp hown).2
        rwa [execute_firstNode hdoc hh h₁ hinside]
    · obtain ⟨⟨m₁, b₁'⟩, ⟨m₂, b₂'⟩, hok₁, hok₂, hsame, hsome, -⟩ := hown
      have hnone₁ : m₁ = none :=
        Option.not_isSome_iff_eq_none.mp fun hsome₁ => hcomplete (hsome.mp hsome₁)
      subst hnone₁
      have hnone₂ : m₂ = none := Option.map_eq_none_iff.mp hsame.symm
      subst hnone₂
      exact .inr (.inr ⟨hcomplete, rejected_of_decode h₁ hq hok₁, rejected_of_decode h₂ hq hok₂⟩)
  · intro hdetermined llhttp' hdoc' hresembles
    exact layoutIndependent_of_determined hdoc' h₁ h₂ (hdetermined.of_resembles hdoc hresembles)

/-- The calls after which `q` is split behind its first byte. -/
def splitCalls (q : List UInt8) : List (Queue.Call UInt8) :=
  [.put (List.replicate 1023 0), .get 1023, .put q]

/-- A request that is followed by a byte, once in one node and once split after its first
byte. -/
theorem layoutIndependent_iff_split : ∃ b₁ b₂,
    b₁.unread = KnownSections.getSection ++ [88] ∧
      b₂.unread = KnownSections.getSection ++ [88] ∧ b₂.firstNode.length = 1 ∧
        ((∀ llhttp' : Llhttp, llhttp'.Documented → llhttp'.Resembles KnownSections.get.llhttp →
            LayoutIndependent HttpRequest llhttp' (KnownSections.getSection ++ [88]) b₁ b₂) ↔
          Determined KnownSections.get.llhttp (KnownSections.getSection ++ [88]) b₁ b₂) := by
  obtain ⟨b₁, hb₁, hunread₁⟩ := exists_made [.put (KnownSections.getSection ++ [88])]
    ByteArray.unread (KnownSections.getSection ++ [88]) (by decide +kernel)
  obtain ⟨b₂, hb₂, hobserved⟩ := exists_made (splitCalls (KnownSections.getSection ++ [88]))
    (fun b => (b.unread, b.firstNode.length)) (KnownSections.getSection ++ [88], 1)
    (by decide +kernel)
  obtain ⟨hunread₂, hfirst⟩ := Prod.mk.inj hobserved
  have h₁ := hb₁.holds
  have h₂ := hb₂.holds
  rw [hunread₁] at h₁
  rw [hunread₂] at h₂
  exact ⟨b₁, b₂, hunread₁, hunread₂, hfirst,
    layoutIndependent_iff KnownSections.get.documented h₁ h₂⟩

/-- A complete request, once in one node and once split after its first byte: the second
time it is decoded as another request. -/
theorem layoutIndependent_fails : ∃ b₁ b₂, b₁.Reachable ∧ b₂.Reachable ∧
    b₁.unread = KnownSections.getSection ∧ b₂.unread = KnownSections.getSection ∧
      ¬LayoutIndependent HttpRequest KnownSections.get.llhttp KnownSections.getSection b₁ b₂ := by
  obtain ⟨b₁, hb₁, hobserved₁⟩ := exists_made [.put KnownSections.getSection]
    (fun b => (b.unread,
      (decodeRequest KnownSections.get.llhttp b).map fun r => r.1.map HttpRequest.method))
    (KnownSections.getSection, .ok (some .Get)) (by decide +kernel)
  obtain ⟨b₂, hb₂, hobserved₂⟩ := exists_made (splitCalls KnownSections.getSection)
    (fun b => (b.unread,
      (decodeRequest KnownSections.get.llhttp b).map fun r => r.1.map HttpRequest.method))
    (KnownSections.getSection, .ok (some .Delete)) (by decide +kernel)
  obtain ⟨hunread₁, hget⟩ := Prod.mk.inj hobserved₁
  obtain ⟨hunread₂, hdelete⟩ := Prod.mk.inj hobserved₂
  refine ⟨b₁, b₂, hb₁, hb₂, hunread₁, hunread₂, ?_⟩
  rintro ⟨r₁, r₂, hok₁, hok₂, halike⟩
  change decodeRequest _ b₁ = _ at hok₁
  change decodeRequest _ b₂ = _ at hok₂
  rw [hok₁] at hget
  rw [hok₂] at hdelete
  injection hget with hget
  injection hdelete with hdelete
  have hmethod := congrArg (Option.map fun seen => seen.1.method) halike.same
  rw [Option.map_map, Option.map_map] at hmethod
  change r₁.1.map HttpRequest.method = r₂.1.map HttpRequest.method at hmethod
  exact absurd (hget.symm.trans (hmethod.trans hdelete)) (by decide)

end HttpParser

end Netpp
