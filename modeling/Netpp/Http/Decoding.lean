import Netpp.Http.RetryLoop
import Netpp.Socket.FirstNode

/-!
# What a decoding does

The decoder looks at the first stretch of the reader, so what it does with an array that
holds some bytes depends on the first node and on what llhttp reports of its bytes. A
code that llhttp returns is taken for a complete header section, for a syntax error, or
for neither: `decode_of_accepted`, `decode_of_rejected` and `decode_of_other`. Only in
the first case the array may change, and `setByteArrayLength_of_inside` and
`setByteArrayLength_of_not_inside` say how.
-/

namespace Netpp

namespace LlhttpErrno

/-- The codes that `parse` takes for a complete header section. -/
def Accepted (e : LlhttpErrno) : Prop := e = .HPE_OK ∨ e = .HPE_PAUSED_UPGRADE

/-- The codes that `parse` takes for a syntax error. -/
def Rejected : LlhttpErrno → Prop
  | .HPE_OK | .HPE_PAUSED_UPGRADE | .other _ => False
  | _ => True

end LlhttpErrno

/-- The decoder after it has been reset and llhttp has made its calls. -/
def Execution.decoder (r : Execution) : DecoderImpl :=
  (DecoderImpl.resetParse.called r.calls).getCodeAndProtocolVersion r

/-- The message that llhttp has reported, without its body. -/
def Execution.message (μ : Type) [HttpMessage μ] (r : Execution) : μ :=
  HttpMessage.decoded r.decoder

/-- llhttp has reported a header that is spelled like this. -/
def Execution.hasHeader (r : Execution) (header : KnownHeader) : Bool :=
  (r.decoder.header[getHeaderAsString header]?).isSome

namespace HttpParser

open HttpMessage DecoderImpl Netpp.ByteArray

variable {μ : Type} [HttpMessage μ] {llhttp : Llhttp} {b b' : ByteArray} {q : List UInt8}

theorem hasHeader_message (μ : Type) [HttpMessage μ] (r : Execution) (header : KnownHeader) :
    (base (r.message μ)).hasHeader header = r.hasHeader header := by
  rw [HttpBaseRequest.hasHeader, HttpBaseRequest.hasRawHeader, Execution.message, base_decoded,
    Execution.hasHeader]

/-- The body that goes with a report when the array is left as `b`. -/
def bodyOf (r : Execution) (b : ByteArray) : ByteArray :=
  if r.hasHeader .ContentLength then b else ByteArray.new

/-- There is nothing to decode. -/
theorem decode_of_nil {limit : Nat} (h : Holds limit b []) :
    decode μ llhttp b = .ok (none, b) := by
  rcases h.reader_first with ⟨hvec, -⟩ | ⟨v, vs, -, -, hne⟩
  · simp only [decode, parse, hvec, bind, Except.bind]
    rfl
  · exact absurd (List.prefix_nil.mp h.firstNode_prefix) hne

/-- The first node is taken for a message. -/
theorem decode_of_accepted {limit : Nat} (h : Holds limit b q) (hq : q ≠ [])
    (haccepted : (llhttp.execute b.firstNode).errno.Accepted) :
    decode μ llhttp b =
      (setByteArrayLength (llhttp.execute b.firstNode) b b.firstNode.length).map fun b' =>
        (some (setBody ((llhttp.execute b.firstNode).message μ)
          (bodyOf (llhttp.execute b.firstNode) b')), b') := by
  rcases h.reader_first with ⟨-, hnil⟩ | ⟨v, vs, hvec, hgather, -⟩
  · exact absurd hnil hq
  · obtain ⟨r, hr⟩ : ∃ r, r = llhttp.execute b.firstNode := ⟨_, rfl⟩
    rw [← hr] at haccepted ⊢
    have hparse : resetParse.parse llhttp b =
        (setByteArrayLength r b b.firstNode.length).map fun b' => (true, r.decoder, b') := by
      simp only [parse, hvec, hgather, ← hr, bind, Except.bind]
      rcases haccepted with hok | hpaused
      · simp only [hok]
        cases setByteArrayLength r b b.firstNode.length <;> rfl
      · simp only [hpaused]
        cases setByteArrayLength r b b.firstNode.length <;> rfl
    simp only [decode, hparse, bind, Except.bind]
    cases setByteArrayLength r b b.firstNode.length with
    | error f => rfl
    | ok b' =>
        have hheader := hasHeader_message μ r .ContentLength
        rw [Execution.message] at hheader
        simp only [Except.map, if_true, Execution.message, bodyOf, hheader]
        split <;> rfl

/-- The first node is taken for no message, and the array is left alone. -/
theorem decode_of_rejected {limit : Nat} (h : Holds limit b q) (hq : q ≠ [])
    (hrejected : (llhttp.execute b.firstNode).errno.Rejected) :
    decode μ llhttp b = .ok (none, b) := by
  rcases h.reader_first with ⟨-, hnil⟩ | ⟨v, vs, hvec, hgather, -⟩
  · exact absurd hnil hq
  · simp only [decode, parse, hvec, hgather, bind, Except.bind]
    cases herrno : (llhttp.execute b.firstNode).errno with
    | HPE_OK => rw [herrno] at hrejected; exact hrejected.elim
    | HPE_PAUSED_UPGRADE => rw [herrno] at hrejected; exact hrejected.elim
    | other code => rw [herrno] at hrejected; exact hrejected.elim
    | _ => rfl

/-- The decoding does not end. -/
theorem decode_of_other {limit : Nat} (h : Holds limit b q) (hq : q ≠ []) {code : Nat}
    (hother : (llhttp.execute b.firstNode).errno = .other code) :
    decode μ llhttp b = .error .diverges := by
  rcases h.reader_first with ⟨-, hnil⟩ | ⟨v, vs, hvec, hgather, -⟩
  · exact absurd hnil hq
  · simp only [decode, parse, hvec, hgather, hother, retryLoop_diverges, bind, Except.bind]

/-! ## The array afterwards -/

/-- Without a position inside the first node, the array is left alone. -/
theorem setByteArrayLength_of_not_inside {r : Execution} {length : Nat}
    (h : ∀ n, r.errorPos = some n → ¬(0 < n ∧ n < length)) :
    setByteArrayLength r b length = .ok b := by
  unfold setByteArrayLength
  cases hpos : r.errorPos with
  | none => rfl
  | some n => exact if_neg (h n hpos)

/-- With a position inside the first node, the bytes before it are dropped if the first
node is the read node. -/
theorem setByteArrayLength_of_inside {r : Execution} {n : Nat} (h : Holds memoryLimit b q)
    (hpos : r.errorPos = some n) (hzero : 0 < n) (hn : n < b.firstNode.length) :
    ∃ b', setByteArrayLength r b b.firstNode.length = .ok b' ∧
      (b.readStart < 1024 → Holds memoryLimit b' (q.drop n)) ∧
        (¬b.readStart < 1024 → b'.unread = q) := by
  have hset : setByteArrayLength r b b.firstNode.length =
      ByteArrayReaderWithLock.adjustByteArray b n := by
    rw [setByteArrayLength, hpos]
    exact if_pos ⟨hzero, hn⟩
  rw [hset]
  by_cases hstart : b.readStart < 1024
  · have hexact := (h.consumesExactly_iff hzero hn).mpr hstart
    obtain ⟨b', hok, hholds⟩ := h.adjustByteArray fun _ => hexact
    exact ⟨b', hok, fun _ => hholds, fun hnot => absurd hstart hnot⟩
  · obtain ⟨b', hok, hunread⟩ := h.adjustByteArray_of_exhausted hstart hn
    exact ⟨b', hok, fun hlt => absurd hlt hstart, fun _ => hunread⟩

end HttpParser

end Netpp
