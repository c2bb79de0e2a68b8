import Netpp.Http.HttpRequest
import Netpp.Http.Llhttp
import Netpp.Socket.SocketIO

/-!
# Decoding a message

`HttpParser` gives the bytes of a byte array to llhttp, which calls back into
`DecoderImpl`, and makes a message of what has been collected. The definitions follow
`src/internal/http/HttpPackage.cpp`.
-/

namespace Netpp

/-- The fields of `DecoderImpl` beside the parser. -/
structure DecoderImpl where
  headerField : List UInt8
  method : RequestMethod
  statusCode : StatusCode
  url : List UInt8
  version : ProtocolVersion
  header : HeaderMap

namespace DecoderImpl

/-- `resetParse`, which leaves nothing of an earlier use. -/
def resetParse : DecoderImpl :=
  { headerField := []
    method := .UnknownHeader
    statusCode := .OK
    url := []
    version := .UnkownProtocol
    header := ∅ }

/-! ## The callbacks -/

def onUrl (d : DecoderImpl) (text : List UInt8) : DecoderImpl := { d with url := text }

def onHeaderField (d : DecoderImpl) (text : List UInt8) : DecoderImpl :=
  { d with headerField := text }

def onHeaderValue (d : DecoderImpl) (text : List UInt8) : DecoderImpl :=
  { d with header := d.header.insertIfNew d.headerField text }

def call (d : DecoderImpl) : ParserCall → DecoderImpl
  | .onUrl text => d.onUrl text
  | .onHeaderField text => d.onHeaderField text
  | .onHeaderValue text => d.onHeaderValue text

/-- The decoder after the callbacks of a call of `llhttp_execute`. -/
def called (d : DecoderImpl) (calls : List ParserCall) : DecoderImpl := calls.foldl call d

/-! ## Parsing -/

def getCodeAndProtocolVersion (d : DecoderImpl) (r : Execution) : DecoderImpl :=
  { d with
    statusCode := ⟨r.statusCode⟩
    version := getHttpVersion r.httpMajor r.httpMinor
    method :=
      match r.method with
      | .HTTP_DELETE => .Delete
      | .HTTP_GET => .Get
      | .HTTP_HEAD => .Head
      | .HTTP_POST => .Post
      | .HTTP_PUT => .Put
      | .HTTP_CONNECT => .Connect
      | .HTTP_OPTIONS => .Options
      | .HTTP_TRACE => .Trace
      | .HTTP_PATCH => .Patch
      | .other _ => d.method }

/-- The array is adjusted by the number of bytes parsed, if that is more than none and
less than all of the `length` bytes of the buffer. The null pointer comes before every
buffer. -/
def setByteArrayLength (r : Execution) (b : ByteArray) (length : Nat) :
    Except Fault ByteArray :=
  match r.errorPos with
  | none => .ok b -- Unknown error while parsing http, unexpected pointer
  | some parsedLength =>
      if 0 < parsedLength ∧ parsedLength < length then
        ByteArrayReaderWithLock.adjustByteArray b parsedLength
      else .ok b -- Unknown error while parsing http, unexpected pointer

/-- What the loop of `parse` changes, and a record of its attempts: the number of
stretches that were copied and the code that was returned. -/
structure Retry where
  decoder : DecoderImpl
  array : ByteArray
  parseSuccess : Bool
  attempts : List (Nat × LlhttpErrno)

/-- The number of stretches that are copied when the loop variable is `i`. -/
def copied (nodeSize i : Nat) : Nat :=
  if Word64.sub i nodeSize < Word64.mul i 2 then nodeSize else i

/-- One attempt on the first `i` stretches of `vec`, with what llhttp does with them. -/
def attempt (execute : List UInt8 → Execution) (nodes : List BufferNode) (vec : List IOVec)
    (i : Nat) (s : Retry) : Except Fault Retry := do
  let buffer ← gather nodes (vec.take i)
  let r := execute buffer
  let d := s.decoder.called r.calls
  let attempts := s.attempts ++ [(i, r.errno)]
  if r.errno = .HPE_PAUSED_UPGRADE then do
    let b ← setByteArrayLength r s.array buffer.length
    .ok ⟨d.getCodeAndProtocolVersion r, b, true, attempts⟩
  else .ok { s with decoder := d, attempts := attempts }

/-- The loop of the default branch, of which llhttp does `execute n` in round `n`. -/
def retryLoop (execute : Nat → List UInt8 → Execution) (nodes : List BufferNode)
    (vec : List IOVec) : Nat → Nat → Nat → Retry → Except Fault Retry
  | 0, _, _, _ => .error .diverges
  | fuel + 1, n, i, s =>
      if i ≤ vec.length then do
        let s ← attempt (execute n) nodes vec (copied vec.length i) s
        retryLoop execute nodes vec fuel (n + 1) (Word64.mul (copied vec.length i) 2) s
      else .ok s

/-- The result, the decoder and the array. The fuel of the loop does not matter, as
`retryLoop_diverges` shows. -/
def parse (llhttp : Llhttp) (d : DecoderImpl) (b : ByteArray) :
    Except Fault (Bool × DecoderImpl × ByteArray) := do
  let vec ← ByteArrayReaderWithLock.iovec b
  match vec with
  | [] => .ok (false, d, b)
  | first :: _ => do
      let buffer ← gather b.nodes [first]
      let placement := llhttp.execute buffer
      let d := d.called placement.calls
      match placement.errno with
      | .HPE_OK | .HPE_PAUSED_UPGRADE => do -- the header is completed
          let b ← setByteArrayLength placement b buffer.length
          .ok (true, d.getCodeAndProtocolVersion placement, b)
      | .HPE_INVALID_METHOD | .HPE_INVALID_URL | .HPE_INVALID_CONSTANT | .HPE_INVALID_VERSION
      | .HPE_INVALID_HEADER_TOKEN | .HPE_INVALID_CONTENT_LENGTH | .HPE_INVALID_CHUNK_SIZE
      | .HPE_INVALID_STATUS | .HPE_INVALID_EOF_STATE | .HPE_INVALID_TRANSFER_ENCODING =>
          .ok (false, d, b) -- syntax error
      | .other _ => do -- header not completed, copy the nodes and restart
          let s ← retryLoop (fun _ => llhttp.execute) b.nodes vec 64 0 0 ⟨d, b, false, []⟩
          .ok (s.parseSuccess, s.decoder, s.array)

def decodedResponse (d : DecoderImpl) : HttpResponse :=
  { HttpResponse.new.setStatus d.statusCode with
    version := d.version
    header := d.header }

def decodedRequest (d : DecoderImpl) : HttpRequest :=
  { HttpRequest.new with
    method := d.method
    url := d.url
    version := d.version
    header := d.header }

end DecoderImpl

/-- The two kinds of messages, with what `decodeRequest` and `decodeResponse` do
differently. -/
class HttpMessage (μ : Type) where
  decoded : DecoderImpl → μ
  base : μ → HttpBaseRequest
  setBody : μ → ByteArray → μ
  base_decoded : ∀ d, (base (decoded d)).header = d.header
  base_setBody : ∀ m b, base (setBody m b) = { base m with body := b }
  setBody_setBody : ∀ m b b', setBody (setBody m b) b' = setBody m b'
  setBody_decoded : ∀ d, setBody (decoded d) ByteArray.new = decoded d

instance : HttpMessage HttpRequest where
  decoded := DecoderImpl.decodedRequest
  base := HttpRequest.toHttpBaseRequest
  setBody m b := { m with body := b }
  base_decoded _ := rfl
  base_setBody _ _ := rfl
  setBody_setBody _ _ _ := rfl
  setBody_decoded _ := rfl

instance : HttpMessage HttpResponse where
  decoded := DecoderImpl.decodedResponse
  base := HttpResponse.toHttpBaseRequest
  setBody m b := { m with body := b }
  base_decoded _ := rfl
  base_setBody _ _ := rfl
  setBody_setBody _ _ _ := rfl
  setBody_decoded _ := rfl

namespace HttpParser

open HttpMessage

/-- `decodeRequest` and `decodeResponse`: the message, if there is one, and the array. The
body of a message with a content length is the array itself, here the array as it is
then. -/
def decode (μ : Type) [HttpMessage μ] (llhttp : Llhttp) (b : ByteArray) :
    Except Fault (Option μ × ByteArray) := do
  let (parsed, d, b) ← DecoderImpl.resetParse.parse llhttp b
  if parsed then
    let m : μ := decoded d
    if (base m).hasHeader .ContentLength then .ok (some (setBody m b), b)
    else .ok (some (setBody m ByteArray.new), b)
  else .ok (none, b)

def decodeRequest (llhttp : Llhttp) (b : ByteArray) :
    Except Fault (Option HttpRequest × ByteArray) :=
  decode HttpRequest llhttp b

def decodeResponse (llhttp : Llhttp) (b : ByteArray) :
    Except Fault (Option HttpResponse × ByteArray) :=
  decode HttpResponse llhttp b

end HttpParser

end Netpp
