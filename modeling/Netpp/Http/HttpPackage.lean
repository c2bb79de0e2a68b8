import Netpp.Buffer.Fifo
import Netpp.Http.HttpRequest
import Netpp.Library.MessageSyntax

/-!
# Encoding a message

`HttpPackage::encode` writes the header section of a message into an array. It writes
`HTTP1.1` for the version, nothing between the name of a field and its value, and no
value for the content length, so no reader of HTTP finds a start line in what is written.
Two requests whose lines are the same cannot be told apart.
-/

namespace Netpp

open Text (ascii)

structure HttpPackage where
  /-- The array that `m_headerField` points to. -/
  headerField : ByteArray
  /-- The array that `m_bodyField` points to. -/
  bodyField : ByteArray

namespace HttpPackage

open Netpp.ByteArray

/-- `writeRaw`, which fails if there is no memory left. -/
def write (b : ByteArray) (data : List UInt8) : Except Fault ByteArray :=
  if memoryLimit ≤ b.readableBytes + data.length then .error .badAlloc else b.writeRaw data

/-- The body of the loop over the header map. -/
def writeHeader (b : ByteArray) (h : List UInt8 × List UInt8) : Except Fault ByteArray := do
  let b ← write b h.1
  let b ← write b h.2
  write b (ascii "\r\n")

/-- The branch for a body without a content length. -/
def writeContentLength (b : ByteArray) (m : HttpBaseRequest) : Except Fault ByteArray :=
  if !m.hasHeader .ContentLength && m.body.readableBytes != 0 then do
    let b ← write b (getHeaderAsString .ContentLength)
    write b (ascii "\r\n")
  else return b

/-- What both `encode` do after the start line. -/
def encodeFields (b : ByteArray) (m : HttpBaseRequest) : Except Fault HttpPackage := do
  let b ← m.header.toList.foldlM writeHeader b
  let b ← writeContentLength b m
  let b ← write b (ascii "\r\n")
  return ⟨b, m.body⟩

def encodeRequest (p : HttpPackage) (request : HttpRequest) : Except Fault HttpPackage := do
  let b ← write p.headerField (getMethodAsString request.method)
  let b ← write b (ascii " ")
  let b ← write b (ascii "/")
  let b ← write b (ascii " ")
  let b ← write b (getHttpVersionAsString request.version)
  let b ← write b (ascii "\r\n")
  encodeFields b request.toHttpBaseRequest

def encodeResponse (p : HttpPackage) (response : HttpResponse) : Except Fault HttpPackage := do
  let b ← write p.headerField (getHttpVersionAsString response.version)
  let b ← write b (ascii " ")
  let b ← write b (ascii (toString response.statusCode.code))
  let b ← write b (ascii " ")
  let b ← write b response.status
  let b ← write b (ascii "\r\n")
  encodeFields b response.toHttpBaseRequest

variable {b b' : ByteArray} {p p' : HttpPackage} {q data startLine startLine' : List UInt8}
variable {m m' : HttpBaseRequest}

/-! ## What is written -/

/-- The lines behind the start line. -/
def lines (m : HttpBaseRequest) : List (List UInt8) :=
  (m.header.toList.map fun h => h.1 ++ h.2) ++
    if !m.hasHeader .ContentLength && m.body.readableBytes != 0 then
      [getHeaderAsString .ContentLength]
    else []

/-- The text with this start line. -/
def text (startLine : List UInt8) (m : HttpBaseRequest) : List UInt8 :=
  Http.lineText startLine (lines m)

def requestLine (request : HttpRequest) : List UInt8 :=
  getMethodAsString request.method ++ 32 :: 47 :: 32 :: getHttpVersionAsString request.version

def statusLine (response : HttpResponse) : List UInt8 :=
  getHttpVersionAsString response.version ++
    32 :: (ascii (toString response.statusCode.code) ++ 32 :: response.status)

theorem write_append (h : Holds memoryLimit b q) (hok : write b data = .ok b') :
    Holds memoryLimit b' (q ++ data) := by
  have hreadable := h.readableBytes
  rw [write] at hok
  split at hok
  next => cases hok
  next hmemory =>
    obtain ⟨b'', hwrite, hholds⟩ := h.writeRaw data memoryLimit_le (by omega)
    rw [hwrite] at hok
    cases hok
    exact hholds

theorem crlf_eq : ascii "\r\n" = Http.crlf := by decide

theorem space_eq : ascii " " = [32] := by decide

/-- Several writes append one after the other. -/
theorem writes_append {pieces : List (List UInt8)} (h : Holds memoryLimit b q)
    (hok : pieces.foldlM write b = .ok b') : Holds memoryLimit b' (q ++ pieces.flatten) := by
  induction pieces generalizing b q with
  | nil =>
      cases hok
      simpa using h
  | cons piece pieces ih =>
      rw [List.foldlM_cons] at hok
      obtain ⟨b₁, hpiece, hok⟩ := Except.exists_of_bind_eq_ok hok
      have hholds := ih (write_append h hpiece) hok
      rwa [List.append_assoc] at hholds

theorem writeHeader_eq (b : ByteArray) (field : List UInt8 × List UInt8) :
    writeHeader b field = [field.1, field.2, Http.crlf].foldlM write b := by
  simp [writeHeader, crlf_eq]

theorem writeHeaders_append {headers : List (List UInt8 × List UInt8)} (h : Holds memoryLimit b q)
    (hok : headers.foldlM writeHeader b = .ok b') :
    Holds memoryLimit b' (q ++ headers.flatMap fun h => h.1 ++ h.2 ++ Http.crlf) := by
  induction headers generalizing b q with
  | nil =>
      cases hok
      simpa using h
  | cons field headers ih =>
      rw [List.foldlM_cons] at hok
      obtain ⟨b₁, hfield, hok⟩ := Except.exists_of_bind_eq_ok hok
      rw [writeHeader_eq] at hfield
      have hholds := ih (writes_append h hfield) hok
      simpa using hholds

theorem encodeFields_append (h : Holds memoryLimit b (startLine ++ Http.crlf))
    (hok : encodeFields b m = .ok p) : p.headerField.unread = text startLine m := by
  obtain ⟨b₁, hheaders, hok⟩ := Except.exists_of_bind_eq_ok hok
  obtain ⟨b₂, hlength, hok⟩ := Except.exists_of_bind_eq_ok hok
  obtain ⟨b₃, hend, hok⟩ := Except.exists_of_bind_eq_ok hok
  cases hok
  have hfields := writeHeaders_append h hheaders
  rw [text, Http.lineText, lines, List.flatMap_append, List.flatMap_map]
  by_cases hadded : (!m.hasHeader .ContentLength && m.body.readableBytes != 0) = true
  · rw [writeContentLength, if_pos hadded] at hlength
    obtain ⟨b₄, hname, hcrlf⟩ := Except.exists_of_bind_eq_ok hlength
    have hholds := write_append (write_append (write_append hfields hname) hcrlf) hend
    rw [if_pos hadded, hholds.1, crlf_eq]
    simp
  · rw [writeContentLength, if_neg hadded] at hlength
    cases hlength
    have hholds := write_append hfields hend
    rw [if_neg hadded, hholds.1, crlf_eq]
    simp

/-- What is written of a request into an empty array. -/
theorem encodeRequest_unread {request : HttpRequest} (h : Holds memoryLimit p.headerField [])
    (hok : p.encodeRequest request = .ok p') :
    p'.headerField.unread = text (requestLine request) request.toHttpBaseRequest := by
  have hpieces : p.encodeRequest request =
      [getMethodAsString request.method, [32], [47], [32], getHttpVersionAsString request.version,
        Http.crlf].foldlM write p.headerField >>= fun b =>
          encodeFields b request.toHttpBaseRequest := by
    simp [encodeRequest, crlf_eq, space_eq, show ascii "/" = [47] by decide]
  rw [hpieces] at hok
  obtain ⟨b, hline, hok⟩ := Except.exists_of_bind_eq_ok hok
  refine encodeFields_append ?_ hok
  have hholds := writes_append h hline
  simpa [requestLine] using hholds

/-- What is written of a response into an empty array. -/
theorem encodeResponse_unread {response : HttpResponse} (h : Holds memoryLimit p.headerField [])
    (hok : p.encodeResponse response = .ok p') :
    p'.headerField.unread = text (statusLine response) response.toHttpBaseRequest := by
  have hpieces : p.encodeResponse response =
      [getHttpVersionAsString response.version, [32], ascii (toString response.statusCode.code),
        [32], response.status, Http.crlf].foldlM write p.headerField >>= fun b =>
          encodeFields b response.toHttpBaseRequest := by
    simp [encodeResponse, crlf_eq, space_eq]
  rw [hpieces] at hok
  obtain ⟨b, hline, hok⟩ := Except.exists_of_bind_eq_ok hok
  refine encodeFields_append ?_ hok
  have hholds := writes_append h hline
  simpa [statusLine] using hholds

/-! ## What is read -/

/-- The byte of a digit. -/
def digit (n : Nat) : UInt8 := 48 + UInt8.ofNat n

/-- The headers that are to be read. -/
def headers (m : HttpBaseRequest) : List (List UInt8 × List UInt8) :=
  m.header.toList ++
    if !m.hasHeader .ContentLength && m.body.readableBytes != 0 then
      [(getHeaderAsString .ContentLength, ascii (toString m.body.readableBytes))]
    else []

/-- The request is encoded, and read as it was. -/
def RequestReadsBack (p : HttpPackage) (request : HttpRequest) : Prop :=
  ∃ (p' : HttpPackage) (line : Http.RequestLine) (fields : List Http.FieldLine),
    p.encodeRequest request = .ok p' ∧
      p'.headerField.unread = Http.headerSection line.bytes fields ∧
      line.method = getMethodAsString request.method ∧ line.target = request.url ∧
      line.major = digit request.version.majorVersion ∧
      line.minor = digit request.version.minorVersion ∧
      (fields.map Http.FieldLine.pair).Perm (headers request.toHttpBaseRequest)

/-- The response is encoded, and read as it was. -/
def ResponseReadsBack (p : HttpPackage) (response : HttpResponse) : Prop :=
  ∃ (p' : HttpPackage) (line : Http.StatusLine) (fields : List Http.FieldLine),
    p.encodeResponse response = .ok p' ∧
      p'.headerField.unread = Http.headerSection line.bytes fields ∧
      line.code = ascii (toString response.statusCode.code) ∧ line.reason = response.status ∧
      line.major = digit response.version.majorVersion ∧
      line.minor = digit response.version.minorVersion ∧
      (fields.map Http.FieldLine.pair).Perm (headers response.toHttpBaseRequest)

/-- The version is written without the slash. -/
theorem version_ne (version : ProtocolVersion) (major minor : UInt8) (rest rest' : List UInt8) :
    getHttpVersionAsString version ++ rest ≠ Http.version major minor ++ rest' := by
  have hfifth : 4 < (getHttpVersionAsString version).length ∧
      (getHttpVersionAsString version)[4]? ≠ some 47 := by
    cases version <;> decide
  intro heq
  have hslash := congrArg (fun bytes => bytes[4]?) heq
  rw [List.getElem?_append_left hfifth.1] at hslash
  exact hfifth.2 hslash

theorem space_not_mem_method (method : RequestMethod) : 32 ∉ getMethodAsString method := by
  cases method <;> decide

/-- Whatever the start line is to be, none is found in an encoded request. -/
theorem requestText_ne (request : HttpRequest) (line : Http.RequestLine)
    (fields : List Http.FieldLine) :
    text (requestLine request) request.toHttpBaseRequest ≠
      Http.headerSection line.bytes fields := by
  intro heq
  rw [text, Http.lineText, requestLine, Http.headerSection] at heq
  simp only [List.append_assoc, List.cons_append] at heq
  have hslash : (32 : UInt8) ∉ [47] := by decide
  obtain ⟨-, -, hversion⟩ := Http.RequestLine.bytes_inj
    (space_not_mem_method request.method) hslash heq
  exact version_ne _ _ _ _ _ hversion

theorem responseText_ne (response : HttpResponse) (line : Http.StatusLine)
    (fields : List Http.FieldLine) :
    text (statusLine response) response.toHttpBaseRequest ≠
      Http.headerSection line.bytes fields := by
  intro heq
  rw [text, Http.lineText, statusLine, Http.headerSection, Http.StatusLine.bytes] at heq
  simp only [List.append_assoc] at heq
  exact version_ne _ _ _ _ _ heq

theorem not_requestReadsBack (h : Holds memoryLimit p.headerField []) (request : HttpRequest) :
    ¬p.RequestReadsBack request := by
  rintro ⟨p', line, fields, hok, hunread, -⟩
  rw [encodeRequest_unread h hok] at hunread
  exact requestText_ne request line fields hunread

theorem not_responseReadsBack (h : Holds memoryLimit p.headerField [])
    (response : HttpResponse) : ¬p.ResponseReadsBack response := by
  rintro ⟨p', line, fields, hok, hunread, -⟩
  rw [encodeResponse_unread h hok] at hunread
  exact responseText_ne response line fields hunread

/-- No message is read back. -/
theorem not_readsBack (hreachable : p.headerField.Reachable) (hempty : p.headerField.unread = []) :
    (∀ request, ¬p.RequestReadsBack request) ∧ ∀ response, ¬p.ResponseReadsBack response := by
  have hholds := hreachable.holds
  rw [hempty] at hholds
  exact ⟨not_requestReadsBack hholds, not_responseReadsBack hholds⟩

/-- A package with new arrays. -/
def new : HttpPackage := ⟨ByteArray.new, ByteArray.new⟩

theorem not_readsBack_new :
    (∀ request, ¬new.RequestReadsBack request) ∧ ∀ response, ¬new.ResponseReadsBack response :=
  not_readsBack ⟨[], rfl⟩ rfl

/-- A request with this header. -/
def requestWith (header value : List UInt8) : HttpRequest :=
  { HttpRequest.new with
    toHttpBaseRequest :=
      { HttpRequest.new.toHttpBaseRequest with version := .Http1_1 }.addRawHeader header value
    url := ascii "/" }

/-- The header `a: b` and the header `ab` without a value are encoded alike, and neither
request is read back. -/
theorem readsBack_fails :
    (requestWith (ascii "a") (ascii "b")).header.toList ≠
      (requestWith (ascii "ab") []).header.toList ∧
    (new.encodeRequest (requestWith (ascii "a") (ascii "b"))).map
        (fun p => p.headerField.unread) = .ok (ascii "GET / HTTP1.1\r\nab\r\n\r\n") ∧
    (new.encodeRequest (requestWith (ascii "ab") [])).map (fun p => p.headerField.unread) =
      .ok (ascii "GET / HTTP1.1\r\nab\r\n\r\n") ∧
    ¬new.RequestReadsBack (requestWith (ascii "a") (ascii "b")) ∧
      ¬new.RequestReadsBack (requestWith (ascii "ab") []) := by
  refine ⟨by decide +kernel, by decide +kernel, by decide +kernel, ?_, ?_⟩
  · exact not_requestReadsBack (new_holds _) _
  · exact not_requestReadsBack (new_holds _) _

/-! ## Requests that are encoded alike -/

/-- Names that are not empty, and no line ends in names and values. -/
def WellFormed (m : HttpBaseRequest) : Prop :=
  ∀ h ∈ m.header.toList, h.1 ≠ [] ∧ 13 ∉ h.1 ∧ 13 ∉ h.2

theorem isLine_lines (hm : WellFormed m) : ∀ line ∈ lines m, Http.IsLine line := by
  intro line hline
  rcases List.mem_append.mp hline with hmem | hmem
  · obtain ⟨h, hh, rfl⟩ := List.mem_map.mp hmem
    obtain ⟨hne, hname, hvalue⟩ := hm h hh
    refine ⟨List.append_ne_nil_of_left_ne_nil hne h.2, fun hcr => ?_⟩
    exact (List.mem_append.mp hcr).elim hname hvalue
  · split at hmem
    next =>
      rw [List.mem_singleton.mp hmem]
      exact ⟨by decide, by decide⟩
    next => cases hmem

theorem cr_not_mem_requestLine (request : HttpRequest) : 13 ∉ requestLine request := by
  have hmethod : 13 ∉ getMethodAsString request.method := by cases request.method <;> decide
  have hversion : 13 ∉ getHttpVersionAsString request.version := by
    cases request.version <;> decide
  simp [requestLine, hmethod, hversion]

/-- The same is written of two requests exactly if their lines are the same. -/
theorem unread_eq_iff {p₁ p₂ p₁' p₂' : HttpPackage} {r₁ r₂ : HttpRequest}
    (h₁ : Holds memoryLimit p₁.headerField []) (h₂ : Holds memoryLimit p₂.headerField [])
    (hok₁ : p₁.encodeRequest r₁ = .ok p₁') (hok₂ : p₂.encodeRequest r₂ = .ok p₂')
    (hwell₁ : WellFormed r₁.toHttpBaseRequest) (hwell₂ : WellFormed r₂.toHttpBaseRequest) :
    p₁'.headerField.unread = p₂'.headerField.unread ↔
      requestLine r₁ = requestLine r₂ ∧
        lines r₁.toHttpBaseRequest = lines r₂.toHttpBaseRequest := by
  rw [encodeRequest_unread h₁ hok₁, encodeRequest_unread h₂ hok₂]
  constructor
  · exact Http.lineText_inj (cr_not_mem_requestLine r₁) (cr_not_mem_requestLine r₂)
      (isLine_lines hwell₁) (isLine_lines hwell₂)
  · rintro ⟨hline, hlines⟩
    rw [text, text, hline, hlines]

end HttpPackage

end Netpp
