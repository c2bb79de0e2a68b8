import Netpp.Http.Layouts
import Netpp.Library.MessageSyntax

/-!
# The spelling of field names

The names of HTTP fields are case-insensitive. The header map compares them byte by byte
and a known header is looked up in one spelling, so a message agrees with another spelling
of itself only as far as the names that it looks up are spelled as `getHeaderAsString`
spells them, or are not, in both. `content-length` is not found, and its body is left in
the array.
-/

namespace Netpp

open Text (ascii)

/-- The fields that are reported while `name` is the name reported last. -/
def reportedFields : List UInt8 → List ParserCall → List (List UInt8 × List UInt8)
  | _, [] => []
  | name, .onUrl _ :: calls => reportedFields name calls
  | _, .onHeaderField text :: calls => reportedFields text calls
  | name, .onHeaderValue text :: calls => (name, text) :: reportedFields name calls

def Execution.fields (r : Execution) : List (List UInt8 × List UInt8) := reportedFields [] r.calls

/-- llhttp reports the fields of a header section as they are written. -/
def Llhttp.Verbatim (llhttp : Llhttp) : Prop :=
  ∀ startLine fields, 13 ∉ startLine → llhttp.HeaderSection (Http.headerSection startLine fields) →
    (llhttp.execute (Http.headerSection startLine fields)).fields = fields.map Http.FieldLine.pair

namespace HttpParser

open HttpMessage DecoderImpl Netpp.ByteArray

variable {μ : Type} [HttpMessage μ] {llhttp : Llhttp} {b b' : ByteArray}
variable {h h' rest : List UInt8}

/-! ## The header map -/

/-- The value in the map is the first one that is reported under this spelling. -/
theorem called_header (d : DecoderImpl) (calls : List ParserCall) (name : List UInt8) :
    (d.called calls).header[name]? =
      (d.header[name]?).or ((reportedFields d.headerField calls).lookup name) := by
  induction calls generalizing d with
  | nil => simp [called, reportedFields]
  | cons call calls ih =>
      rw [called, List.foldl_cons]
      change ((d.call call).called calls).header[name]? = _
      rw [ih]
      cases call with
      | onUrl text => rfl
      | onHeaderField text => rfl
      | onHeaderValue text =>
          change ((d.header.insertIfNew d.headerField text)[name]?).or
            ((reportedFields d.headerField calls).lookup name) = _
          rw [Std.TreeMap.getElem?_insertIfNew, reportedFields, List.lookup_cons]
          by_cases hname : d.headerField = name
          · subst hname
            by_cases hmem : d.headerField ∈ d.header
            · simp [hmem]
            · simp [hmem]
          · have hne : (name == d.headerField) = false := by simp [Ne.symm hname]
            simp [hname, hne]

theorem message_getElem? (r : Execution) (header : KnownHeader) :
    (base (r.message μ)).header[getHeaderAsString header]? =
      r.fields.lookup (getHeaderAsString header) := by
  rw [Execution.message, base_decoded]
  change ((resetParse.called r.calls).header[getHeaderAsString header]?) = _
  rw [called_header]
  rfl

theorem hasHeader_eq (r : Execution) (header : KnownHeader) :
    r.hasHeader header = (r.fields.lookup (getHeaderAsString header)).isSome := by
  rw [← hasHeader_message HttpRequest, HttpBaseRequest.hasHeader, HttpBaseRequest.hasRawHeader,
    message_getElem?]

/-! ## Two spellings -/

/-- The messages answer alike for every known header. -/
def AgreeOnHeaders (m m' : HttpBaseRequest) : Prop :=
  ∀ header, m.hasHeader header = m'.hasHeader header ∧ m.getHeader header = m'.getHeader header

/-- Both decodings give a message, and the messages agree and have the same body. -/
def Agree (μ : Type) [HttpMessage μ] (llhttp : Llhttp) (b b' : ByteArray) : Prop :=
  ∃ (m m' : μ) (b₁ b₁' : ByteArray), decode μ llhttp b = .ok (some m, b₁) ∧
    decode μ llhttp b' = .ok (some m', b₁') ∧ AgreeOnHeaders (base m) (base m') ∧
      (base m).body.unread = (base m').body.unread

/-- The fields that are seen of a message: its own if the header section lies in the first
node, otherwise what llhttp reports of the first node. -/
def fieldsSeen (llhttp : Llhttp) (startLine : List UInt8) (fields : List Http.FieldLine)
    (b : ByteArray) : List (List UInt8 × List UInt8) :=
  if (Http.headerSection startLine fields).length ≤ b.firstNode.length then
    fields.map Http.FieldLine.pair
  else (llhttp.execute b.firstNode).fields

/-- Under the exact spelling of each known header the same value is seen first. With a
content length, the header sections both end inside the first node, or neither does and
they are the same. -/
def SpelledAlike (llhttp : Llhttp) (startLine : List UInt8) (fields fields' : List Http.FieldLine)
    (b b' : ByteArray) : Prop :=
  (∀ header, (fieldsSeen llhttp startLine fields b).lookup (getHeaderAsString header) =
    (fieldsSeen llhttp startLine fields' b').lookup (getHeaderAsString header)) ∧
  (((fieldsSeen llhttp startLine fields b).lookup (getHeaderAsString .ContentLength)).isSome →
    EndsInside b (Http.headerSection startLine fields).length ∧
        EndsInside b' (Http.headerSection startLine fields').length ∨
      ¬EndsInside b (Http.headerSection startLine fields).length ∧
        ¬EndsInside b' (Http.headerSection startLine fields').length ∧
          Http.headerSection startLine fields = Http.headerSection startLine fields')

/-- To answer alike is to have the same values. -/
theorem agreeOnHeaders_iff {m m' : HttpBaseRequest} : AgreeOnHeaders m m' ↔
    ∀ header, m.header[getHeaderAsString header]? = m'.header[getHeaderAsString header]? := by
  refine forall_congr' fun header => ?_
  rw [HttpBaseRequest.hasHeader, HttpBaseRequest.hasHeader, HttpBaseRequest.getHeader,
    HttpBaseRequest.getHeader, HttpBaseRequest.hasRawHeader, HttpBaseRequest.hasRawHeader,
    HttpBaseRequest.getRawHeader, HttpBaseRequest.getRawHeader]
  constructor
  · rintro ⟨hhas, hget⟩
    cases hm : m.header[getHeaderAsString header]? with
    | none =>
        rw [hm] at hhas
        exact (Option.not_isSome_iff_eq_none.mp (by rw [← hhas]; exact Bool.false_ne_true)).symm
    | some value =>
        rw [hm] at hhas hget
        obtain ⟨value', hm'⟩ := Option.isSome_iff_exists.mp hhas.symm
        rw [hm'] at hget
        rw [hm', show value = value' from hget]
  · intro heq
    rw [heq]
    exact ⟨rfl, rfl⟩

/-- What is seen of a message is what llhttp reports. -/
theorem fieldsSeen_eq (hdoc : llhttp.Documented) (hverbatim : llhttp.Verbatim)
    {startLine : List UInt8} {fields : List Http.FieldLine} (hline : 13 ∉ startLine)
    (hh : llhttp.HeaderSection (Http.headerSection startLine fields))
    (hholds : Holds memoryLimit b (Http.headerSection startLine fields ++ rest)) :
    fieldsSeen llhttp startLine fields b = (llhttp.execute b.firstNode).fields := by
  rw [fieldsSeen]
  split
  next hinside =>
    rw [execute_firstNode hdoc hh hholds hinside, hverbatim startLine fields hline hh]
  next => rfl

/-- The decodings of two header sections agree exactly if llhttp reports alike what is
looked up, and takes both off the array or neither. -/
theorem agree_iff_reported (hdoc : llhttp.Documented) (hh : llhttp.HeaderSection h)
    (hh' : llhttp.HeaderSection h') (hholds : Holds memoryLimit b (h ++ rest))
    (hholds' : Holds memoryLimit b' (h' ++ rest)) :
    Agree μ llhttp b b' ↔
      (∀ header, (llhttp.execute b.firstNode).fields.lookup (getHeaderAsString header) =
        (llhttp.execute b'.firstNode).fields.lookup (getHeaderAsString header)) ∧
      ((llhttp.execute b.firstNode).hasHeader .ContentLength = true →
        EndsInside b h.length ∧ EndsInside b' h'.length ∨
          ¬EndsInside b h.length ∧ ¬EndsInside b' h'.length ∧ h = h') := by
  obtain ⟨b₁, hdecode, hdropped, hkept⟩ := decode_of_prefix (μ := μ) hdoc hh hholds
  obtain ⟨b₁', hdecode', hdropped', hkept'⟩ := decode_of_prefix (μ := μ) hdoc hh' hholds'
  have hheaders (body body' : ByteArray) :
      AgreeOnHeaders (base (setBody ((llhttp.execute b.firstNode).message μ) body))
        (base (setBody ((llhttp.execute b'.firstNode).message μ) body')) ↔
      ∀ header, (llhttp.execute b.firstNode).fields.lookup (getHeaderAsString header) =
        (llhttp.execute b'.firstNode).fields.lookup (getHeaderAsString header) := by
    rw [agreeOnHeaders_iff, base_setBody, base_setBody]
    exact forall_congr' fun header => by rw [message_getElem?, message_getElem?]
  have hbytes := left_eq_iff (hdoc.ne_nil h hh) (hdoc.ne_nil h' hh') hdropped hkept hdropped'
    hkept'
  have hbody : (∀ header, (llhttp.execute b.firstNode).fields.lookup (getHeaderAsString header) =
        (llhttp.execute b'.firstNode).fields.lookup (getHeaderAsString header)) →
      ((bodyOf (llhttp.execute b.firstNode) b₁).unread =
          (bodyOf (llhttp.execute b'.firstNode) b₁').unread ↔
        ((llhttp.execute b.firstNode).hasHeader .ContentLength = true →
          b₁.unread = b₁'.unread)) := by
    intro hsame
    have hhas : (llhttp.execute b'.firstNode).hasHeader .ContentLength =
        (llhttp.execute b.firstNode).hasHeader .ContentLength := by
      rw [hasHeader_eq, hasHeader_eq, hsame]
    rw [bodyOf, bodyOf, hhas]
    cases (llhttp.execute b.firstNode).hasHeader .ContentLength <;> simp
  have hunread (r : Execution) (body : ByteArray) :
      (base (setBody (r.message μ) body)).body.unread = body.unread := by
    rw [base_setBody]
  constructor
  · rintro ⟨m, m', c, c', hok, hok', hagree, hsame⟩
    rw [hdecode] at hok
    rw [hdecode'] at hok'
    cases hok
    cases hok'
    have hreported := (hheaders _ _).mp hagree
    rw [hunread, hunread, hbody hreported, hbytes] at hsame
    exact ⟨hreported, hsame⟩
  · rintro ⟨hreported, hlength⟩
    refine ⟨_, _, _, _, hdecode, hdecode', (hheaders _ _).mpr hreported, ?_⟩
    rw [hunread, hunread, hbody hreported, hbytes]
    exact hlength

/-- Two messages with one start line and the same body agree exactly if their fields are
spelled alike as far as the known headers. -/
theorem agree_iff (hdoc : llhttp.Documented) (hverbatim : llhttp.Verbatim)
    {startLine : List UInt8} {fields fields' : List Http.FieldLine} (hline : 13 ∉ startLine)
    (hh : llhttp.HeaderSection (Http.headerSection startLine fields))
    (hh' : llhttp.HeaderSection (Http.headerSection startLine fields'))
    (hholds : Holds memoryLimit b (Http.headerSection startLine fields ++ rest))
    (hholds' : Holds memoryLimit b' (Http.headerSection startLine fields' ++ rest)) :
    Agree μ llhttp b b' ↔ SpelledAlike llhttp startLine fields fields' b b' := by
  rw [agree_iff_reported hdoc hh hh' hholds hholds', SpelledAlike,
    fieldsSeen_eq hdoc hverbatim hline hh hholds, fieldsSeen_eq hdoc hverbatim hline hh' hholds',
    hasHeader_eq]

/-! ## `content-length` -/

theorem verbatim_of_written (known : KnownSections)
    (hwritten : ∀ k ∈ known.sections, ∃ startLine fields, 13 ∉ startLine ∧
      k.1 = Http.headerSection startLine fields ∧
        k.2.fields = fields.map Http.FieldLine.pair) : known.llhttp.Verbatim := by
  rintro startLine fields hline ⟨r, hmem⟩
  obtain ⟨startLine', fields', hline', hsection, hfields⟩ := hwritten _ hmem
  rw [(Http.headerSection_inj hline hline' hsection).2, ← hfields]
  have hexecute := congrArg Execution.fields (KnownSections.execute_self hmem)
  exact hexecute

/-- A field line with a body length of one. -/
def lengthLine (name : List UInt8) (hne : name ≠ [])
    (htoken : ∀ c ∈ name, Http.isTokenChar c = true) : Http.FieldLine where
  name := name
  before := [32]
  value := [49]
  after := []
  name_ne_nil := hne
  name_token := htoken
  before_blank := List.forall_mem_singleton.mpr (by decide)
  after_blank := List.forall_mem_nil _
  value_line := List.forall_mem_singleton.mpr (by decide)
  value_head := by
    rintro c ⟨⟩
    decide
  value_last := by
    rintro c ⟨⟩
    decide

theorem respelled_lengthLine {name name' : List UInt8} (hne : name ≠ []) (hne' : name' ≠ [])
    (htoken : ∀ c ∈ name, Http.isTokenChar c = true)
    (htoken' : ∀ c ∈ name', Http.isTokenChar c = true) (hletters : Http.SameLetters name name') :
    Http.Respelled [lengthLine name hne htoken] [lengthLine name' hne' htoken'] :=
  .cons ⟨hletters, rfl, rfl, rfl⟩ .nil

def contentLength : Http.FieldLine :=
  lengthLine (ascii "Content-Length") (by decide) (List.all_eq_true.mp (by decide))

def contentLength' : Http.FieldLine :=
  lengthLine (ascii "content-length") (by decide) (List.all_eq_true.mp (by decide))

def lengthSection (field : Http.FieldLine) : List UInt8 :=
  Http.headerSection (ascii "GET / HTTP/1.1") [field]

/-- What llhttp reports of a request with this field. -/
def lengthExecution (field : Http.FieldLine) : Execution :=
  ⟨.HPE_PAUSED_UPGRADE, some (lengthSection field).length,
    [.onUrl (ascii "/"), .onHeaderField field.name, .onHeaderValue field.value], .HTTP_GET, 0, 1, 1⟩

/-- The parser that knows both spellings. -/
def lengthSections : KnownSections where
  sections := [contentLength, contentLength'].map fun field =>
    (lengthSection field, lengthExecution field)
  ne_nil := by decide
  prefixFree := by
    intro k hk k' hk' hprefix
    rw [List.map_cons, List.map_singleton, List.mem_pair] at hk hk'
    rcases hk with rfl | rfl <;> rcases hk' with rfl | rfl
    · rfl
    · exact absurd hprefix (by decide)
    · exact absurd hprefix (by decide)
    · rfl

theorem lengthSections_verbatim : lengthSections.llhttp.Verbatim := by
  refine verbatim_of_written lengthSections fun k hk => ?_
  obtain ⟨field, -, rfl⟩ := List.mem_map.mp hk
  exact ⟨ascii "GET / HTTP/1.1", [field], by decide, rfl, rfl⟩

theorem headerSection_length {field : Http.FieldLine}
    (hfield : field ∈ [contentLength, contentLength']) :
    lengthSections.llhttp.HeaderSection (lengthSection field) :=
  KnownSections.headerSection (List.mem_map_of_mem hfield)

/-- The two spellings of a request with a body of one byte. -/
theorem agree_iff_respelled : ∃ b b', b.unread = lengthSection contentLength ++ [88] ∧
    b'.unread = lengthSection contentLength' ++ [88] ∧
      (Agree HttpRequest lengthSections.llhttp b b' ↔
        SpelledAlike lengthSections.llhttp (ascii "GET / HTTP/1.1") [contentLength]
          [contentLength'] b b') := by
  obtain ⟨b, hb, hunread⟩ := exists_made [.put (lengthSection contentLength ++ [88])]
    ByteArray.unread (lengthSection contentLength ++ [88]) (by decide +kernel)
  obtain ⟨b', hb', hunread'⟩ := exists_made [.put (lengthSection contentLength' ++ [88])]
    ByteArray.unread (lengthSection contentLength' ++ [88]) (by decide +kernel)
  have hholds := hb.holds
  have hholds' := hb'.holds
  rw [hunread] at hholds
  rw [hunread'] at hholds'
  exact ⟨b, b', hunread, hunread', agree_iff lengthSections.documented lengthSections_verbatim
    (by decide) (headerSection_length (List.mem_pair.mpr (.inl rfl)))
    (headerSection_length (List.mem_pair.mpr (.inr rfl))) hholds hholds'⟩

/-- A request with `content-length` is taken to have no body, and its body stays in the
array. -/
theorem agree_fails : Http.Respelled [contentLength] [contentLength'] ∧
    ∃ b b', b.Reachable ∧ b'.Reachable ∧ b.unread = lengthSection contentLength ++ [88] ∧
      b'.unread = lengthSection contentLength' ++ [88] ∧
        ¬Agree HttpRequest lengthSections.llhttp b b' := by
  refine ⟨respelled_lengthLine _ _ _ _ (by decide), ?_⟩
  obtain ⟨b, hb, hobserved⟩ := exists_made [.put (lengthSection contentLength ++ [88])]
    (fun b => (b.unread, (decodeRequest lengthSections.llhttp b).map fun r =>
      r.1.map fun m => m.hasHeader .ContentLength))
    (lengthSection contentLength ++ [88], .ok (some true)) (by decide +kernel)
  obtain ⟨b', hb', hobserved'⟩ := exists_made [.put (lengthSection contentLength' ++ [88])]
    (fun b => (b.unread, (decodeRequest lengthSections.llhttp b).map fun r =>
      r.1.map fun m => m.hasHeader .ContentLength))
    (lengthSection contentLength' ++ [88], .ok (some false)) (by decide +kernel)
  obtain ⟨hunread, hfound⟩ := Prod.mk.inj hobserved
  obtain ⟨hunread', hmissed⟩ := Prod.mk.inj hobserved'
  refine ⟨b, b', hb, hb', hunread, hunread', ?_⟩
  rintro ⟨m, m', b₁, b₁', hok, hok', hagree, -⟩
  change decodeRequest _ b = _ at hok
  change decodeRequest _ b' = _ at hok'
  rw [hok] at hfound
  rw [hok'] at hmissed
  injection hfound with hfound
  injection hmissed with hmissed
  have hhas := (hagree .ContentLength).1
  change m.hasHeader .ContentLength = m'.hasHeader .ContentLength at hhas
  injection hfound with hfound
  injection hmissed with hmissed
  exact absurd (hfound.symm.trans (hhas.trans hmissed)) (by decide)

end HttpParser

end Netpp
