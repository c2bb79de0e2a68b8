import Netpp.Buffer.ByteArray
import Netpp.Http.HttpCode

/-!
# HTTP messages

`HttpRequest` and `HttpResponse` share the fields of `HttpBaseRequest`. The header map
is a `std::map` of strings, an ordered map whose keys are compared byte by byte.
-/

namespace Netpp

/-- `std::map<std::string, std::string>`. -/
abbrev HeaderMap := Std.TreeMap (List UInt8) (List UInt8) compare

structure HttpBaseRequest where
  version : ProtocolVersion
  header : HeaderMap
  /-- The array that `m_bodyBuffer` points to. -/
  body : ByteArray

namespace HttpBaseRequest

/-- `std::map::emplace` inserts nothing if the key is there. -/
def addRawHeader (m : HttpBaseRequest) (header value : List UInt8) : HttpBaseRequest :=
  { m with header := m.header.insertIfNew header value }

def getRawHeader (m : HttpBaseRequest) (header : List UInt8) : List UInt8 :=
  (m.header[header]?).getD []

def getHeader (m : HttpBaseRequest) (header : KnownHeader) : List UInt8 :=
  m.getRawHeader (getHeaderAsString header)

def hasRawHeader (m : HttpBaseRequest) (header : List UInt8) : Bool := (m.header[header]?).isSome

def hasHeader (m : HttpBaseRequest) (header : KnownHeader) : Bool :=
  m.hasRawHeader (getHeaderAsString header)

end HttpBaseRequest

structure HttpRequest extends HttpBaseRequest where
  method : RequestMethod
  url : List UInt8

structure HttpResponse extends HttpBaseRequest where
  statusCode : StatusCode
  status : List UInt8

namespace HttpRequest

/-- The constructor. The body is set before it is used. -/
def new : HttpRequest :=
  { version := .Http2_0
    header := ∅
    body := ByteArray.new
    method := .Get
    url := [] }

end HttpRequest

namespace HttpResponse

/-- The constructor. The body is set before it is used. -/
def new : HttpResponse :=
  { version := .Http2_0
    header := ∅
    body := ByteArray.new
    statusCode := .OK
    status := getStatusAsString .OK }

def setStatus (m : HttpResponse) (code : StatusCode) : HttpResponse :=
  { m with statusCode := code, status := getStatusAsString code }

end HttpResponse

end Netpp
