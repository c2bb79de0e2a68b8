import Netpp.Library.Text

/-!
# The names of HTTP

The enumerations of `http/HttpCode.h` and the texts that belong to them, which are ASCII.
-/

namespace Netpp

open Text (ascii)

inductive ProtocolVersion where
  | UnkownProtocol | Http1_0 | Http1_1 | Http2_0
  deriving DecidableEq

namespace ProtocolVersion

def majorVersion : ProtocolVersion → Nat
  | UnkownProtocol => 0
  | Http1_0 => 1
  | Http1_1 => 1
  | Http2_0 => 2

def minorVersion : ProtocolVersion → Nat
  | UnkownProtocol => 0
  | Http1_0 => 0
  | Http1_1 => 1
  | Http2_0 => 0

end ProtocolVersion

def getHttpVersionAsString (version : ProtocolVersion) : List UInt8 :=
  ascii "HTTP" ++ ascii (toString version.majorVersion) ++ ascii "." ++
    ascii (toString version.minorVersion)

def getHttpVersion (major minor : Nat) : ProtocolVersion :=
  match major * 10 + minor with
  | 10 => .Http1_0
  | 11 => .Http1_1
  | 20 => .Http2_0
  | _ => .UnkownProtocol

inductive RequestMethod where
  | UnknownHeader | Get | Head | Post | Put | Delete | Connect | Options | Trace | Patch
  deriving DecidableEq

def getMethodAsString : RequestMethod → List UInt8
  | .UnknownHeader => ascii "UNKNOWN_HEADER"
  | .Get => ascii "GET"
  | .Head => ascii "HEAD"
  | .Post => ascii "POST"
  | .Put => ascii "PUT"
  | .Delete => ascii "DELETE"
  | .Connect => ascii "CONNECT"
  | .Options => ascii "OPTIONS"
  | .Trace => ascii "TRACE"
  | .Patch => ascii "PATCH"

inductive KnownHeader where
  | CacheControl | Expect | Host | MaxForwards | Pragma | Range | TE | IfMatch | IfNoneMatch
  | IfModifiedSince | IfUnmodifiedSince | IfRange | Accept | AcceptCharset | AcceptEncoding
  | AcceptLanguage | Authorization | ProxyAuthorization | From | Referer | UserAgent | Age
  | Expires | Date | Location | RetryAfter | Vary | Warning | ETag | LastModified
  | WWWAuthenticate | ProxyAuthenticate | AcceptRanges | Allow | Server | ContentEncoding
  | ContentLength | ContentType
  deriving DecidableEq

def getHeaderAsString : KnownHeader → List UInt8
  | .CacheControl => ascii "Cache-Control"
  | .Expect => ascii "Expect"
  | .Host => ascii "Host"
  | .MaxForwards => ascii "Max-Forwards"
  | .Pragma => ascii "Pragma"
  | .Range => ascii "Range"
  | .TE => ascii "Te"
  | .IfMatch => ascii "If-Match"
  | .IfNoneMatch => ascii "If-None-Match"
  | .IfModifiedSince => ascii "If-Modified-Since"
  | .IfUnmodifiedSince => ascii "If-Unmodified-Since"
  | .IfRange => ascii "If-Range"
  | .Accept => ascii "Accept"
  | .AcceptCharset => ascii "Accept-Charset"
  | .AcceptEncoding => ascii "Accept-Encoding"
  | .AcceptLanguage => ascii "Accept-Language"
  | .Authorization => ascii "Authorization"
  | .ProxyAuthorization => ascii "Proxy-Authorization"
  | .From => ascii "From"
  | .Referer => ascii "Referer"
  | .UserAgent => ascii "User-Agent"
  | .Age => ascii "Age"
  | .Expires => ascii "Expires"
  | .Date => ascii "Date"
  | .Location => ascii "Location"
  | .RetryAfter => ascii "Retry-After"
  | .Vary => ascii "Vary"
  | .Warning => ascii "Warning"
  | .ETag => ascii "Etag"
  | .LastModified => ascii "Last-Modified"
  | .WWWAuthenticate => ascii "WWW-Authenticate"
  | .ProxyAuthenticate => ascii "Proxy-Authenticate"
  | .AcceptRanges => ascii "Accept-Ranges"
  | .Allow => ascii "Allow"
  | .Server => ascii "Server"
  | .ContentEncoding => ascii "Content-Encoding"
  | .ContentLength => ascii "Content-Length"
  | .ContentType => ascii "Content-Type"

/-- An `enum class` over `int`: besides the enumerators, whatever a parser casts to it. -/
structure StatusCode where
  code : Nat
  deriving DecidableEq

/-- The enumerators with their texts. -/
def StatusCode.texts : List (Nat × String) :=
  [(100, "Continue"), (101, "Switching Protocols"), (200, "OK"), (201, "Created"),
    (202, "Accepted"), (203, "Non-Authoritative Information"), (204, "No Content"),
    (205, "Reset Content"), (206, "Partial Content"), (300, "Multiple Choices"),
    (301, "Moved Permanently"), (302, "Found"), (303, "See Other"), (304, "Not Modified"),
    (305, "Use Proxy"), (306, "Unused"), (307, "Temporary Redirect"), (400, "Bad Request"),
    (401, "Unauthorized"), (402, "Payment Required"), (403, "Forbidden"), (404, "Not Found"),
    (405, "Method Not Allowed"), (406, "Not Acceptable"),
    (407, "Proxy Authentication Required"), (408, "Request Time-out"), (409, "Conflict"),
    (410, "Gone"), (411, "Length Required"), (412, "Precondition Failed"),
    (413, "Request Entity Too Large"), (414, "Request-URI Too Large"),
    (415, "Unsupported Media Type"), (416, "Requested range not satisfiable"),
    (417, "Expectation Failed"), (500, "Internal Server Error"), (501, "Not Implemented"),
    (502, "Bad Gateway"), (503, "Service Unavailable"), (504, "Gateway Time-out"),
    (505, "HTTP Version not supported")]

def StatusCode.OK : StatusCode := ⟨200⟩

def getStatusAsString (code : StatusCode) : List UInt8 :=
  ascii ((StatusCode.texts.lookup code.code).getD "OK")

end Netpp
