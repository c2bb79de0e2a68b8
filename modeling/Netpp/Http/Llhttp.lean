import Mathlib.Tactic.Common

/-!
# The HTTP parser underneath

llhttp is not part of the program. The decoder resets its parser before each use, gives
it the bytes of a buffer in one call of `llhttp_execute` and looks at what has become of
the parser, so for the program llhttp is a function from bytes to an `Execution`.
`Documented` says what the program relies on: whether the header section is complete, and
where it ends.
-/

namespace Netpp

/-- `llhttp_errno`, as far as the decoder tells the codes apart. -/
inductive LlhttpErrno where
  | HPE_OK | HPE_PAUSED_UPGRADE
  | HPE_INVALID_METHOD | HPE_INVALID_URL | HPE_INVALID_CONSTANT | HPE_INVALID_VERSION
  | HPE_INVALID_HEADER_TOKEN | HPE_INVALID_CONTENT_LENGTH | HPE_INVALID_CHUNK_SIZE
  | HPE_INVALID_STATUS | HPE_INVALID_EOF_STATE | HPE_INVALID_TRANSFER_ENCODING
  | other (code : Nat)
  deriving DecidableEq

/-- `llhttp_method`, as far as the decoder tells the methods apart. -/
inductive LlhttpMethod where
  | HTTP_DELETE | HTTP_GET | HTTP_HEAD | HTTP_POST | HTTP_PUT | HTTP_CONNECT | HTTP_OPTIONS
  | HTTP_TRACE | HTTP_PATCH
  | other (code : Nat)
  deriving DecidableEq

/-- A call of one of the decoder's callbacks. The others of them change nothing. -/
inductive ParserCall where
  | onUrl (text : List UInt8)
  | onHeaderField (text : List UInt8)
  | onHeaderValue (text : List UInt8)
  deriving DecidableEq

/-- What a call of `llhttp_execute` on a parser that has been reset returns, calls and
leaves in the parser. -/
structure Execution where
  errno : LlhttpErrno
  /-- `error_pos`, counted from the start of the buffer; `none` is the null pointer. -/
  errorPos : Option Nat
  calls : List ParserCall
  method : LlhttpMethod
  statusCode : Nat
  httpMajor : Nat
  httpMinor : Nat
  deriving DecidableEq

structure Llhttp where
  execute : List UInt8 → Execution
  /-- The bytes of the header section of a well-formed message, up to the blank line
  and with it. -/
  HeaderSection : List UInt8 → Prop

/-- The documented behaviour, for callbacks of which `on_headers_complete` returns 2. -/
structure Llhttp.Documented (llhttp : Llhttp) : Prop where
  ne_nil : ∀ h, llhttp.HeaderSection h → h ≠ []
  /-- The parser pauses just past the blank line, whatever follows. -/
  errno_of_complete : ∀ h, llhttp.HeaderSection h →
    (llhttp.execute h).errno = .HPE_PAUSED_UPGRADE
  errorPos_of_complete : ∀ h, llhttp.HeaderSection h →
    (llhttp.execute h).errorPos = some h.length
  execute_append : ∀ h rest, llhttp.HeaderSection h →
    llhttp.execute (h ++ rest) = llhttp.execute h
  /-- Bytes that end before the blank line are consumed without an error. -/
  errno_of_incomplete : ∀ p s, llhttp.HeaderSection (p ++ s) → s ≠ [] →
    (llhttp.execute p).errno = .HPE_OK
  errorPos_of_incomplete : ∀ p s, llhttp.HeaderSection (p ++ s) → s ≠ [] →
    (llhttp.execute p).errorPos = none

end Netpp
