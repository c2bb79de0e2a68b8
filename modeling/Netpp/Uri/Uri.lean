import Netpp.Uri.InnerParseOut

/-!
# URIs

`Uri` holds the components of a URI as they are written. The setters encode them unless
they are told not to.
-/

namespace Netpp

open Text (ascii)

structure Uri where
  scheme : List UInt8
  host : List UInt8
  userInfo : List UInt8
  path : List UInt8
  query : List UInt8
  fragment : List UInt8
  port : Int
  deriving DecidableEq

namespace Uri

open UriCodec

def toLowerChImpl (c : UInt8) : UInt8 := if 65 ≤ c && c ≤ 90 then c - 65 + 97 else c

def inplaceTolower (target : List UInt8) : List UInt8 := target.map toLowerChImpl

/-- The constructor that parses a text. -/
def new (uri : List UInt8) : Except UriException Uri :=
  match InnerParseOut.parseFrom uri with
  | none => .error ⟨ascii "provided uri is invalid: " ++ uri.takeWhile (· != 0)⟩
  | some out =>
      .ok {
        scheme := inplaceTolower (out.scheme.getD [])
        host := inplaceTolower (out.host.getD [])
        userInfo := out.uinfo.getD []
        path := out.path.getD (ascii "/")
        query := out.query.getD []
        fragment := out.fragment.getD []
        port := out.port }

def setScheme (u : Uri) (scheme : List UInt8) : Uri := { u with scheme := scheme }

def setPort (u : Uri) (port : Int) : Uri := { u with port := port }

def setHost (u : Uri) (host : List UInt8) (shouldEncode : Bool := true) : Uri :=
  { u with host := if shouldEncode then encode host .host else host }

def setUserInfo (u : Uri) (userInfo : List UInt8) (shouldEncode : Bool := true) : Uri :=
  { u with userInfo := if shouldEncode then encode userInfo .userInfo else userInfo }

def setPath (u : Uri) (path : List UInt8) (shouldEncode : Bool := true) : Uri :=
  let prepend := if path.head? = some 47 then [] else ascii "/"
  { u with path := prepend ++ if shouldEncode then encode path .path else path }

def setQuery (u : Uri) (query : List UInt8) (shouldEncode : Bool := true) : Uri :=
  { u with query := if shouldEncode then encode query .query else query }

def setFragment (u : Uri) (fragment : List UInt8) (shouldEncode : Bool := true) : Uri :=
  { u with fragment := if shouldEncode then encode fragment .query else fragment }

/-- The first part of `toString`. -/
def canonicalize (u : Uri) : Uri :=
  let u := { u with scheme := inplaceTolower u.scheme, host := inplaceTolower u.host }
  if u.host ≠ [] ∧ u.path = [] then { u with path := ascii "/" }
  else if u.host ≠ [] ∧ u.path.head? ≠ some 47 then { u with path := 47 :: u.path }
  else u

/-- The text, and what becomes of the components. -/
protected def toString (u : Uri) : List UInt8 × Uri :=
  let u := u.canonicalize
  let ret := if u.scheme ≠ [] then u.scheme ++ ascii ":" else []
  let ret :=
    if u.host ≠ [] then
      let ret := ret ++ ascii "//"
      let ret := if u.userInfo ≠ [] then ret ++ u.userInfo ++ ascii "@" else ret
      let ret := ret ++ u.host
      if 0 < u.port then ret ++ ascii ":" ++ ascii (toString u.port) else ret
    else ret
  let ret :=
    if u.path ≠ [] then
      let ret := if u.host ≠ [] ∧ u.path.head? ≠ some 47 then ret ++ ascii "/" else ret
      ret ++ u.path
    else ret
  let ret := if u.query ≠ [] then ret ++ ascii "?" ++ u.query else ret
  let ret := if u.fragment ≠ [] then ret ++ ascii "#" ++ u.fragment else ret
  (ret, u)

/-- Everything but the scheme and the authority is as in a default-constructed URI. -/
def authority (u : Uri) : Uri where
  scheme := u.scheme
  host := u.host
  userInfo := u.userInfo
  path := ascii "/"
  query := []
  fragment := []
  port := u.port

def validate (uri : List UInt8) : Bool := (InnerParseOut.parseFrom uri).isSome

def isEmpty (u : Uri) : Bool := u.host = [] || u.host = ascii "/"

end Uri

end Netpp
