/-
URLs, from `apt/url.c`.

The string is shorter than 2^31, as its offsets are kept in an `int` and in `unsigned int`s.
A pointer into it is what is behind it (`CString`), and the offset is what is in front.
The callback `url_error` is called at most once, just before `urlparse` returns 1; what it
is called with is a part of the reply.
-/
import LinuxUtil.Fault
import LinuxUtil.Lib.CString

namespace LinuxUtil.Apt

open CString

structure UrlStrView where
  begin : UInt32
  end_ : UInt32
  deriving DecidableEq, Repr

/-- `struct url_parse` without its callback; 1 is `PROTO_HTTP` and 2 is `PROTO_HTTPS`. -/
structure UrlParse where
  proto : Nat
  host : UrlStrView
  path : UrlStrView
  ofile : UrlStrView
  port : UInt16
  deriving DecidableEq, Repr

structure UrlReply where
  ret : Nat
  result : UrlParse
  error : Option String
  deriving DecidableEq, Repr

/-- Call `url_error` and return 1. -/
def urlError (result : UrlParse) (text : String) : UrlReply := ⟨1, result, some text⟩

/-- The offset of a pointer. -/
def urlOffset (url pt : List UInt8) : UInt32 := UInt32.ofNat (url.length - pt.length)

/-- The schemes with their numbers. -/
def schemes : List (Nat × List UInt8) := [(1, ascii "http"), (2, ascii "https")]

/-- The loop over the schemes. -/
def schemeLoop (url : List UInt8) (scheme_len : Nat) : Nat :=
  ((schemes.find? fun scheme => strncmp scheme.2 url scheme_len = 0).map Prod.fst).getD 0

/-- Where the loop over the host stops: at a slash, a colon or the NUL. -/
def hostLoop : List UInt8 → List UInt8
  | [] => []
  | c :: hend => if c = 47 ∨ c = 58 then c :: hend else hostLoop hend

/-- The loop over the port.  The NUL is no digit, and no slash. -/
def portLoop : Nat → List UInt8 → Except String (Nat × List UInt8)
  | _, [] => .error "invalid digit in port\n"
  | port, c :: hend =>
      if c = 47 then .ok (port, c :: hend)
      else if c > 57 ∨ c < 48 then .error "invalid digit in port\n"
      else
        let port := port * 10
        let port := port + (c.toNat - 48)
        if port > 65535 then .error "port number too large\n" else portLoop port hend

/-- The last check of `urlparse`. -/
def checkHost (result : UrlParse) : UrlReply :=
  if result.host.end_ ≤ result.host.begin then urlError result "empty hostname\n"
  else ⟨0, result, none⟩

/-- The port of the scheme, if there is none. -/
def defaultPort (result : UrlParse) : UrlParse :=
  if result.port = 0 then
    if result.proto = 1 then { result with port := 80 }
    else if result.proto = 2 then { result with port := 443 }
    else result
  else result

/-- The resource path. -/
def parsePath (url : List UInt8) (result : UrlParse) (hend : List UInt8) : Except Fault UrlReply :=
  match hend with
  | [] => .ok (checkHost { result with
      host := { result.host with end_ := urlOffset url [] }
      path := ⟨0, 0⟩
      ofile := ⟨0, 0⟩ })
  | c :: rest => do
      assert (c = 47) "*hend == '/'"
      let last ← deref (strrchr (c :: rest) 47)
      return checkHost { result with
        path := ⟨urlOffset url (c :: rest), UInt32.ofNat url.length⟩
        ofile := ⟨urlOffset url last + 1, UInt32.ofNat url.length⟩ }

/-- The host and what is behind it. -/
def parseHost (url : List UInt8) (result : UrlParse) (host : List UInt8) : Except Fault UrlReply :=
  let result := { result with host.begin := urlOffset url host }
  match hostLoop host with
  | [] => parsePath url (defaultPort result) []
  | c :: hend =>
      let result := { result with host.end_ := urlOffset url (c :: hend) }
      if c = 47 then parsePath url (defaultPort result) (c :: hend)
      else
        match portLoop 0 hend with
        | .error text => .ok (urlError result text)
        | .ok (port, hend) =>
            parsePath url (defaultPort { result with port := UInt16.ofNat port }) hend

def urlparse (url : List UInt8) (result : UrlParse) : Except Fault UrlReply :=
  match strstr url (ascii "://") with
  | none => .ok (urlError result "Invalid URL: missing scheme\n")
  | some sep =>
      let scheme_len := url.length - sep.length
      let result := { result with proto := schemeLoop url scheme_len, port := 0 }
      if result.proto = 0 then .ok (urlError result "unknown scheme\n")
      else parseHost url result (sep.drop 3)

end LinuxUtil.Apt
