/-
`HttpDaemon::handleRequest` of `apt/libhttpd/httpd.cpp`: the requests on one
connection.

The handler is told the method, the path and the connection type of a request, and is
then given its body piece by piece; `Delivered` records that.  What it answers does not
come back to this loop, but for whether to go on: `closed` is its `connectionClosed`
after so many requests.
-/
import LinuxUtil.Httpd.Client

namespace LinuxUtil.Httpd

open ByteMem

/-- What the handler is given for one request. -/
structure Delivered where
  method : HttpMethodType
  path : List UInt8
  connection : HttpConnectionType
  consumed : List (List UInt8)
  deriving DecidableEq, Repr

/-- What `setRequestPath` is given: the path with a NUL behind it. -/
def Delivered.requestPath (d : Delivered) : List UInt8 := d.path ++ [0]

def methodFromString (s : List UInt8) : HttpMethodType :=
  if s = ascii "GET" then .GET
  else if s = ascii "HEAD" then .HEAD
  else if s = ascii "POST" then .POST
  else .INVALID

/-- The loop of `HttpHandler::doConsume`: the body, straight from the socket. -/
def doConsume (consume : Consumer) (bufSize : Nat) :
    Nat → Nat → Socket → List (List UInt8) → List (List UInt8) × Socket
  | 0, _, socket, consumed => (consumed, socket)
  | n + 1, remain, socket, consumed =>
      if remain > 0 then
        match socket.read (min remain bufSize) with
        | (.error _, socket) => (consumed, socket)
        | (.ok [], socket) => (consumed, socket)
        | (.ok (c :: cs), socket) =>
            let consumed := consumed ++ [c :: cs]
            if consume consumed then
              doConsume consume bufSize n (remain - (c :: cs).length) socket consumed
            else (consumed, socket)
      else (consumed, socket)

/-- `Connection` as the server reads it. -/
def Head.connection (head : Head) : HttpConnectionType :=
  connFromString (cstring ((head.table.get (ascii "Connection")).getD []))

/-- The loop of `handleRequest`, which is given `n` rounds. -/
def handleRequest (consume : Consumer) (closed : Nat → Bool) :
    Nat → HttpHeadReader → List Delivered → Except Fault (List Delivered)
  | 0, _, _ => .error .diverges
  | n + 1, r, done => do
      let (head, r) ← parse (r.reset r.socket) headTable
      let (error, r) := r.getLastError
      let method := methodFromString (cstring head.method)
      if !head.isValid || error ≠ 0 || method = .INVALID then return done
      else
        let (consumed, socket) :=
          doConsume consume r.size (r.socket.bytes.length + 1) head.contentLength r.socket []
        let done := done ++ [⟨method, head.path, head.connection, consumed⟩]
        if closed done.length then return done
        else handleRequest consume closed n { r with socket } done

/-- All rounds: every one that goes on takes a byte from the socket. -/
def HttpHeadReader.serve (r : HttpHeadReader) (consume : Consumer) (closed : Nat → Bool) :
    Except Fault (List Delivered) :=
  handleRequest consume closed (r.socket.bytes.length + 1) r []

end LinuxUtil.Httpd
