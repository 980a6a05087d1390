/-
`SocketStream`, `HttpClientHandler::produce` and `HttpClient::request` of
`apt/libhttpd`.

The stream, the head reader and the body loop share one buffer.  What a handler's
`consume` answers may depend on everything it was given so far; a call records the
pieces in `consumed`.  The peer's reply to a request is on the socket once the request
has been sent.
-/
import LinuxUtil.Httpd.Reader

namespace LinuxUtil.Httpd

open ByteMem

/-! ### Writing -/

/-- `sent` is what the socket's `write` was given so far. -/
structure SocketStream where
  buffer : Mem
  offset : Nat
  bufferSize : Nat
  sent : List UInt8

namespace SocketStream

def flush (s : SocketStream) : SocketStream :=
  if s.offset ≠ 0 then { s with sent := s.sent ++ read s.buffer 0 s.offset, offset := 0 } else s

def write (s : SocketStream) (src : List UInt8) : SocketStream :=
  let s := if s.offset + src.length > s.bufferSize then s.flush else s
  if src.length > s.bufferSize then { s with sent := s.sent ++ src }
  else { s with buffer := ByteMem.write s.buffer s.offset src, offset := s.offset + src.length }

end SocketStream

inductive HttpMethodType
  | INVALID
  | GET
  | HEAD
  | POST
  deriving DecidableEq, Repr

/-- The name of a method, as `HTTP_METHODS_FOREACH` spells it. -/
def HttpMethodType.name : HttpMethodType → Option (List UInt8)
  | .INVALID => none
  | .GET => some (ascii "GET")
  | .HEAD => some (ascii "HEAD")
  | .POST => some (ascii "POST")

/-- `HttpClientHandler::produce`: the request line and the header fields. -/
def produce (host : List UInt8) (method : HttpMethodType) (path : List UInt8)
    (connection : HttpConnectionType) (stream : SocketStream) : Except Fault SocketStream := do
  match method.name with
  | none => .error (.assertion "Invalid method")
  | some name =>
      let stream := stream.write (name ++ ascii " ")
      assert (path.getLast? = some 0) "path is not null-terminated"
      let stream := stream.write (path.take (path.length - 1))
      let stream := stream.write (ascii " HTTP/1.1\r\n")
      let stream := stream.write (ascii "Host: ")
      let stream := stream.write host
      let stream := match connection with
        | .CLOSE => stream.write (ascii "\r\nConnection: close\r\n")
        | .KEEP_ALIVE => stream.write (ascii "\r\nConnection: keep-alive\r\n")
      let stream := stream.write (ascii "User-Agent: curl/7.81.0\r\nAccept: */*\r\n\r\n")
      return stream.flush

/-! ### The client -/

/-- What `consume` answers to its last piece, given all pieces so far. -/
abbrev Consumer := List (List UInt8) → Bool

structure HttpClient where
  reader : HttpHeadReader
  socket : Socket
  host : List UInt8
  connected : Bool

/-- The constructor, whose reader maps 16 pages. -/
def HttpClient.create (pageSize : Nat) (buffer : Mem) (host : List UInt8) : HttpClient where
  reader := ⟨[], buffer, 16 * pageSize, 0, 0, 0⟩
  socket := []
  host := host
  connected := false

/-- The state of the body loop: bytes received, buffer, socket and the pieces consumed. -/
structure Body where
  nr : Nat
  buffer : Mem
  socket : Socket
  consumed : List (List UInt8)

/-- The loop that reads the rest of the body into the buffer. -/
def bodyLoop (consume : Consumer) (size contentLength : Nat) : Nat → Body → Body
  | 0, b => b
  | n + 1, b =>
      if b.nr < contentLength then
        match b.socket.read (min size (contentLength - b.nr)) with
        | (.error _, socket) => { b with socket }
        | (.ok [], socket) => { b with socket }
        | (.ok (c :: cs), socket) =>
            let buffer := write b.buffer 0 (c :: cs)
            let consumed := b.consumed ++ [read buffer 0 (c :: cs).length]
            if consume consumed then
              bodyLoop consume size contentLength n
                { nr := b.nr + (c :: cs).length, buffer, socket, consumed }
            else { b with buffer, socket, consumed }
      else b

/-- The part of `request` that consumes a body: first what is in the reader's buffer. -/
def receive (consume : Consumer) (r : HttpHeadReader) (contentLength : Nat) : Body :=
  let nr := min (r.end_ - r.offset) contentLength
  let consumed := [read r.buffer r.offset nr]
  let b : Body := ⟨nr, r.buffer, r.socket, consumed⟩
  if consume consumed then bodyLoop consume r.size contentLength (r.socket.bytes.length + 1) b
  else b

/-- What a call leaves behind. -/
structure Result where
  ret : Nat
  client : HttpClient
  sent : List UInt8
  consumed : List (List UInt8)

/-- `doClose`, and a return. -/
def HttpClient.fail (c : HttpClient) (r : HttpHeadReader) (sent : List UInt8)
    (consumed : List (List UInt8)) : Result :=
  ⟨1, { c with reader := r, socket := [], connected := false }, sent, consumed⟩

/-- What `Connection` says; if it says nothing, what the request said. -/
def Head.effective (head : Head) (con : HttpConnectionType) : HttpConnectionType :=
  match head.table.get (ascii "Connection") with
  | none => con
  | some s => if s = [] then con else connFromString (cstring s)

/-- The end of `request`: close the connection or keep it. -/
def HttpClient.finish (c : HttpClient) (head : Head) (con : HttpConnectionType) (success : Bool)
    (r : HttpHeadReader) (b : Body) (sent : List UInt8) : Result :=
  let con := head.effective con
  let reader := { r with buffer := b.buffer, socket := b.socket }
  if con = .CLOSE || !success then
    ⟨if success then 0 else 1, { c with reader, socket := [], connected := false }, sent, b.consumed⟩
  else ⟨0, { c with reader, socket := b.socket, connected := true }, sent, b.consumed⟩

/-- `HttpClient::request`.  `connect` is whether a new connection can be made, and `reply` what the
peer sends once it has the request. -/
def HttpClient.request (c : HttpClient) (consume : Consumer) (method : HttpMethodType)
    (path : List UInt8) (isLast : Bool) (connect : Bool) (reply : Socket) : Except Fault Result :=
  let con : HttpConnectionType := if isLast then .CLOSE else .KEEP_ALIVE
  if !c.connected && !connect then .ok ⟨1, c, [], []⟩
  else do
    let socket := if c.connected then c.socket else []
    let stream ← produce c.host method path con ⟨c.reader.buffer, 0, c.reader.size, []⟩
    let r := { c.reader with buffer := stream.buffer }.reset (socket ++ reply)
    let (head, r) ← parse r headTable
    if !head.isValid then return c.fail r stream.sent []
    else
      let statusCode := atoi (cstring head.path)
      let contentLength := head.contentLength
      if statusCode = 200 ∧ contentLength ≠ 0 then do
        assert (r.end_ ≥ r.offset) "nr >= offset"
        let b := receive consume r contentLength
        return c.finish head con (b.nr == contentLength) r b stream.sent
      else
        return c.finish head con (statusCode == 200) r ⟨0, r.buffer, r.socket, []⟩ stream.sent

end LinuxUtil.Httpd
