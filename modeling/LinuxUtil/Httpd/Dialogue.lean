/-
Both ends of a connection: `HttpDaemon::handleRequest` with what it answers, and an
`HttpClient` that asks.

A client waits for the answer to a request before it sends the next one, so there is
never more than one message on its way; how it is cut into segments is up to the network.
A connection that the daemon has closed ends there for the client: what it still sends is
lost, and behind what has already arrived it reads the end of file.
-/
import LinuxUtil.Httpd.Daemon
import LinuxUtil.Httpd.Util
import LinuxUtil.Lib.Feed

namespace LinuxUtil.Httpd

/-! ### The daemon's end -/

/-- The virtual functions of `HttpHandler` that the loop depends on.  What they do may depend on all
the requests of the connection so far, the one at hand being the last. -/
structure HttpHandler where
  consume : Consumer
  produce : List Delivered → SocketStream → SocketStream
  connectionClosed : List Delivered → Bool

def onBadRequest : List UInt8 :=
  ascii "HTTP/1.1 400 Bad Request\r\n" ++ ascii "Content-Length: 0\r\n" ++
    ascii "Connection: close\r\n\r\n"

/-- What a round of the loop in `handleRequest` leaves. -/
structure Round where
  /-- What it has put on the socket. -/
  written : List UInt8
  /-- What the handler has been given. -/
  delivered : List Delivered
  reader : HttpHeadReader
  /-- The loop is left, and the socket closed. -/
  left : Bool

/-- A round of the loop in `handleRequest`. -/
def HttpHandler.round (h : HttpHandler) (r : HttpHeadReader) (done : List Delivered) :
    Except Fault Round := do
  let (head, r) ← parse (r.reset r.socket) headTable
  let (error, r) := r.getLastError
  let method := methodFromString (cstring head.method)
  if !head.isValid || error ≠ 0 || method = .INVALID then return ⟨onBadRequest, done, r, true⟩
  else
    let (consumed, socket) :=
      doConsume h.consume r.size (r.socket.bytes.length + 1) head.contentLength r.socket []
    let done := done ++ [⟨method, head.path, head.connection, consumed⟩]
    let written := doProduce (h.produce done) r.buffer r.size
    return ⟨written, done, { r with socket }, h.connectionClosed done⟩

/-- How a message is cut on its way: the segments that arrive. -/
structure Carrier where
  segments : List UInt8 → List (List UInt8)
  live : ∀ bs, Segments.Live (segments bs)
  flatten : ∀ bs, (segments bs).flatten = bs

/-- What arrives of a message. -/
def Carrier.arrivals (carrier : Carrier) (bs : List UInt8) : Socket :=
  (carrier.segments bs).map .bytes

/-! ### The client's end -/

/-- What `request` sends. -/
def HttpClient.requestText (c : HttpClient) (method : HttpMethodType) (path : List UInt8)
    (isLast : Bool) : Except Fault (List UInt8) := do
  let con : HttpConnectionType := if isLast then .CLOSE else .KEEP_ALIVE
  let stream ← produce c.host method path con ⟨c.reader.buffer, 0, c.reader.size, []⟩
  return stream.sent

/-- A call of `request`. -/
structure Ask where
  method : HttpMethodType
  path : List UInt8
  isLast : Bool
  /-- A new connection can be made, if one is needed. -/
  connect : Bool
  /-- The reader of the worker that then takes it. -/
  worker : HttpHeadReader
  /-- How the request arrives. -/
  up : Carrier
  /-- How the answer arrives. -/
  down : Carrier

/-- What comes of a call: its result, and all that the worker's handler has been given. -/
structure Heard where
  result : Result
  given : List Delivered

/-! ### The two together -/

/-- A client, and the worker in the loop of `handleRequest` on its connection, with the requests its
handler was given. -/
structure Dialogue where
  client : HttpClient
  worker : Option (HttpHeadReader × List Delivered)

/-- The worker after a round. -/
def Round.worker (round : Round) : Option (HttpHeadReader × List Delivered) :=
  if round.left then none else some (round.reader, round.delivered)

/-- The worker that a request goes to. -/
def Dialogue.answering (d : Dialogue) (ask : Ask) : Option (HttpHeadReader × List Delivered) :=
  if d.client.connected then d.worker
  else if ask.connect then some (ask.worker.reset [], [])
  else none

/-- A call of `request`. -/
def Dialogue.request (h : HttpHandler) (consume : Consumer) (d : Dialogue) (ask : Ask) :
    Except Fault (Heard × Dialogue) := do
  let path := ask.path ++ [0]
  match d.answering ask with
  | none =>
      let res ← d.client.request consume ask.method path ask.isLast ask.connect []
      return (⟨res, []⟩, ⟨res.client, none⟩)
  | some (reader, done) =>
      let text ← d.client.requestText ask.method path ask.isLast
      let round ← h.round { reader with socket := reader.socket ++ ask.up.arrivals text } done
      let res ← d.client.request consume ask.method path ask.isLast ask.connect
        (ask.down.arrivals round.written)
      return (⟨res, round.delivered⟩, ⟨res.client, round.worker⟩)

/-- The worker has waited too long for a request: its `read` fails. -/
def Dialogue.timeout (h : HttpHandler) (d : Dialogue) (e : Errno) (down : Carrier) :
    Except Fault Dialogue :=
  match d.worker with
  | none => .ok d
  | some (reader, done) =>
      if d.client.connected then do
        let round ← h.round { reader with socket := reader.socket ++ [.error e] } done
        let socket := d.client.socket ++ down.arrivals round.written
        return ⟨{ d.client with socket }, round.worker⟩
      else .ok d

inductive Event
  | request (ask : Ask)
  | timeout (e : Errno) (down : Carrier)

def Dialogue.step (h : HttpHandler) (consume : Consumer) (d : Dialogue) :
    Event → Except Fault (Option Heard × Dialogue)
  | .request ask => do
      let (heard, d) ← d.request h consume ask
      return (some heard, d)
  | .timeout e down => do
      let d ← d.timeout h e down
      return (none, d)

end LinuxUtil.Httpd
