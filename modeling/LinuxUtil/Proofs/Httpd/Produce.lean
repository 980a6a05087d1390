/-
What the client writes is what the server reads.

`written` is everything a stream was given, whether it has gone to the socket yet or
is still in the buffer.  Every write adds its bytes to it, whatever the size of the
buffer, and a flush puts all of it on the socket.  The text of `produce` is then one
rendered `Request`, and the daemon parses those.
-/
import LinuxUtil.Proofs.Httpd.Daemon

namespace LinuxUtil.Httpd

open ByteMem

/-! ### Streams -/

namespace SocketStream

/-- What has been sent, and what is waiting in the buffer. -/
def written (s : SocketStream) : List UInt8 := s.sent ++ read s.buffer 0 s.offset

theorem flush_eq (s : SocketStream) : s.flush = { s with sent := s.written, offset := 0 } := by
  unfold flush written
  by_cases h : s.offset = 0
  · rw [if_neg (by simpa using h), h, read_zero, List.append_nil, ← h]
  · rw [if_pos h]

@[simp] theorem flush_sent (s : SocketStream) : s.flush.sent = s.written := by
  rw [flush_eq]

@[simp] theorem flush_written (s : SocketStream) : s.flush.written = s.written := by
  rw [flush_eq]
  exact List.append_nil _

@[simp] theorem flush_bufferSize (s : SocketStream) : s.flush.bufferSize = s.bufferSize := by
  rw [flush_eq]

/-- The place a write makes for itself. -/
def room (s : SocketStream) (n : Nat) : SocketStream :=
  if s.offset + n > s.bufferSize then s.flush else s

theorem write_eq (s : SocketStream) (src : List UInt8) :
    s.write src =
      if src.length > (s.room src.length).bufferSize then
        { s.room src.length with sent := (s.room src.length).sent ++ src }
      else
        { s.room src.length with
          buffer := ByteMem.write (s.room src.length).buffer (s.room src.length).offset src
          offset := (s.room src.length).offset + src.length } := rfl

theorem room_spec (s : SocketStream) (n : Nat) :
    (s.room n).written = s.written ∧ (s.room n).bufferSize = s.bufferSize ∧
      (n > s.bufferSize → (s.room n).offset = 0) := by
  unfold room
  by_cases h : s.offset + n > s.bufferSize
  · rw [if_pos h]
    refine ⟨s.flush_written, s.flush_bufferSize, fun _ => ?_⟩
    rw [flush_eq]
  · rw [if_neg h]
    exact ⟨rfl, rfl, fun hn => by omega⟩

theorem read_write_behind (m : Mem) (n : Nat) (src : List UInt8) :
    read (ByteMem.write m n src) 0 (n + src.length) = read m 0 n ++ src := by
  rw [read_add, Nat.zero_add, read_write_self, read_write_of_apart m n src (.inl (by omega))]

/-- **A write adds its bytes, whatever the buffer.** -/
@[simp] theorem write_written (s : SocketStream) (src : List UInt8) :
    (s.write src).written = s.written ++ src := by
  obtain ⟨hw, hsize, hzero⟩ := s.room_spec src.length
  rw [write_eq, hsize, ← hw]
  by_cases h : src.length > s.bufferSize
  · rw [if_pos h]
    simp only [written, hzero h, read_zero, List.append_nil]
  · rw [if_neg h]
    simp only [written, read_write_behind, List.append_assoc]

end SocketStream

/-! ### The text of a request -/

/-- `isprint`: the blank and what can be seen. -/
def isprint (ch : UInt8) : Bool := 32 ≤ ch && ch ≤ 126

/-- `isgraph`: what can be seen. -/
def isgraph (ch : UInt8) : Bool := 33 ≤ ch && ch ≤ 126

theorem printable_of_isprint {b : UInt8} (h : isprint b) : Printable b := by
  have hb : 32 ≤ b ∧ b ≤ 126 := by simpa [isprint] using h
  exact printable_of_toNat hb.1 hb.2

theorem word_of_isgraph {b : UInt8} (h : isgraph b) : Printable b ∧ isspace b = false := by
  have hb : 33 ≤ b ∧ b ≤ 126 := by simpa [isgraph] using h
  have h1 : 33 ≤ b.toNat := hb.1
  exact ⟨printable_of_toNat (by omega) hb.2, isspace_of_toNat h1⟩

/-- What a client asks for. -/
structure Asked where
  host : List UInt8
  method : HttpMethodType
  path : List UInt8
  connection : HttpConnectionType
  host_print : ∀ b ∈ host, isprint b
  method_ne : method ≠ .INVALID
  path_ne : path ≠ []
  path_graph : ∀ b ∈ path, isgraph b

/-- A header line whose key passes the test of one. -/
def Field.ofKey (key : List UInt8) (hkey : key.all (fun b => Printable b ∧ b ≠ 58) = true)
    (value : List UInt8) (hvalue : ∀ b ∈ value, Printable b) : Field where
  key := key
  value := value
  key_printable := fun b hb => (forall_of_all hkey b hb).1
  key_ne_colon := fun b hb => (forall_of_all hkey b hb).2
  value_printable := hvalue

/-- What `Connection` is set to. -/
def connectionText : HttpConnectionType → List UInt8
  | .CLOSE => ascii "close"
  | .KEEP_ALIVE => ascii "keep-alive"

theorem connectionText_printable (connection : HttpConnectionType) :
    ∀ b ∈ connectionText connection, Printable b := by
  cases connection with
  | CLOSE => exact forall_of_all (by decide)
  | KEEP_ALIVE => exact forall_of_all (by decide)

/-- The line `Connection: …`. -/
def connectionField (connection : HttpConnectionType) : Field :=
  Field.ofKey (ascii "Connection") (by decide) (connectionText connection)
    (connectionText_printable connection)

theorem version_printable : ∀ b ∈ ascii " HTTP/1.1", Printable b := forall_of_all (by decide)

theorem version_apart : ∀ b ∈ (ascii " HTTP/1.1").head?, isspace b := by
  intro b hb
  cases hb
  rfl

namespace Asked

/-- The header lines of `produce`. -/
def fields (a : Asked) : List Field :=
  [Field.ofKey (ascii "Host") (by decide) a.host fun b hb => printable_of_isprint (a.host_print b hb),
   connectionField a.connection,
   Field.ofKey (ascii "User-Agent") (by decide) (ascii "curl/7.81.0") (forall_of_all (by decide)),
   Field.ofKey (ascii "Accept") (by decide) (ascii "*/*") (forall_of_all (by decide))]

/-- The request the text of `produce` stands for. -/
def request (a : Asked) : Request where
  method := a.method
  method_ne := a.method_ne
  path :=
    { text := a.path
      ne_nil := a.path_ne
      printable := fun b hb => (word_of_isgraph (a.path_graph b hb)).1
      no_space := fun b hb => (word_of_isgraph (a.path_graph b hb)).2 }
  version := ascii " HTTP/1.1"
  version_printable := version_printable
  version_apart := version_apart
  fields := a.fields
  body := []
  length := none
  lookup_length := rfl
  body_length := rfl

theorem request_connection (a : Asked) : a.request.connection = a.connection := by
  have hlookup : a.request.headText.lookup (ascii "Connection") =
      some (connectionText a.connection) := by
    change some ((connectionText a.connection).dropWhile (· = 32)) = _
    cases a.connection <;> rfl
  rw [Request.connection, hlookup]
  cases a.connection <;> rfl

theorem render_eq (a : Asked) :
    a.request.render =
      (methodWord a.method).text ++ ascii " " ++ a.path ++ ascii " HTTP/1.1\r\n" ++
        ascii "Host: " ++ a.host ++ ascii "\r\nConnection: " ++ connectionText a.connection ++
        ascii "\r\nUser-Agent: curl/7.81.0\r\nAccept: */*\r\n\r\n" := by
  have hfields : renderFields a.fields =
      ascii "Host: " ++ a.host ++ ascii "\r\nConnection: " ++ connectionText a.connection ++
        ascii "\r\nUser-Agent: curl/7.81.0\r\nAccept: */*\r\n\r\n" := by
    simp only [fields, renderFields_cons, Field.line, List.append_assoc]
    rfl
  have hstart : a.request.headText.start = (methodWord a.method).text ++ ascii " " ++ a.path ++
      ascii " HTTP/1.1" := by
    simp only [List.append_assoc]
    rfl
  have hhead : a.request.headText.render =
      a.request.headText.start ++ ascii "\r\n" ++ renderFields a.fields := rfl
  rw [Request.render, hhead, hstart, hfields]
  simp only [List.append_assoc]
  rfl

theorem name_eq (a : Asked) : a.method.name = some (methodWord a.method).text := by
  cases hm : a.method with
  | INVALID => exact absurd hm a.method_ne
  | _ => rfl

/-- The text `produce` sends is the request's. -/
theorem produce_sent (a : Asked) (stream : SocketStream) :
    ∃ stream', produce a.host a.method (a.path ++ [0]) a.connection stream = .ok stream' ∧
      stream'.sent = stream.written ++ a.request.render := by
  have hlast : (a.path ++ [0]).getLast? = some (0 : UInt8) := by simp
  have htake : (a.path ++ [0]).take ((a.path ++ [0]).length - 1) = a.path := by simp
  rw [render_eq]
  -- the line of the connection ends before the rest is written
  have hrest : ascii "\r\nUser-Agent: curl/7.81.0\r\nAccept: */*\r\n\r\n" =
      ascii "\r\n" ++ ascii "User-Agent: curl/7.81.0\r\nAccept: */*\r\n\r\n" := rfl
  unfold produce
  simp only [a.name_eq, assert, hlast, htake, decide_true, if_true]
  refine ⟨_, rfl, ?_⟩
  cases a.connection with
  | CLOSE =>
      have hline : ascii "\r\nConnection: close\r\n" =
          ascii "\r\nConnection: " ++ (connectionText .CLOSE ++ ascii "\r\n") := rfl
      simp only [SocketStream.flush_sent, SocketStream.write_written, hline, hrest, List.append_assoc]
  | KEEP_ALIVE =>
      have hline : ascii "\r\nConnection: keep-alive\r\n" =
          ascii "\r\nConnection: " ++ (connectionText .KEEP_ALIVE ++ ascii "\r\n") := rfl
      simp only [SocketStream.flush_sent, SocketStream.write_written, hline, hrest, List.append_assoc]

end Asked

/-! ### The daemon -/

/-- A head with nothing behind it is parsed, and nothing is left. -/
theorem parse_alone {r : HttpHeadReader} {segs : List (List UInt8)} (t : HeadText)
    (hsize : 1 ≤ r.size) (hlive : Segments.Live segs) (hs : segs.flatten = t.render) :
    ∃ r', parse (r.reset (segs.map .bytes)) headTable = .ok (t.head, r') ∧ r'.error = 0 ∧
      r'.pending = [] ∧ r'.socket = [] := by
  have hs' : (⟨[], segs⟩ : Feed UInt8).stream = t.render ++ [] := by
    rw [List.append_nil]
    exact hs
  obtain ⟨r', hparse, hv, -⟩ := (views_reset hsize hlive).parse t hs'
  obtain ⟨hready, hsegs⟩ := Feed.stream_eq_nil hv.live (Feed.skip_append hsize hlive hs')
  refine ⟨r', hparse, hv.error, hv.pending.trans hready, ?_⟩
  rw [hv.socket, hsegs]
  rfl

/-- A request without a body is the one request of its connection, whatever the handler does. -/
theorem serve_alone (consume : Consumer) (closed : Nat → Bool) {r : HttpHeadReader}
    {segs : List (List UInt8)} (q : Request) (hbody : q.body = []) (hsize : 1 ≤ r.size)
    (hlive : Segments.Live segs) (hs : segs.flatten = q.headText.render) :
    (r.reset (segs.map .bytes)).serve consume closed =
      .ok [⟨q.method, q.path.text, q.connection, []⟩] := by
  obtain ⟨r', hparse, herr, -, hsock⟩ := parse_alone (r := r) q.headText hsize hlive hs
  obtain ⟨n, hn⟩ : ∃ n, segs.flatten.length = n + 1 := by
    refine Nat.exists_eq_succ_of_ne_zero ?_
    rw [hs, HeadText.render, List.length_append, List.length_append]
    have : (ascii "\r\n").length = 2 := rfl
    omega
  have hlen : q.headText.head.contentLength = 0 := by
    rw [q.contentLength, hbody]
    rfl
  have hreset : (r.reset (segs.map .bytes)).reset (r.reset (segs.map .bytes)).socket =
      r.reset (segs.map .bytes) := rfl
  unfold HttpHeadReader.serve
  rw [show (r.reset (segs.map .bytes)).socket = segs.map .bytes from rfl, Socket.bytes_segs, hn]
  conv => lhs; unfold handleRequest
  simp only [hreset, bind, Except.bind, hparse, HttpHeadReader.getLastError, herr, q.isValid,
    q.method_read, q.method_ne, q.connection_read, q.tokens.2, hlen, hsock, doConsume,
    Bool.not_true, ne_eq, not_true_eq_false, decide_false, Bool.or_self, Bool.false_eq_true, if_false,
    List.nil_append, gt_iff_lt, Nat.lt_irrefl]
  by_cases hc : closed 1
  · rw [List.length_singleton, if_pos hc]
    rfl
  · rw [List.length_singleton, if_neg hc]
    exact handleRequest_end consume closed n rfl _

/-- The daemon's handler is told what was asked for, of no content, and nothing stays unread. -/
structure Asked.Understood (a : Asked) (consume : Consumer) (closed : Nat → Bool)
    (r : HttpHeadReader) : Prop where
  parsed : ∃ head r', parse r headTable = .ok (head, r') ∧ head.contentLength = 0 ∧
    r'.error = 0 ∧ r'.pending = [] ∧ r'.socket = []
  served : ∃ d, r.serve consume closed = .ok [d] ∧ d.method = a.method ∧
    d.requestPath = a.path ++ [0] ∧ d.connection = a.connection ∧ d.consumed = []

/-- **What `produce` writes is understood by the daemon as it was meant**, whatever the buffer it is
written through and the segments it arrives in. -/
theorem produce_understood (a : Asked) (buffer : Mem) (bufferSize : Nat) :
    ∃ stream, produce a.host a.method (a.path ++ [0]) a.connection ⟨buffer, 0, bufferSize, []⟩ =
        .ok stream ∧
      ∀ (segs : List (List UInt8)) (r : HttpHeadReader) (consume : Consumer) (closed : Nat → Bool),
        Segments.Live segs → segs.flatten = stream.sent → 1 ≤ r.size →
        a.Understood consume closed (r.reset (segs.map .bytes)) := by
  obtain ⟨stream, hok, hsent⟩ := a.produce_sent ⟨buffer, 0, bufferSize, []⟩
  refine ⟨stream, hok, fun segs r consume closed hlive hs hsize => ?_⟩
  have hs' : segs.flatten = a.request.headText.render := by
    rw [hs, hsent]
    exact List.append_nil _
  obtain ⟨r', hparse, herr, hpending, hsock⟩ := parse_alone (r := r) a.request.headText hsize hlive hs'
  refine ⟨⟨_, r', hparse, a.request.contentLength, herr, hpending, hsock⟩, ?_⟩
  refine ⟨_, serve_alone consume closed a.request rfl hsize hlive hs', rfl, rfl, ?_, rfl⟩
  exact a.request_connection

/-- `HEAD /index.html` of a host without a name. -/
def askedIndex : Asked where
  host := []
  method := .HEAD
  path := ascii "/index.html"
  connection := .KEEP_ALIVE
  host_print := fun _ h => absurd h List.not_mem_nil
  method_ne := echoRequest.method_ne
  path_ne := by decide
  path_graph := List.all_eq_true.mp (by decide)

/-- Through a buffer of ten bytes, and in two segments. -/
theorem produce_understood_index :
    ∃ stream segs, produce [] .HEAD (ascii "/index.html" ++ [0]) .KEEP_ALIVE ⟨fun _ => 0, 0, 10, []⟩ =
        .ok stream ∧ Segments.Live segs ∧ segs.length = 2 ∧ segs.flatten = stream.sent ∧
      1 ≤ workerReader.size ∧
      askedIndex.Understood accept keep (workerReader.reset (segs.map .bytes)) := by
  obtain ⟨stream, hok, h⟩ := produce_understood askedIndex (fun _ => 0) 10
  obtain ⟨stream', hok', hsent⟩ := askedIndex.produce_sent ⟨fun _ => 0, 0, 10, []⟩
  obtain rfl := Except.ok.inj (hok.symm.trans hok')
  have hlive : Segments.Live [askedIndex.request.render.take 30, askedIndex.request.render.drop 30] := by
    unfold Segments.Live
    decide
  have hs : [askedIndex.request.render.take 30, askedIndex.request.render.drop 30].flatten =
      stream.sent := by
    rw [hsent]
    decide
  exact ⟨stream, _, hok, hlive, rfl, hs, by decide,
    h _ workerReader accept keep hlive hs (by decide)⟩

end LinuxUtil.Httpd
