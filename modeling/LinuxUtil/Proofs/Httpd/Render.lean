/-
A file that is served arrives.

`renderFile` writes a head that announces as many bytes as the file has, and `forward`
then sends the file through the stream's buffer, one piece after the other.  What comes
out is a rendered `Response`, and the client's side of those is known.  The two error
responses have a body of their own, and announce its length.
-/
import LinuxUtil.Httpd.Util
import LinuxUtil.Proofs.Httpd.Produce

namespace LinuxUtil.Httpd

open ByteMem

/-! ### Numbers -/

theorem toNat_digit {c : Char} (h : c.isDigit) :
    48 ≤ c.toNat ∧ c.toNat ≤ 57 ∧ (UInt8.ofNat c.toNat).toNat = c.toNat := by
  have hc : 48 ≤ c.toNat ∧ c.toNat ≤ 57 := by
    simpa [Char.isDigit, UInt32.le_iff_toNat_le] using h
  refine ⟨hc.1, hc.2, ?_⟩
  rw [UInt8.toNat_ofNat']
  omega

theorem isdigit_zu (n : Nat) : ∀ b ∈ snprintf_zu n, isdigit b := by
  intro b hb
  obtain ⟨c, hc, rfl⟩ := List.mem_map.mp hb
  obtain ⟨h1, h2, h3⟩ := toNat_digit (Nat.isDigit_of_mem_toDigits (by decide) (by decide) hc)
  have hle : 48 ≤ UInt8.ofNat c.toNat := UInt8.le_iff_toNat_le.mpr (by rw [h3]; exact h1)
  have hge : UInt8.ofNat c.toNat ≤ 57 := UInt8.le_iff_toNat_le.mpr (by rw [h3]; exact h2)
  simp [isdigit, hle, hge]

/-- A printed number is read back. -/
theorem decimal_zu (n : Nat) : decimal (snprintf_zu n) = n := by
  have hchars : ∀ (cs : List Char) (m : Nat), (∀ c ∈ cs, c.isDigit) →
      (cs.map fun c => UInt8.ofNat c.toNat).foldl (fun n ch => 10 * n + (ch.toNat - 48)) m =
        Nat.ofDigitChars 10 cs m := by
    intro cs
    induction cs with
    | nil => intro m _; rfl
    | cons c cs ih =>
        intro m hcs
        rw [List.map_cons, List.foldl_cons, (toNat_digit (hcs c List.mem_cons_self)).2.2,
          Nat.ofDigitChars_cons, ih _ fun d hd => hcs d (List.mem_cons_of_mem c hd)]
        rfl
  unfold decimal snprintf_zu
  rw [hchars _ _ fun c hc => Nat.isDigit_of_mem_toDigits (by decide) (by decide) hc,
    Nat.ofDigitChars_ten_toDigits]

theorem zu_ne_nil (n : Nat) : snprintf_zu n ≠ [] := by
  unfold snprintf_zu
  simp [Nat.toDigits_ne_nil]

/-- A size as the header line has it. -/
def Digits.ofSize (n : Nat) (h : n < 2 ^ 63) : Digits where
  text := snprintf_zu n
  ne_nil := zu_ne_nil n
  digit := isdigit_zu n
  lt := by
    rw [decimal_zu]
    exact h

theorem Digits.val_ofSize (n : Nat) (h : n < 2 ^ 63) : (Digits.ofSize n h).val = n := decimal_zu n

/-! ### Reading to the end -/

/-- What can be read from a descriptor, up to its end or the first error. -/
def Socket.readable : Socket → List UInt8
  | [] => []
  | .error _ :: _ => []
  | .bytes [] :: _ => []
  | .bytes (b :: bs) :: rest => b :: bs ++ Socket.readable rest

theorem Socket.readable_segs {pieces : List (List UInt8)} (h : Segments.Live pieces) :
    Socket.readable (pieces.map .bytes) = pieces.flatten := by
  induction pieces with
  | nil => rfl
  | cons piece pieces ih =>
      cases piece with
      | nil => exact absurd rfl (h [] List.mem_cons_self)
      | cons b bs =>
          rw [List.map_cons, List.flatten_cons, ← ih h.tail]
          rfl

/-- A call of `read` is at the end, or it takes the first bytes. -/
theorem Socket.read_cases {len : Nat} (hlen : 1 ≤ len) (fd : Socket) :
    ((∃ e fd', fd.read len = (.error e, fd')) ∨ ∃ fd', fd.read len = (.ok [], fd')) ∧
        fd.readable = [] ∨
      ∃ c cs fd', fd.read len = (.ok (c :: cs), fd') ∧ fd.readable = c :: cs ++ fd'.readable ∧
        fd'.bytes.length < fd.bytes.length ∧ (c :: cs).length ≤ len := by
  match fd with
  | [] => exact .inl ⟨.inr ⟨[], rfl⟩, rfl⟩
  | .error e :: rest => exact .inl ⟨.inl ⟨e, rest, rfl⟩, rfl⟩
  | .bytes [] :: rest => exact .inl ⟨.inr ⟨rest, by simp [Socket.read]⟩, rfl⟩
  | .bytes (b :: bs) :: rest =>
      refine .inr ?_
      by_cases h : (b :: bs).length ≤ len
      · refine ⟨b, bs, rest, by simp only [Socket.read, h, if_true], rfl, ?_, h⟩
        simp only [Socket.bytes, List.length_append, List.length_cons]
        omega
      · -- The buffer is full, and the rest of the piece stays.
        obtain ⟨n, rfl⟩ := Nat.exists_eq_add_of_le' hlen
        cases hd : bs.drop n with
        | nil =>
            rw [List.drop_eq_nil_iff] at hd
            exact absurd (Nat.succ_le_succ hd) h
        | cons d ds =>
            have hbs : bs = bs.take n ++ d :: ds := by rw [← hd, List.take_append_drop]
            refine ⟨b, bs.take n, .bytes (d :: ds) :: rest, ?_, ?_, ?_, ?_⟩
            · simp only [Socket.read, h, if_false, List.take_succ_cons, List.drop_succ_cons, hd]
            · show b :: (bs ++ Socket.readable rest) =
                b :: (bs.take n ++ (d :: ds ++ Socket.readable rest))
              rw [← List.append_assoc (bs.take n), ← hbs]
            · simp only [Socket.bytes, List.length_append]
              rw [hbs]
              simp only [List.length_append, List.length_cons]
              omega
            · rw [List.length_cons, List.length_take]
              omega

/-! ### Streams -/

namespace SocketStream

@[simp] theorem putStr_written (s : SocketStream) (str : List UInt8) :
    (s.putStr str).written = s.written ++ cstring str := s.write_written _

@[simp] theorem putSize_written (s : SocketStream) (n : Nat) :
    (s.putSize n).written = s.written ++ snprintf_zu n := s.write_written _

@[simp] theorem write_bufferSize (s : SocketStream) (src : List UInt8) :
    (s.write src).bufferSize = s.bufferSize := by
  obtain ⟨-, hsize, -⟩ := s.room_spec src.length
  rw [write_eq]
  by_cases h : src.length > (s.room src.length).bufferSize
  · rw [if_pos h]
    exact hsize
  · rw [if_neg h]
    exact hsize

@[simp] theorem putStr_bufferSize (s : SocketStream) (str : List UInt8) :
    (s.putStr str).bufferSize = s.bufferSize := s.write_bufferSize _

@[simp] theorem putSize_bufferSize (s : SocketStream) (n : Nat) :
    (s.putSize n).bufferSize = s.bufferSize := s.write_bufferSize _

/-- The loop overwrites the buffer, which is empty every time it comes to it. -/
theorem forwardLoop_written :
    ∀ (n : Nat) (fd : Socket) (s : SocketStream), fd.bytes.length < n → 1 ≤ s.bufferSize →
      s.offset = 0 → (forwardLoop n fd s).written = s.written ++ fd.readable := by
  intro n
  induction n with
  | zero => intro fd s hn; omega
  | succ n ih =>
      intro fd s hn hsize hoff
      unfold forwardLoop
      rcases Socket.read_cases hsize fd with ⟨hr, hend⟩ | ⟨c, cs, fd', hr, hread, hlt, -⟩
      · rw [hend, List.append_nil]
        rcases hr with ⟨e, fd', hr⟩ | ⟨fd', hr⟩
        · rw [hr]
        · rw [hr]
      · rw [hr]
        simp only
        rw [ih fd' _ (by omega) (by rw [flush_bufferSize]; exact hsize) (by rw [flush_eq]),
          flush_written, hread, ← List.append_assoc]
        simp only [written, read_write_self, hoff, read_zero, List.append_nil]

/-- `forward` sends all that can be read. -/
theorem forward_readable {s : SocketStream} (hsize : 1 ≤ s.bufferSize) (fd : Socket) :
    (s.forward fd).written = s.written ++ fd.readable := by
  unfold forward
  rw [forwardLoop_written _ fd _ (Nat.lt_succ_self _) (by rw [flush_bufferSize]; exact hsize)
    (by rw [flush_eq]), flush_written]

/-- `forward` sends all of a file. -/
theorem forward_written {s : SocketStream} {pieces : List (List UInt8)} (hsize : 1 ≤ s.bufferSize)
    (hlive : Segments.Live pieces) :
    (s.forward (pieces.map .bytes)).written = s.written ++ pieces.flatten := by
  rw [forward_readable hsize, Socket.readable_segs hlive]

end SocketStream

theorem doProduce_eq (produce : SocketStream → SocketStream) (buf : Mem) (bufSize : Nat) :
    doProduce produce buf bufSize = (produce ⟨buf, 0, bufSize, []⟩).written :=
  SocketStream.flush_sent _

/-! ### Files -/

namespace HttpUtil

theorem version_word :
    ascii "HTTP/1.1" ≠ [] ∧
      (ascii "HTTP/1.1").all (fun b => Printable b ∧ isspace b = false) = true := by
  decide

theorem reason_printable : ∀ b ∈ ascii " OK", Printable b := forall_of_all (by decide)

theorem reason_apart : ∀ b ∈ (ascii " OK").head?, isspace b := by
  intro b hb
  cases hb
  rfl

theorem after_ne : ∀ h ∈ ([] : List Field), h.key ≠ ascii "Content-Length" := nofun

/-- The response `renderFile` writes for a file. -/
def fileResponse (content : List UInt8) (h : content.length < 2 ^ 63) : Response where
  version := Word.ofText (ascii "HTTP/1.1") version_word
  reason := ascii " OK"
  reason_printable := reason_printable
  reason_apart := reason_apart
  before := [connectionField .CLOSE]
  length := Digits.ofSize content.length h
  after := []
  after_ne := after_ne
  body := content
  body_le := Nat.le_of_eq (Digits.val_ofSize _ h).symm

theorem fileResponse_closes (content : List UInt8) (h : content.length < 2 ^ 63) (isLast : Bool) :
    (fileResponse content h).Closes isLast := by
  have hlookup : (fileResponse content h).headText.lookup (ascii "Connection") =
      some (ascii "close") := rfl
  rw [Response.Closes, hlookup]
  change strcaseeq (ascii "close") (ascii "close") = true
  decide

theorem render_fileResponse (content : List UInt8) (h : content.length < 2 ^ 63) :
    (fileResponse content h).render =
      ascii "HTTP/1.1 200 OK\r\nConnection: close\r\nContent-Length: " ++
        snprintf_zu content.length ++ ascii "\r\n\r\n" ++ content := by
  have hfields : renderFields (fileResponse content h).headText.fields =
      ascii "Connection: close\r\nContent-Length: " ++ snprintf_zu content.length ++
        ascii "\r\n\r\n" := by
    change renderFields [connectionField .CLOSE, (Digits.ofSize content.length h).field] = _
    simp only [renderFields_cons, Field.line, List.append_assoc]
    rfl
  have hhead : (fileResponse content h).headText.render =
      (fileResponse content h).headText.start ++ ascii "\r\n" ++
        renderFields (fileResponse content h).headText.fields := rfl
  rw [Response.render, hhead, hfields]
  simp only [List.append_assoc]
  rfl

variable {strerror : Errno → List UInt8} {open_ : List UInt8 → Opened}

/-- What `renderFile` sends for a file, whatever the buffer and the reads. -/
theorem renderFile_sent {slash : UInt8} {name : List UInt8} {pieces : List (List UInt8)}
    (hlive : Segments.Live pieces) (h : pieces.flatten.length < 2 ^ 63)
    (hopen : open_ name = .file pieces.flatten.length (pieces.map .bytes)) (buf : Mem) {bufSize : Nat}
    (hsize : 1 ≤ bufSize) :
    doProduce (fun s => (renderFile strerror open_ s (slash :: name)).2) buf bufSize =
      (fileResponse pieces.flatten h).render := by
  rw [doProduce_eq, render_fileResponse]
  unfold renderFile
  simp only [hopen]
  rw [SocketStream.forward_written (by simpa using hsize) hlive]
  simp only [SocketStream.putStr_written, SocketStream.putSize_written, List.append_assoc]
  rfl

/-! ### Errors -/

/-- However the text arrives, `body` is what is behind its head, and the number in the head's
`Content-Length` is the length of `body`. -/
def Announces (text body : List UInt8) : Prop :=
  ∀ (segs : List (List UInt8)) (r : HttpHeadReader), Segments.Live segs → segs.flatten = text →
    1 ≤ r.size →
    ∃ head r' digits, parse (r.reset (segs.map .bytes)) headTable = .ok (head, r') ∧
      r'.pending ++ r'.socket.bytes = body ∧
      head.table.get (ascii "Content-Length") = some digits ∧ (∀ b ∈ digits, isdigit b) ∧
      decimal digits = body.length

theorem announces_of_lookup {t : HeadText} {body : List UInt8}
    (h : t.lookup (ascii "Content-Length") = some (snprintf_zu body.length)) :
    Announces (t.render ++ body) body := by
  intro segs r hlive hs hsize
  have hs' : (⟨[], segs⟩ : Feed UInt8).stream = t.render ++ body := hs
  obtain ⟨r', hparse, hv, -⟩ := (views_reset hsize hlive).parse t hs'
  have hbehind : (Feed.skip r.size t.render.length ⟨[], segs⟩).stream = body :=
    Feed.skip_append hsize hlive hs'
  refine ⟨t.head, r', snprintf_zu body.length, hparse, ?_, ?_, isdigit_zu _, decimal_zu _⟩
  · rw [hv.pending, hv.socket, Socket.bytes_segs]
    exact hbehind
  · rw [HeadText.head_get _ rfl, h]
    rfl

/-- The head of an error response: its start line, `Connection`, the length and the type. -/
def errorHead (start : List UInt8) (hstart : ∀ b ∈ start, Printable b) (length : Nat) : HeadText where
  start := start
  fields :=
    [connectionField .CLOSE,
     Field.ofKey (ascii "Content-Length") (by decide) (snprintf_zu length)
       fun b hb => (Digits.printable_of_digit (isdigit_zu length b hb)).1,
     Field.ofKey (ascii "Content-Type") (by decide) (ascii "text/html") (forall_of_all (by decide))]
  start_printable := hstart

theorem errorHead_render (start : List UInt8) (hstart : ∀ b ∈ start, Printable b) (length : Nat) :
    (errorHead start hstart length).render =
      start ++ ascii "\r\nConnection: close\r\nContent-Length: " ++ snprintf_zu length ++
        ascii "\r\nContent-Type: text/html\r\n\r\n" := by
  simp only [HeadText.render, errorHead, renderFields_cons, Field.line, List.append_assoc]
  rfl

theorem errorHead_announces (start : List UInt8) (hstart : ∀ b ∈ start, Printable b)
    (body : List UInt8) :
    Announces (start ++ ascii "\r\nConnection: close\r\nContent-Length: " ++
      snprintf_zu body.length ++ ascii "\r\nContent-Type: text/html\r\n\r\n" ++ body) body := by
  rw [← errorHead_render start hstart]
  refine announces_of_lookup ?_
  change some ((snprintf_zu body.length).dropWhile (· = 32)) = _
  rw [dropWhile_digits (isdigit_zu _)]

theorem render404_announces (buf : Mem) (bufSize : Nat) :
    Announces (doProduce (fun s => (render404 s).2) buf bufSize) (ascii "<h1>Not Found</h1>") := by
  have h := errorHead_announces (ascii "HTTP/1.1 404 Not Found") (forall_of_all (by decide))
    (ascii "<h1>Not Found</h1>")
  rw [doProduce_eq]
  unfold render404
  rw [SocketStream.putStr_written]
  exact h

/-- The message of `render500`. -/
def message500 (strerror : Errno → List UInt8) (err : Errno) : List UInt8 :=
  if err ≠ 0 then strerror err else ascii ""

/-- The body of `render500`. -/
def body500 (message : List UInt8) : List UInt8 :=
  ascii "<h1>Internal Server Error</h1>" ++ (ascii "<h2>" ++ (cstring message ++ ascii "</h2>"))

theorem length_body500 (message : List UInt8) :
    strlen (ascii "<h1>Internal Server Error</h1>") + strlen message + strlen (ascii "<h2></h2>") =
      (body500 message).length := by
  have h1 : strlen (ascii "<h1>Internal Server Error</h1>") = 30 := rfl
  have h2 : strlen (ascii "<h2></h2>") = 9 := rfl
  have h3 : (ascii "<h1>Internal Server Error</h1>").length = 30 := rfl
  have h4 : (ascii "<h2>").length = 4 ∧ (ascii "</h2>").length = 5 := ⟨rfl, rfl⟩
  rw [h1, h2, body500, List.length_append, List.length_append, List.length_append, h3, h4.1, h4.2,
    strlen]
  omega

theorem render500_announces (buf : Mem) (bufSize : Nat) (err : Errno) :
    Announces (doProduce (fun s => (render500 strerror s err).2) buf bufSize)
      (body500 (message500 strerror err)) := by
  have h := errorHead_announces (ascii "HTTP/1.1 500 Internal Server Error")
    (forall_of_all (by decide)) (body500 (message500 strerror err))
  have htext : doProduce (fun s => (render500 strerror s err).2) buf bufSize =
      ascii "HTTP/1.1 500 Internal Server Error" ++
        ascii "\r\nConnection: close\r\nContent-Length: " ++
        snprintf_zu (body500 (message500 strerror err)).length ++
        ascii "\r\nContent-Type: text/html\r\n\r\n" ++ body500 (message500 strerror err) := by
    rw [doProduce_eq, ← length_body500]
    unfold render500
    simp only [SocketStream.putStr_written, SocketStream.putSize_written, List.append_assoc]
    rfl
  rw [htext]
  exact h

/-! ### Exchanges -/

/-- A file on the server: the pieces in which it is read. -/
structure ServedFile where
  pieces : List (List UInt8)
  live : Segments.Live pieces
  lt : pieces.flatten.length < 2 ^ 63

def ServedFile.content (file : ServedFile) : List UInt8 := file.pieces.flatten

/-- What `open` and `fstat` make of it. -/
def ServedFile.opened (file : ServedFile) : Opened :=
  .file file.content.length (file.pieces.map .bytes)

/-- The client got the whole file, and the connection is closed. -/
structure ServedFile.Received (file : ServedFile) (res : Result) : Prop where
  ret : res.ret = 0
  consumed : res.consumed.flatten = file.content
  closed : res.client.connected = false

theorem ServedFile.received (file : ServedFile) {e : Exchange} {res : Result}
    (he : e.response = fileResponse file.content file.lt) (h : e.Delivers res) :
    file.Received res := by
  have hval : e.response.length.val = e.response.body.length := by
    rw [he]
    exact Digits.val_ofSize _ file.lt
  have hret : res.ret = 0 := h.ret.mpr hval.symm
  refine ⟨hret, ?_, h.closed.mpr (.inr ?_)⟩
  · rw [h.consumed, hval, Nat.min_self, List.take_length, he]
    rfl
  · rw [he]
    exact fileResponse_closes _ _ _

/-- **A served file arrives**: whatever the buffer it is sent through, the pieces it is read in and
the segments it arrives in, the client's consumer is given all of it and nothing else.  The error
responses announce the length of their bodies. -/
theorem files_received (strerror : Errno → List UInt8) (buf : Mem) (bufSize : Nat) :
    (∀ (file : ServedFile) (open_ : List UInt8 → Opened) (slash : UInt8) (name : List UInt8)
        (c : HttpClient) (method : HttpMethodType) (path : List UInt8) (isLast : Bool)
        (segs : List (List UInt8)),
      1 ≤ bufSize → open_ name = file.opened → c.Ready → method ≠ .INVALID → Segments.Live segs →
      segs.flatten = doProduce (fun s => (renderFile strerror open_ s (slash :: name)).2) buf bufSize →
      ∃ res, c.request accept method (path ++ [0]) isLast true (segs.map .bytes) = .ok res ∧
        file.Received res) ∧
    Announces (doProduce (fun s => (render404 s).2) buf bufSize) (ascii "<h1>Not Found</h1>") ∧
    ∀ err, Announces (doProduce (fun s => (render500 strerror s err).2) buf bufSize)
      (body500 (message500 strerror err)) := by
  refine ⟨?_, render404_announces buf bufSize, render500_announces buf bufSize⟩
  intro file open_ slash name c method path isLast segs hsize hopen hready hmethod hlive hs
  rw [renderFile_sent file.live file.lt hopen buf hsize] at hs
  let e : Exchange :=
    { method := method, method_ne := hmethod, path := path, isLast := isLast
      response := fileResponse file.content file.lt, segs := segs, live := hlive, arrives := hs }
  obtain ⟨res, hreq, hdel, -⟩ := hready.request e
  exact ⟨res, hreq, file.received rfl hdel⟩

/-- Five bytes, read three and two. -/
def helloFile : ServedFile where
  pieces := [ascii "hel", ascii "lo"]
  live := by
    unfold Segments.Live
    decide
  lt := by decide

/-- What `renderFile` sends for it through a buffer of two bytes. -/
def helloSent : List UInt8 :=
  doProduce (fun s =>
    (renderFile (fun _ => []) (fun _ => helloFile.opened) s (ascii "/hello")).2) (fun _ => 0) 2

/-- The segments in which that arrives. -/
def helloSegs : List (List UInt8) :=
  [helloSent.take 50, (helloSent.drop 50).take 10, helloSent.drop 60]

theorem files_received_hello :
    helloSegs.flatten = helloSent ∧ helloSegs.map List.length = [50, 10, 2] ∧
      ∃ res, (HttpClient.create 4096 (fun _ => 0) (ascii "localhost")).request accept .GET
          (ascii "/hello" ++ [0]) false true (helloSegs.map .bytes) = .ok res ∧
        res.ret = 0 ∧ res.consumed.flatten = ascii "hello" ∧ res.client.connected = false := by
  have hsegs : helloSegs.flatten = helloSent := by decide
  have hready : (HttpClient.create 4096 (fun _ => 0) (ascii "localhost")).Ready :=
    ⟨by decide, fun h => by cases h⟩
  have hlive : Segments.Live helloSegs := by
    unfold Segments.Live
    decide
  obtain ⟨res, hreq, hrec⟩ := (files_received (fun _ => []) (fun _ => 0) 2).1 helloFile
    (fun _ => helloFile.opened) 47 (ascii "hello") _ .GET (ascii "/hello") false helloSegs
    (by decide) rfl hready (by decide) hlive hsegs
  exact ⟨hsegs, by decide, res, hreq, hrec.ret, hrec.consumed, hrec.closed⟩

end HttpUtil

end LinuxUtil.Httpd
