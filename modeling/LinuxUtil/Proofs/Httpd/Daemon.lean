/-
What the server's handler is given, against what was sent.

The daemon reads heads through the reader and bodies straight from the socket, and
starts every head with an empty reader.  What the reader has in `ready` at the end of a
head is therefore lost.  `Aligned` says that this is nothing, for every request of a
connection: each head ends where a read ends.  Then every request is delivered as it
was sent; and where the last head is the first that ends elsewhere, its body is not.
-/
import LinuxUtil.Httpd.Daemon
import LinuxUtil.Proofs.Httpd.Client

namespace LinuxUtil.Httpd

open ByteMem

/-! ### Requests -/

/-- A request: `METHOD path version`, header lines, and a body as long as the last `Content-Length`
line says; without such a line there is none. -/
structure Request where
  method : HttpMethodType
  method_ne : method ≠ .INVALID
  path : Word
  version : List UInt8
  version_printable : ∀ b ∈ version, Printable b
  version_apart : ∀ b ∈ version.head?, isspace b
  fields : List Field
  body : List UInt8
  length : Option Digits
  lookup_length :
    ((fields.reverse.find? (·.key = ascii "Content-Length")).map Field.content) =
      length.map Digits.text
  body_length : body.length = (length.map Digits.val).getD 0

/-- A method that is one, as a word. -/
def methodWord : HttpMethodType → Word
  | .INVALID => Word.ofText (ascii "INVALID") (by decide)
  | .GET => Word.ofText (ascii "GET") (by decide)
  | .HEAD => Word.ofText (ascii "HEAD") (by decide)
  | .POST => Word.ofText (ascii "POST") (by decide)

theorem methodFromString_word (method : HttpMethodType) :
    methodFromString (methodWord method).text = method := by
  cases method <;> decide

namespace Request

def headText (q : Request) : HeadText where
  start := (methodWord q.method).text ++ 32 :: (q.path.text ++ q.version)
  fields := q.fields
  start_printable := by
    intro b hb
    rcases List.mem_append.mp hb with hb | hb
    · exact (methodWord q.method).printable b hb
    · rcases List.mem_cons.mp hb with rfl | hb
      · decide
      · rcases List.mem_append.mp hb with hb | hb
        · exact q.path.printable b hb
        · exact q.version_printable b hb

def render (q : Request) : List UInt8 := q.headText.render ++ q.body

/-- The connection type asked for; the default is the daemon's. -/
def connection (q : Request) : HttpConnectionType :=
  connFromString ((q.headText.lookup (ascii "Connection")).getD [])

theorem tokens (q : Request) :
    q.headText.head.method = (methodWord q.method).text ∧ q.headText.head.path = q.path.text := by
  have hfirst : nextToken q.headText.start =
      ((methodWord q.method).text, 32 :: (q.path.text ++ q.version)) :=
    nextToken_word (methodWord q.method) (by simp [isspace])
  unfold HeadText.head
  simp only [hfirst, true_and]
  rw [nextToken_space, nextToken_word q.path q.version_apart]

theorem isValid (q : Request) : q.headText.head.isValid = true := by
  unfold Head.isValid
  rw [q.tokens.1, q.tokens.2]
  simp [(methodWord q.method).ne_nil, q.path.ne_nil]

theorem method_read (q : Request) :
    methodFromString (cstring q.headText.head.method) = q.method := by
  rw [q.tokens.1, cstring_eq (methodWord q.method).printable, methodFromString_word]

theorem connection_read (q : Request) : q.headText.head.connection = q.connection := by
  unfold Head.connection connection
  rw [HeadText.head_get _ rfl, Option.getD_some]
  cases hl : q.headText.lookup (ascii "Connection") with
  | none => rfl
  | some value => rw [Option.getD_some, cstring_eq (HeadText.lookup_printable _ hl)]

theorem contentLength (q : Request) : q.headText.head.contentLength = q.body.length := by
  have hlookup : q.headText.lookup (ascii "Content-Length") = q.length.map Digits.text :=
    q.lookup_length
  unfold Head.contentLength
  rw [HeadText.head_get _ rfl, hlookup, q.body_length]
  cases q.length with
  | none => rfl
  | some d =>
      simp only [Option.map_some, Option.getD_some, d.ne_nil, if_false]
      exact d.atol_text

end Request

/-! ### The body -/

theorem doConsume_segs {size : Nat} (hsize : 1 ≤ size) :
    ∀ (n remain : Nat) (segs : List (List UInt8)) (consumed : List (List UInt8)),
      Segments.Live segs → segs.flatten.length < n →
      (doConsume accept size n remain (segs.map .bytes) consumed).1.flatten =
          consumed.flatten ++ segs.flatten.take remain ∧
        (doConsume accept size n remain (segs.map .bytes) consumed).2 =
          (Segments.drop remain segs).map .bytes := by
  intro n
  induction n with
  | zero => intro remain segs consumed _ hn; omega
  | succ n ih =>
      intro remain segs consumed hlive hn
      unfold doConsume
      by_cases hpos : remain > 0
      · rw [if_pos hpos, Socket.read_segs]
        rcases Segments.pull_cases (show 1 ≤ min remain size by omega) hlive with
          ⟨rfl, hp⟩ | ⟨c, cs, segs', hp, hflat, hlen, hlive', hdrop⟩
        · rw [hp]
          simp [Segments.drop]
        · have hpart : (c :: cs).length ≤ remain := Nat.le_trans hlen (Nat.min_le_left _ _)
          have hfuel : segs'.flatten.length < n := by
            rw [hflat, List.length_append, List.length_cons] at hn
            omega
          rw [hp]
          simp only [accept, if_true]
          obtain ⟨hc, hs⟩ := ih (remain - (c :: cs).length) segs' (consumed ++ [c :: cs]) hlive' hfuel
          refine ⟨hc.trans ?_, hs.trans ?_⟩
          · rw [hflat, List.take_append, List.take_of_length_le hpart]
            simp
          · rw [hdrop _ (Nat.min_le_left _ _)]
      · have hzero : remain = 0 := by omega
        rw [if_neg hpos, hzero, List.take_zero, List.append_nil, Segments.drop_zero hlive]
        exact ⟨rfl, rfl⟩

/-! ### The end of the stream -/

/-- There is nothing more to come. -/
def AtEnd (r : HttpHeadReader) : Prop := r.socket = [] ∧ r.end_ ≤ r.offset

@[simp] theorem HttpHeadReader.reset_size (r : HttpHeadReader) (socket : Socket) :
    (r.reset socket).size = r.size := rfl

theorem AtEnd.nextLine {r : HttpHeadReader} (h : AtEnd r) :
    ∃ r', r.nextLine = .ok ([], r') ∧ AtEnd r' := by
  have hfill : r.fill = { r with socket := [], buffer := write r.buffer 0 [], offset := 0, end_ := 0 } := by
    rw [HttpHeadReader.fill, h.1]
    rfl
  have hget : r.getch = (-1, r.fill) := by
    have hge : r.offset ≥ r.end_ := h.2
    unfold HttpHeadReader.getch
    simp only [hge, if_true, hfill]
    simp
  refine ⟨{ r.fill with error := EINVAL }, ?_, ?_⟩
  · unfold HttpHeadReader.nextLine HttpHeadReader.lineLoop
    rw [hget]
    rfl
  · rw [hfill]
    exact ⟨rfl, Nat.le_refl 0⟩

theorem AtEnd.parse {r : HttpHeadReader} (h : AtEnd r) :
    ∃ r', Httpd.parse r headTable = .ok (⟨[], [], headTable⟩, r') := by
  obtain ⟨r₁, hline, h₁⟩ := h.nextLine
  obtain ⟨r₂, hline', -⟩ := h₁.nextLine
  refine ⟨r₂, ?_⟩
  unfold Httpd.parse
  rw [hline]
  simp only [bind, Except.bind, Httpd.parseLines, hline']
  rfl

/-! ### One request -/

/-- The handler keeps the connection open. -/
def keep : Nat → Bool := fun _ => false

theorem handleRequest_end (consume : Consumer) (closed : Nat → Bool) (n : Nat) {r : HttpHeadReader}
    (h : r.socket = []) (done : List Delivered) :
    handleRequest consume closed (n + 1) r done = .ok done := by
  obtain ⟨r', hparse⟩ := AtEnd.parse (r := r.reset r.socket) ⟨h, Nat.le_refl 0⟩
  unfold handleRequest
  rw [hparse]
  rfl

/-- The feed at the end of a request's head, which starts with an empty reader. -/
def Request.feed (q : Request) (size : Nat) (segs : List (List UInt8)) : Feed UInt8 :=
  Feed.skip size q.headText.render.length ⟨[], segs⟩

/-- The segments behind a request, as the daemon goes on with them. -/
def Request.behind (q : Request) (size : Nat) (segs : List (List UInt8)) : List (List UInt8) :=
  Segments.drop q.body.length (q.feed size segs).segs

/-- What the handler is given: the head as it was sent, and for the body what is still on the
socket. -/
theorem handleRequest_step (n : Nat) {r : HttpHeadReader} {segs : List (List UInt8)} (q : Request)
    {rest : List UInt8} (done : List Delivered) (hr : r.socket = segs.map .bytes)
    (hsize : 1 ≤ r.size) (hlive : Segments.Live segs) (hs : segs.flatten = q.headText.render ++ rest) :
    ∃ consumed r', handleRequest accept keep (n + 1) r done =
        handleRequest accept keep n r'
          (done ++ [⟨q.method, q.path.text, q.connection, consumed⟩]) ∧
      consumed.flatten = (q.feed r.size segs).segs.flatten.take q.body.length ∧
      r'.socket = (q.behind r.size segs).map .bytes ∧ r'.size = r.size := by
  have hview := views_reset (r := r) hsize hlive
  rw [← hr] at hview
  obtain ⟨r₁, hparse, hv, hsize₁⟩ := hview.parse q.headText hs
  obtain ⟨hc, hd⟩ := doConsume_segs hv.size (r₁.socket.bytes.length + 1)
    q.body.length (q.feed r.size segs).segs [] hv.live
    (by rw [hv.socket, Socket.bytes_segs]; exact Nat.lt_succ_self _)
  have hsock : r₁.socket = (q.feed r.size segs).segs.map .bytes := hv.socket
  rw [hsock] at hc hd
  refine ⟨_, { r₁ with
    error := 0
    socket := (q.behind r.size segs).map .bytes }, ?_, hc, rfl, hsize₁⟩
  conv => lhs; unfold handleRequest
  simp only [bind, Except.bind, hparse, HttpHeadReader.getLastError, hv.error, q.isValid,
    q.method_read, q.method_ne, q.contentLength, q.connection_read, q.tokens.2, hsock, hd, keep,
    Bool.not_true, ne_eq, not_true_eq_false, decide_false, Bool.or_self, Bool.false_eq_true, if_false]
  rfl

theorem Request.feed_spec (q : Request) {size : Nat} {segs : List (List UInt8)} {rest : List UInt8}
    (hsize : 1 ≤ size) (hlive : Segments.Live segs)
    (hs : segs.flatten = q.headText.render ++ rest) :
    (q.feed size segs).stream = rest ∧ (q.feed size segs).Live := by
  have hfeed : (⟨[], segs⟩ : Feed UInt8).stream = q.headText.render ++ rest := hs
  refine ⟨Feed.skip_append hsize hlive hfeed, (Feed.skip_stream hsize _ ⟨[], segs⟩ hlive ?_).2⟩
  rw [hfeed, List.length_append]
  exact Nat.le_add_right _ _

/-- The last request, whatever its body comes to. -/
theorem handleRequest_last (n : Nat) {r : HttpHeadReader} {segs : List (List UInt8)} (q : Request)
    (done : List Delivered) (hr : r.socket = segs.map .bytes) (hsize : 1 ≤ r.size)
    (hlive : Segments.Live segs) (hs : segs.flatten = q.render) :
    ∃ consumed, handleRequest accept keep (n + 2) r done =
        .ok (done ++ [⟨q.method, q.path.text, q.connection, consumed⟩]) ∧
      consumed.flatten = (q.feed r.size segs).segs.flatten.take q.body.length := by
  obtain ⟨consumed, r', hstep, hc, hr', -⟩ := handleRequest_step (n + 1) q done hr hsize hlive hs
  obtain ⟨hstream, hflive⟩ := q.feed_spec hsize hlive hs
  refine ⟨consumed, ?_, hc⟩
  have hbehind : q.behind r.size segs = [] := by
    refine Segments.Live.eq_nil (Segments.drop_live _ hflive) ?_
    rw [Request.behind, Segments.drop_flatten, ← hstream, Feed.stream, List.length_append, List.drop_eq_nil_iff]
    exact Nat.le_add_left _ _
  rw [hstep, handleRequest_end accept keep n (by rw [hr', hbehind]; rfl)]

/-! ### Connections -/

/-- The requests on one connection, and the segments they arrive in. -/
structure Connection where
  requests : List Request
  segs : List (List UInt8)
  live : Segments.Live segs
  arrives : segs.flatten = requests.flatMap Request.render

/-- Each head ends where a read ends: the reader, which starts with nothing, has nothing left. -/
def Aligned (size : Nat) : List Request → List (List UInt8) → Prop
  | [], _ => True
  | q :: qs, segs => (q.feed size segs).ready = [] ∧ Aligned size qs (q.behind size segs)

/-- The segments behind some requests. -/
def behindAll (size : Nat) : List Request → List (List UInt8) → List (List UInt8)
  | [], segs => segs
  | q :: qs, segs => behindAll size qs (q.behind size segs)

theorem aligned_append (size : Nat) :
    ∀ (front tail : List Request) (segs : List (List UInt8)),
      Aligned size (front ++ tail) segs ↔
        Aligned size front segs ∧ Aligned size tail (behindAll size front segs) := by
  intro front
  induction front with
  | nil => intro tail segs; simp [Aligned, behindAll]
  | cons q front ih =>
      intro tail segs
      rw [List.cons_append, Aligned, Aligned, behindAll, ih, and_assoc]

/-- What counts of a request: method, path, connection type and body. -/
def Request.whole (q : Request) : HttpMethodType × List UInt8 × HttpConnectionType × List UInt8 :=
  (q.method, q.path.text, q.connection, q.body)

/-- The same of what the handler was given. -/
def Delivered.whole (d : Delivered) : HttpMethodType × List UInt8 × HttpConnectionType × List UInt8 :=
  (d.method, d.path, d.connection, d.consumed.flatten)

/-- Requests whose heads are aligned are delivered, and the loop goes on behind them. -/
theorem handleRequest_front :
    ∀ (front : List Request) (n : Nat) {r : HttpHeadReader} {segs : List (List UInt8)}
      {rest : List UInt8} (done : List Delivered), r.socket = segs.map .bytes → 1 ≤ r.size →
      Segments.Live segs → segs.flatten = front.flatMap Request.render ++ rest →
      Aligned r.size front segs →
      ∃ ds r', handleRequest accept keep (front.length + n) r done =
          handleRequest accept keep n r' (done ++ ds) ∧
        ds.map Delivered.whole = front.map Request.whole ∧
        r'.socket = (behindAll r.size front segs).map .bytes ∧ r'.size = r.size ∧
        Segments.Live (behindAll r.size front segs) ∧
        (behindAll r.size front segs).flatten = rest := by
  intro front
  induction front with
  | nil =>
      intro n r segs rest done hr _ hlive hs _
      exact ⟨[], r, by rw [List.length_nil, Nat.zero_add, List.append_nil], rfl, hr, rfl, hlive, hs⟩
  | cons q front ih =>
      intro n r segs rest done hr hsize hlive hs hal
      have hs' : segs.flatten =
          q.headText.render ++ (q.body ++ (front.flatMap Request.render ++ rest)) := by
        rw [hs, List.flatMap_cons, Request.render]
        simp only [List.append_assoc]
      obtain ⟨consumed, r₁, hstep, hc, hr₁, hsize₁⟩ :=
        handleRequest_step (front.length + n) q done hr hsize hlive hs'
      obtain ⟨hstream, hflive⟩ := q.feed_spec hsize hlive hs'
      have hflat : (q.feed r.size segs).segs.flatten =
          q.body ++ (front.flatMap Request.render ++ rest) := by
        rw [← hstream, Feed.stream, hal.1, List.nil_append]
      have hbehind : (q.behind r.size segs).flatten = front.flatMap Request.render ++ rest := by
        rw [Request.behind, Segments.drop_flatten, hflat, List.drop_left]
      obtain ⟨ds, r', hrun, hds, hr', hsize', hlive', hrest⟩ := ih n
        (done ++ [⟨q.method, q.path.text, q.connection, consumed⟩]) hr₁ (hsize₁ ▸ hsize)
        (Segments.drop_live _ hflive) hbehind (by rw [hsize₁]; exact hal.2)
      rw [hsize₁] at hr' hsize' hlive' hrest
      refine ⟨⟨q.method, q.path.text, q.connection, consumed⟩ :: ds, r', ?_, ?_, hr', hsize', hlive',
        hrest⟩
      · rw [List.length_cons, show front.length + 1 + n = front.length + n + 1 by omega, hstep, hrun,
          List.append_assoc, List.singleton_append]
      · rw [List.map_cons, List.map_cons, hds, Delivered.whole, Request.whole]
        simp only [hc, hflat, List.take_left]

/-- The handler is given what was sent. -/
def Connection.DeliveredBy (c : Connection) (r : HttpHeadReader) : Prop :=
  ∃ ds, (r.reset (c.segs.map .bytes)).serve accept keep = .ok ds ∧
    ds.map Delivered.whole = c.requests.map Request.whole

theorem length_le_render (qs : List Request) : qs.length ≤ (qs.flatMap Request.render).length := by
  induction qs with
  | nil => exact Nat.zero_le _
  | cons q qs ih =>
      have hpos : 1 ≤ q.render.length := by
        rw [Request.render, HeadText.render, List.length_append, List.length_append,
          List.length_append]
        have : (ascii "\r\n").length = 2 := rfl
        omega
      rw [List.flatMap_cons, List.length_cons, List.length_append]
      omega

theorem Connection.delivered_of_aligned (c : Connection) {r : HttpHeadReader} (hsize : 1 ≤ r.size)
    (h : Aligned r.size c.requests c.segs) : c.DeliveredBy r := by
  have hlen := length_le_render c.requests
  obtain ⟨m, hm⟩ := Nat.exists_eq_add_of_le hlen
  have harr : c.segs.flatten = c.requests.flatMap Request.render ++ [] := by
    rw [List.append_nil]
    exact c.arrives
  obtain ⟨ds, r', hrun, hds, hr', -, hlive, hnil⟩ := handleRequest_front c.requests (m + 1)
    (r := r.reset (c.segs.map .bytes)) [] rfl hsize c.live harr h
  refine ⟨ds, ?_, hds⟩
  have hend : r'.socket = [] := by
    rw [hr', Segments.Live.eq_nil hlive hnil]
    rfl
  unfold HttpHeadReader.serve
  rw [show (r.reset (c.segs.map .bytes)).socket = c.segs.map .bytes from rfl, Socket.bytes_segs,
    c.arrives, hm, Nat.add_assoc, hrun, handleRequest_end accept keep m hend, List.nil_append]

/-- Where only the last head is in question, its body shows it. -/
theorem Connection.aligned_of_delivered (c : Connection) {r : HttpHeadReader} (hsize : 1 ≤ r.size)
    (h : Aligned r.size c.requests.dropLast c.segs) (hd : c.DeliveredBy r) :
    Aligned r.size c.requests c.segs := by
  cases hq : c.requests.getLast? with
  | none =>
      rw [List.getLast?_eq_none_iff.mp hq]
      trivial
  | some q =>
      have hsplit : c.requests = c.requests.dropLast ++ [q] :=
        (List.dropLast_append_getLast? q hq).symm
      have hlen := length_le_render c.requests
      obtain ⟨m, hm⟩ := Nat.exists_eq_add_of_le hlen
      have harr : c.segs.flatten = c.requests.dropLast.flatMap Request.render ++ q.render := by
        rw [c.arrives]
        conv => lhs; rw [hsplit]
        rw [List.flatMap_append, List.flatMap_singleton]
      obtain ⟨ds, r₁, hrun, hds, hr₁, hsize₁, hlive₁, hrest⟩ :=
        handleRequest_front c.requests.dropLast (m + 2) (r := r.reset (c.segs.map .bytes)) [] rfl
          hsize c.live harr h
      rw [HttpHeadReader.reset_size] at hr₁ hsize₁ hlive₁ hrest
      obtain ⟨consumed, hlast, hc⟩ :=
        handleRequest_last m q ([] ++ ds) hr₁ (hsize₁ ▸ hsize) hlive₁ hrest
      rw [hsize₁] at hc
      have hserve : (r.reset (c.segs.map .bytes)).serve accept keep =
          .ok (ds ++ [⟨q.method, q.path.text, q.connection, consumed⟩]) := by
        have hfuel : (c.requests.flatMap Request.render).length + 1 =
            c.requests.dropLast.length + (m + 2) := by
          have := congrArg List.length hsplit
          rw [List.length_append, List.length_singleton] at this
          omega
        unfold HttpHeadReader.serve
        rw [show (r.reset (c.segs.map .bytes)).socket = c.segs.map .bytes from rfl,
          Socket.bytes_segs, c.arrives, hfuel, hrun, hlast, List.nil_append]
      obtain ⟨ds', hserve', hwhole⟩ := hd
      obtain rfl := Except.ok.inj (hserve.symm.trans hserve')
      rw [hsplit, List.map_append, List.map_append, hds] at hwhole
      have hbody : consumed.flatten = q.body := by
        have := List.append_cancel_left hwhole
        simpa [Delivered.whole, Request.whole] using this
      rw [hsplit, aligned_append]
      refine ⟨h, Feed.ready_eq_nil ?_, trivial⟩
      rw [(q.feed_spec hsize hlive₁ hrest).1, ← hc, hbody]

/-- **A connection whose heads all end where a read ends is delivered as it was sent.**  Where all but
the last of them do, and so on every connection with one request, it is delivered only then. -/
theorem requests_delivered (c : Connection) (r : HttpHeadReader) (hsize : 1 ≤ r.size) :
    (Aligned r.size c.requests c.segs → c.DeliveredBy r) ∧
      (Aligned r.size c.requests.dropLast c.segs →
        (c.DeliveredBy r ↔ Aligned r.size c.requests c.segs)) := by
  refine ⟨c.delivered_of_aligned hsize, fun h => ⟨c.aligned_of_delivered hsize h, ?_⟩⟩
  exact c.delivered_of_aligned hsize

/-- `POST /form` with a body of four bytes. -/
def formRequest : Request where
  method := .POST
  method_ne := by decide
  path := Word.ofText (ascii "/form") (by decide)
  version := ascii " HTTP/1.1"
  version_printable := forall_of_all (by decide)
  version_apart := by
    intro b hb
    cases hb
    rfl
  fields := [(Digits.ofText (ascii "4") (by decide)).field]
  body := ascii "data"
  length := some (Digits.ofText (ascii "4") (by decide))
  lookup_length := by decide
  body_length := by decide

/-- The head in one segment, the body in another, twice. -/
def formTwice : Connection where
  requests := [formRequest, formRequest]
  segs := [formRequest.headText.render, ascii "data", formRequest.headText.render, ascii "data"]
  live := by
    unfold Segments.Live
    decide
  arrives := by decide

/-- Head and body in one segment. -/
def formJoined : Connection where
  requests := [formRequest]
  segs := [formRequest.headText.render ++ ascii "data"]
  live := by
    unfold Segments.Live
    decide
  arrives := by decide

/-- The reader of a worker, with 16 pages. -/
def workerReader : HttpHeadReader := ⟨[], fun _ => 0, 65536, 0, 0, 0⟩

theorem requests_delivered_form : 1 ≤ workerReader.size ∧ formTwice.DeliveredBy workerReader := by
  refine ⟨by decide, (requests_delivered formTwice workerReader (by decide)).1 ?_⟩
  refine ⟨by decide, by decide, trivial⟩

/-- A small `POST` that arrives in one segment loses its body. -/
theorem formJoined_not_delivered :
    ¬ ∀ (c : Connection) (r : HttpHeadReader), 1 ≤ r.size → c.DeliveredBy r := by
  intro h
  have hal := formJoined.aligned_of_delivered (r := workerReader) (by decide) trivial
    (h formJoined workerReader (by decide))
  exact absurd hal.1 (by decide)

/-- A request without header lines, whose words repeat. -/
def echoRequest : Request where
  method := .HEAD
  method_ne := by decide
  path := Word.ofText (ascii "HEAD") (by decide)
  version := ascii " HEAD"
  version_printable := forall_of_all (by decide)
  version_apart := by
    intro b hb
    cases hb
    rfl
  fields := []
  body := []
  length := none
  lookup_length := by decide
  body_length := by decide

/-- The second request loses its first word with the end of the first read. -/
def echoTwice : Connection where
  requests := [echoRequest, echoRequest]
  segs := [echoRequest.headText.render ++ ascii "HEAD ", ascii "HEAD HEAD\r\n\r\n"]
  live := by
    unfold Segments.Live
    decide
  arrives := by decide

/-- With more requests behind it, a head that ends elsewhere can go unnoticed. -/
theorem echoTwice_delivered :
    ¬ Aligned workerReader.size echoTwice.requests echoTwice.segs ∧
      echoTwice.DeliveredBy workerReader := by
  refine ⟨fun h => absurd h.1 (by decide), ?_⟩
  refine ⟨_, rfl, ?_⟩
  decide

end LinuxUtil.Httpd
