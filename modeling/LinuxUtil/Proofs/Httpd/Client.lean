/-
The client hands its consumer the body that was sent.

The body comes in two parts: what the head reader has in its buffer already, and what
the loop reads into the same buffer afterwards.  `receive_views` puts the two together:
the pieces are the start of the stream behind the head.  A request that ends well and
keeps the connection leaves the socket empty, which is all the next one needs.
-/
import LinuxUtil.Httpd.Client
import LinuxUtil.Proofs.Httpd.Head

namespace LinuxUtil.Httpd

open ByteMem

/-- The consumer that takes everything. -/
def accept : Consumer := fun _ => true

/-! ### The body -/

theorem bodyLoop_segs {size : Nat} (contentLength : Nat) (hsize : 1 ≤ size) :
    ∀ (n : Nat) (segs : List (List UInt8)) (b : Body), Segments.Live segs →
      b.socket = segs.map .bytes → segs.flatten.length < n →
      (bodyLoop accept size contentLength n b).consumed.flatten =
          b.consumed.flatten ++ segs.flatten.take (contentLength - b.nr) ∧
        (bodyLoop accept size contentLength n b).nr =
          b.nr + min (contentLength - b.nr) segs.flatten.length ∧
        (bodyLoop accept size contentLength n b).socket =
          (Segments.drop (contentLength - b.nr) segs).map .bytes := by
  intro n
  induction n with
  | zero => intro segs b _ _ hn; omega
  | succ n ih =>
      intro segs b hlive hb hn
      unfold bodyLoop
      by_cases hlt : b.nr < contentLength
      · rw [if_pos hlt, hb, Socket.read_segs]
        rcases Segments.pull_cases (show 1 ≤ min size (contentLength - b.nr) by omega) hlive with
          ⟨rfl, hp⟩ | ⟨c, cs, segs', hp, hflat, hlen, hlive', hdrop⟩
        · rw [hp]
          simp [Segments.drop]
        · have hpart : (c :: cs).length ≤ contentLength - b.nr :=
            Nat.le_trans hlen (Nat.min_le_right _ _)
          have hfuel : segs'.flatten.length < n := by
            rw [hflat, List.length_append, List.length_cons] at hn
            omega
          rw [hp]
          simp only [read_write_self, accept, if_true]
          obtain ⟨hc, hnr, hs⟩ := ih segs'
            { nr := b.nr + (c :: cs).length, buffer := write b.buffer 0 (c :: cs),
              socket := segs'.map .bytes, consumed := b.consumed ++ [c :: cs] }
            hlive' rfl hfuel
          have hrest : contentLength - (b.nr + (c :: cs).length) =
              contentLength - b.nr - (c :: cs).length := by omega
          simp only [hrest] at hc hnr hs
          refine ⟨hc.trans ?_, hnr.trans ?_, hs.trans ?_⟩
          · rw [hflat, List.take_append, List.take_of_length_le hpart]
            simp
          · rw [hflat, List.length_append]
            omega
          · rw [hdrop _ (Nat.min_le_right _ _)]
      · have hzero : contentLength - b.nr = 0 := by omega
        rw [if_neg hlt, hzero, List.take_zero, List.append_nil, Nat.zero_min, Nat.add_zero,
          Segments.drop_zero hlive]
        exact ⟨rfl, rfl, hb⟩

/-- The pieces are the start of what is behind the head. -/
theorem receive_views {r : HttpHeadReader} {f : Feed UInt8} (h : Views r f) (contentLength : Nat) :
    (receive accept r contentLength).consumed.flatten = f.stream.take contentLength ∧
      (receive accept r contentLength).nr = min contentLength f.stream.length ∧
      (receive accept r contentLength).socket =
        (Segments.drop (contentLength - f.ready.length) f.segs).map .bytes := by
  have hready : r.end_ - r.offset = f.ready.length := by
    rw [← h.pending, HttpHeadReader.pending, length_read]
  have hfirst : read r.buffer r.offset (min f.ready.length contentLength) =
      f.ready.take contentLength := by
    rw [← take_read _ _ _ _ (Nat.min_le_left f.ready.length contentLength), ← hready,
      ← HttpHeadReader.pending, h.pending, hready, Nat.min_comm, ← List.take_eq_take_min]
  unfold receive
  simp only [hready, hfirst, accept, if_true]
  obtain ⟨hc, hnr, hs⟩ := bodyLoop_segs contentLength h.size
    (r.socket.bytes.length + 1) f.segs
    ⟨min f.ready.length contentLength, r.buffer, r.socket, [f.ready.take contentLength]⟩
    h.live h.socket (by rw [h.socket, Socket.bytes_segs]; omega)
  have hrest : contentLength - min f.ready.length contentLength =
      contentLength - f.ready.length := by omega
  simp only [hrest] at hc hnr hs
  refine ⟨?_, ?_, hs⟩
  · rw [hc, Feed.stream, List.take_append]
    simp
  · rw [hnr, Feed.stream, List.length_append]
    omega

/-! ### Responses -/

/-- A response with status 200: `version 200 reason`, header lines of which the last
`Content-Length` line is given, and as much of the body as the peer sends. -/
structure Response where
  version : Word
  reason : List UInt8
  reason_printable : ∀ b ∈ reason, Printable b
  reason_apart : ∀ b ∈ reason.head?, isspace b
  before : List Field
  length : Digits
  after : List Field
  after_ne : ∀ h ∈ after, h.key ≠ ascii "Content-Length"
  body : List UInt8
  body_le : body.length ≤ length.val

/-- The header line `Content-Length: n`. -/
def Digits.field (d : Digits) : Field where
  key := ascii "Content-Length"
  value := d.text
  key_printable := forall_of_all (by decide)
  key_ne_colon := forall_of_all (by decide)
  value_printable := d.printable

theorem dropWhile_digits {text : List UInt8} (h : ∀ b ∈ text, isdigit b) :
    text.dropWhile (· = 32) = text := by
  cases text with
  | nil => rfl
  | cons b text =>
      have hb := Digits.printable_of_digit (h b List.mem_cons_self)
      exact List.dropWhile_cons_of_neg (by simpa using hb.2.2.2.2)

theorem Digits.field_content (d : Digits) : d.field.content = d.text := dropWhile_digits d.digit

namespace Response

def headText (p : Response) : HeadText where
  start := p.version.text ++ ascii " 200" ++ p.reason
  fields := p.before ++ [p.length.field] ++ p.after
  start_printable := by
    intro b hb
    rcases List.mem_append.mp hb with hb | hb
    · rcases List.mem_append.mp hb with hb | hb
      · exact p.version.printable b hb
      · exact forall_of_all (show (ascii " 200").all (fun b => Printable b) = true by decide) b hb
    · exact p.reason_printable b hb

def render (p : Response) : List UInt8 := p.headText.render ++ p.body

theorem lookup_length (p : Response) :
    p.headText.lookup (ascii "Content-Length") = some p.length.text := by
  unfold HeadText.lookup headText
  rw [List.reverse_append, List.find?_append, List.find?_eq_none.mpr, Option.none_or,
    List.reverse_append, List.reverse_singleton, List.singleton_append,
    List.find?_cons_of_pos (by simp [Digits.field]), Option.map_some, Digits.field_content]
  intro h hh
  simpa using p.after_ne h (List.mem_reverse.mp hh)

theorem contentLength (p : Response) : p.headText.head.contentLength = p.length.val := by
  unfold Head.contentLength
  rw [HeadText.head_get _ rfl, p.lookup_length]
  simp only [Option.getD_some, p.length.ne_nil, if_false]
  exact p.length.atol_text

def code200 : Word := Word.ofText (ascii "200") (by decide)

theorem tokens (p : Response) :
    p.headText.head.method = p.version.text ∧ p.headText.head.path = ascii "200" := by
  have hstart : p.headText.start = p.version.text ++ (32 :: (code200.text ++ p.reason)) := by
    unfold headText
    simp [show ascii " 200" = 32 :: code200.text from rfl]
  have hfirst : nextToken p.headText.start = (p.version.text, 32 :: (code200.text ++ p.reason)) := by
    rw [hstart]
    exact nextToken_word p.version (by simp [isspace])
  unfold HeadText.head
  simp only [hfirst, true_and]
  rw [nextToken_space, nextToken_word code200 p.reason_apart]
  rfl

theorem isValid (p : Response) : p.headText.head.isValid = true := by
  unfold Head.isValid
  rw [p.tokens.1, p.tokens.2]
  cases hv : p.version.text with
  | nil => exact absurd hv p.version.ne_nil
  | cons b text => rfl

theorem status (p : Response) : atoi (cstring p.headText.head.path) = 200 := by
  rw [p.tokens.2]
  decide

/-- The connection ends with this response: its `Connection` says so, or it has none and the request
said so. -/
def Closes (p : Response) (isLast : Bool) : Prop :=
  match p.headText.lookup (ascii "Connection") with
  | some (b :: value) => strcaseeq (b :: value) (ascii "close")
  | _ => isLast

end Response

theorem HeadText.lookup_printable (t : HeadText) {key value : List UInt8}
    (h : t.lookup key = some value) : ∀ b ∈ value, Printable b := by
  obtain ⟨field, -, rfl⟩ := Option.map_eq_some_iff.mp h
  intro b hb
  exact field.value_printable b ((List.dropWhile_sublist _).subset hb)

theorem effective_close (p : Response) (isLast : Bool) :
    p.headText.head.effective (if isLast then .CLOSE else .KEEP_ALIVE) = .CLOSE ↔
      p.Closes isLast := by
  unfold Head.effective Response.Closes
  rw [HeadText.head_get _ rfl]
  cases hl : p.headText.lookup (ascii "Connection") with
  | none => cases isLast <;> simp
  | some value =>
      cases value with
      | nil => cases isLast <;> simp
      | cons b value =>
          simp only [Option.getD_some, cstring_eq (HeadText.lookup_printable _ hl)]
          simp [connFromString]

/-! ### One request -/

theorem HttpClient.finish_spec (c : HttpClient) (p : Response) (isLast success : Bool)
    (r : HttpHeadReader) (b : Body) (sent : List UInt8) {res : Result}
    (h : res = c.finish p.headText.head (if isLast then .CLOSE else .KEEP_ALIVE) success r b sent) :
    res.consumed = b.consumed ∧ (res.ret = 0 ↔ success = true) ∧
      (res.client.connected = false ↔ success = false ∨ p.Closes isLast) ∧
      (res.client.connected = true → res.client.socket = b.socket) ∧
      res.client.reader.size = r.size := by
  have hcon := effective_close p isLast
  unfold HttpClient.finish at h
  by_cases hclose : p.Closes isLast
  · simp only [hcon.mpr hclose, decide_true, Bool.true_or, if_true] at h
    subst h
    cases success <;> simp [hclose]
  · have hkeep := mt hcon.mp hclose
    simp only [hkeep, decide_false, Bool.false_or] at h
    subst h
    cases success <;> simp [hclose]

theorem produce_ok (host path : List UInt8) {method : HttpMethodType} (hm : method ≠ .INVALID)
    (con : HttpConnectionType) (stream : SocketStream) :
    ∃ stream', produce host method (path ++ [0]) con stream = .ok stream' := by
  have hpath : (path ++ [0]).getLast? = some (0 : UInt8) := by simp
  unfold produce
  cases method with
  | INVALID => exact absurd rfl hm
  | _ =>
      simp only [HttpMethodType.name, assert, hpath, decide_true, if_true]
      exact ⟨_, rfl⟩

/-- A request and what the peer sends for it, in the segments it arrives in. -/
structure Exchange where
  method : HttpMethodType
  method_ne : method ≠ .INVALID
  path : List UInt8
  isLast : Bool
  response : Response
  segs : List (List UInt8)
  live : Segments.Live segs
  arrives : segs.flatten = response.render

/-- What the exchange has to come to. -/
structure Exchange.Delivers (e : Exchange) (res : Result) : Prop where
  consumed : res.consumed.flatten =
    e.response.body.take (min e.response.length.val e.response.body.length)
  ret : res.ret = 0 ↔ e.response.body.length = e.response.length.val
  closed : res.client.connected = false ↔ res.ret ≠ 0 ∨ e.response.Closes e.isLast

/-- A client between two requests: there is nothing on its socket. -/
structure HttpClient.Ready (c : HttpClient) : Prop where
  size : 1 ≤ c.reader.size
  socket : c.connected = true → c.socket = []

theorem views_reset {r : HttpHeadReader} {segs : List (List UInt8)} (hsize : 1 ≤ r.size)
    (hlive : Segments.Live segs) : Views (r.reset (segs.map .bytes)) ⟨[], segs⟩ :=
  ⟨rfl, rfl, Nat.le_refl 0, rfl, hsize, hlive⟩

/-- What is left to show once the body is in. -/
theorem Exchange.delivers_finish {c : HttpClient} (e : Exchange) {r : HttpHeadReader} {b : Body}
    {success : Bool} {sent : List UInt8} {res : Result} (hsize : 1 ≤ r.size)
    (hres : res = c.finish e.response.headText.head (if e.isLast then .CLOSE else .KEEP_ALIVE)
      success r b sent)
    (hb : b.consumed.flatten = e.response.body)
    (hs : success = true ↔ e.response.body.length = e.response.length.val)
    (hsock : success = true → b.socket = []) : e.Delivers res ∧ res.client.Ready := by
  obtain ⟨hcons, hret, hclosed, hsocket, hrsize⟩ :=
    c.finish_spec e.response e.isLast success r b sent hres
  refine ⟨⟨?_, hret.trans hs, ?_⟩, ⟨?_, ?_⟩⟩
  · rw [hcons, hb, Nat.min_eq_right e.response.body_le, List.take_length]
  · rw [hclosed, Ne, hret, Bool.not_eq_true]
  · rw [hrsize]
    exact hsize
  · intro hconn
    rw [hsocket hconn]
    cases success with
    | true => exact hsock rfl
    | false =>
        rw [hclosed.mpr (.inl rfl)] at hconn
        cases hconn

theorem HttpClient.Ready.request {c : HttpClient} (h : c.Ready) (e : Exchange) :
    ∃ res, c.request accept e.method (e.path ++ [0]) e.isLast true (e.segs.map .bytes) = .ok res ∧
      e.Delivers res ∧ res.client.Ready := by
  obtain ⟨stream, hstream⟩ := produce_ok c.host e.path e.method_ne
    (if e.isLast then .CLOSE else .KEEP_ALIVE) ⟨c.reader.buffer, 0, c.reader.size, []⟩
  have hview := views_reset (r := { c.reader with buffer := stream.buffer }) h.size e.live
  obtain ⟨r, hparse, hv, hsize⟩ := hview.parse e.response.headText e.arrives
  have hbehind := Feed.skip_append (l := e.response.headText.render) hview.size hview.live e.arrives
  have hsocket : (if c.connected then c.socket else []) = [] := by
    cases hc : c.connected with
    | false => rfl
    | true => exact h.socket hc
  unfold HttpClient.request
  simp only [Bool.not_true, Bool.and_false, Bool.false_eq_true, if_false, hsocket, hstream,
    List.nil_append, bind, Except.bind, hparse, e.response.isValid, e.response.status,
    e.response.contentLength]
  by_cases hzero : e.response.length.val = 0
  · have hbody : e.response.body = [] := by
      have := e.response.body_le
      exact List.length_eq_zero_iff.mp (by omega)
    rw [hbody] at hbehind
    rw [if_neg (by simp [hzero])]
    refine ⟨_, rfl, e.delivers_finish hv.size rfl (by simp [hbody]) (by simp [hbody, hzero]) fun _ => ?_⟩
    rw [hv.socket, (Feed.stream_eq_nil hv.live hbehind).2]
    rfl
  · rw [if_pos ⟨trivial, hzero⟩, assert, if_pos (decide_eq_true hv.offset_le)]
    obtain ⟨hcons, hnr, hsock⟩ := receive_views hv e.response.length.val
    have hle := e.response.body_le
    rw [hbehind] at hcons hnr
    refine ⟨_, rfl, e.delivers_finish hv.size rfl ?_ ?_ fun hsucc => ?_⟩
    · rw [hcons, List.take_of_length_le hle]
    · rw [beq_iff_eq, hnr]
      omega
    · rw [beq_iff_eq, hnr] at hsucc
      rw [hsock, Feed.drop_eq_nil hv.live (by rw [hbehind]; exact hle)]
      rfl

/-! ### Runs -/

/-- The results of a sequence of requests. -/
def HttpClient.run (c : HttpClient) : List Exchange → Except Fault (List Result)
  | [] => .ok []
  | e :: es => do
      let res ← c.request accept e.method (e.path ++ [0]) e.isLast true (e.segs.map .bytes)
      let rest ← res.client.run es
      return res :: rest

theorem HttpClient.Ready.run :
    ∀ (es : List Exchange) {c : HttpClient}, c.Ready →
      ∃ results, c.run es = .ok results ∧ List.Forall₂ Exchange.Delivers es results := by
  intro es
  induction es with
  | nil => intro c _; exact ⟨[], rfl, .nil⟩
  | cons e es ih =>
      intro c h
      obtain ⟨res, hreq, hdel, hready⟩ := h.request e
      obtain ⟨results, hrun, hall⟩ := ih hready
      refine ⟨res :: results, ?_, .cons hdel hall⟩
      unfold HttpClient.run
      rw [hreq]
      simp only [bind, Except.bind, hrun]
      rfl

/-- **Every response's body is delivered exactly**, over any sequence of requests of a new client and
whatever the segments in which the responses arrive. -/
theorem bodies_delivered (pageSize : Nat) (buffer : Mem) (host : List UInt8) (es : List Exchange)
    (hpage : 0 < pageSize) :
    ∃ results, (HttpClient.create pageSize buffer host).run es = .ok results ∧
      List.Forall₂ Exchange.Delivers es results := by
  refine HttpClient.Ready.run es ⟨?_, ?_⟩
  · change 1 ≤ 16 * pageSize
    omega
  · intro h
    cases h

/-- A response of five bytes. -/
def helloResponse : Response where
  version := Word.ofText (ascii "HTTP/1.1") (by decide)
  reason := ascii " OK"
  reason_printable := forall_of_all (by decide)
  reason_apart := by
    intro b hb
    cases hb
    rfl
  before := []
  length := Digits.ofText (ascii "5") (by decide)
  after := []
  after_ne := by decide
  body := ascii "hello"
  body_le := by decide

/-- The head arrives with the first two bytes of the body. -/
def helloExchange : Exchange where
  method := .GET
  method_ne := by decide
  path := ascii "/hello"
  isLast := false
  response := helloResponse
  segs := [helloResponse.headText.render ++ ascii "he", ascii "llo"]
  live := by
    unfold Segments.Live
    decide
  arrives := by decide

theorem bodies_delivered_hello :
    0 < 4096 ∧ ∃ res, (HttpClient.create 4096 (fun _ => 0) (ascii "localhost")).run [helloExchange] =
      .ok [res] ∧ res.consumed.flatten = ascii "hello" ∧ res.ret = 0 ∧
        res.client.connected = true := by
  refine ⟨by decide, ?_⟩
  obtain ⟨results, hrun, hall⟩ :=
    bodies_delivered 4096 (fun _ => 0) (ascii "localhost") [helloExchange] (by decide)
  obtain _ | @⟨_, res, _, _, hdel, _ | _⟩ := hall
  have hret : res.ret = 0 := hdel.ret.mpr (by decide)
  refine ⟨res, hrun, hdel.consumed.trans (by decide), hret, ?_⟩
  have hopen : ¬ helloResponse.Closes false := by
    have hlookup : helloResponse.headText.lookup (ascii "Connection") = none := by decide
    rw [Response.Closes, hlookup]
    decide
  refine (Bool.not_eq_false _).mp fun h => ?_
  rcases hdel.closed.mp h with hne | hclose
  · exact hne hret
  · exact hopen hclose

end LinuxUtil.Httpd
