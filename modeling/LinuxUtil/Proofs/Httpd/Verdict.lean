/-
What it means that a request has succeeded.

A request counts the bytes of the body and asks the consumer about every piece.  In the
loop a piece that is refused is not counted.  The piece that was in the reader's buffer
with the head is counted before the consumer is asked, so a body that is all there is a
success whatever the consumer says of it.
-/
import LinuxUtil.Proofs.Httpd.Stream
import LinuxUtil.Proofs.Httpd.Client

namespace LinuxUtil.Httpd

open ByteMem

/-! ### Verdicts -/

/-- Every call of `consume` has been answered with true. -/
def Accepted (consume : Consumer) (consumed : List (List UInt8)) : Prop :=
  ∀ pieces, pieces <+: consumed → pieces ≠ [] → consume pieces = true

theorem Accepted.nil (consume : Consumer) : Accepted consume [] := fun _ hp hne =>
  absurd (List.prefix_nil.mp hp) hne

theorem accepted_snoc {consume : Consumer} {consumed : List (List UInt8)} {piece : List UInt8} :
    Accepted consume (consumed ++ [piece]) ↔
      Accepted consume consumed ∧ consume (consumed ++ [piece]) = true := by
  constructor
  · intro h
    exact ⟨fun pieces hp => h pieces (hp.trans (List.prefix_append _ _)),
      h _ (List.prefix_refl _) (by simp)⟩
  · rintro ⟨h, hlast⟩ pieces hp hne
    rcases List.prefix_concat_iff.mp hp with rfl | hp
    · exact hlast
    · exact h pieces hp hne

/-- How many bytes the consumer was given. -/
def given (consumed : List (List UInt8)) : Nat := (consumed.map List.length).sum

@[simp] theorem given_snoc (consumed : List (List UInt8)) (piece : List UInt8) :
    given (consumed ++ [piece]) = given consumed + piece.length := by
  simp [given]

/-! ### The body -/

/-- Everything was accepted, and all of it counted. -/
def Body.Sound (b : Body) (consume : Consumer) : Prop :=
  Accepted consume b.consumed ∧ given b.consumed = b.nr

/-- A loop that counts to the end has asked about every byte. -/
theorem bodyLoop_sound (consume : Consumer) (size contentLength : Nat) :
    ∀ (n : Nat) {b : Body}, b.Sound consume →
      (bodyLoop consume size contentLength n b).Sound consume ∨
        (bodyLoop consume size contentLength n b).nr < contentLength := by
  intro n
  induction n with
  | zero =>
      intro b h
      exact .inl h
  | succ n ih =>
      intro b h
      unfold bodyLoop
      by_cases hlt : b.nr < contentLength
      · rw [if_pos hlt]
        cases hr : b.socket.read (min size (contentLength - b.nr)) with
        | mk res socket =>
            cases res with
            | error e => exact .inl h
            | ok bs =>
                cases bs with
                | nil => exact .inl h
                | cons c cs =>
                    simp only [read_write_self]
                    by_cases hc : consume (b.consumed ++ [c :: cs])
                    · rw [if_pos hc]
                      refine ih ⟨accepted_snoc.mpr ⟨h.1, hc⟩, ?_⟩
                      rw [given_snoc, h.2]
                    · -- A piece that is refused is not counted.
                      rw [if_neg hc]
                      exact .inr hlt
      · rw [if_neg hlt]
        exact .inl h

theorem length_pending (r : HttpHeadReader) : r.pending.length = r.end_ - r.offset :=
  length_read _ _ _

/-- The piece that came with the head. -/
theorem receive_first (r : HttpHeadReader) (contentLength : Nat) :
    read r.buffer r.offset (min (r.end_ - r.offset) contentLength) = r.pending.take contentLength := by
  unfold HttpHeadReader.pending
  rw [← take_read _ _ _ _ (Nat.min_le_left _ contentLength)]
  rcases Nat.le_total (r.end_ - r.offset) contentLength with h | h
  · rw [Nat.min_eq_left h, List.take_of_length_le (by simp), List.take_of_length_le (by simpa using h)]
  · rw [Nat.min_eq_right h]

/-- A body whose first piece is accepted. -/
theorem receive_accepted {consume : Consumer} (r : HttpHeadReader) {contentLength : Nat}
    (h : consume [r.pending.take contentLength] = true) :
    (receive consume r contentLength).Sound consume ∨
      (receive consume r contentLength).nr < contentLength := by
  unfold receive
  simp only [receive_first]
  rw [if_pos h]
  refine bodyLoop_sound consume r.size contentLength _ ⟨?_, ?_⟩
  · exact accepted_snoc.mpr ⟨Accepted.nil consume, h⟩
  · simp only [given, List.map_cons, List.map_nil, List.sum_cons, List.sum_nil, List.length_take,
      length_pending, Nat.add_zero, Nat.min_comm]

/-- A body whose first piece is refused: the piece is counted all the same. -/
theorem receive_refused {consume : Consumer} (r : HttpHeadReader) {contentLength : Nat}
    (h : consume [r.pending.take contentLength] = false) :
    (receive consume r contentLength).nr = min r.pending.length contentLength ∧
      (receive consume r contentLength).consumed = [r.pending.take contentLength] := by
  unfold receive
  simp only [receive_first]
  rw [if_neg (by rw [h]; exact Bool.false_ne_true)]
  exact ⟨by rw [length_pending], rfl⟩

/-! ### Requests -/

/-- The consumer was given as many bytes as were announced, and accepted all of them. -/
structure Result.Taken (res : Result) (consume : Consumer) (contentLength : Nat) : Prop where
  accepted : Accepted consume res.consumed
  given_eq : given res.consumed = contentLength

/-- The head of the response to a request, and the reader behind it. -/
def HttpClient.answer (c : HttpClient) (method : HttpMethodType) (path : List UInt8) (isLast : Bool)
    (reply : Socket) : Except Fault (Head × HttpHeadReader) := do
  let con : HttpConnectionType := if isLast then .CLOSE else .KEEP_ALIVE
  let socket := if c.connected then c.socket else []
  let stream ← produce c.host method path con ⟨c.reader.buffer, 0, c.reader.size, []⟩
  parse ({ c.reader with buffer := stream.buffer }.reset (socket ++ reply)) headTable

/-- The response is one that the client takes a body from. -/
def Head.Carries (head : Head) : Prop :=
  head.isValid = true ∧ atoi (cstring head.path) = 200 ∧ head.contentLength ≠ 0

instance (head : Head) : Decidable head.Carries := by
  unfold Head.Carries
  infer_instance

theorem HttpClient.finish_ret (c : HttpClient) (head : Head) (con : HttpConnectionType)
    (success : Bool) (r : HttpHeadReader) (b : Body) (sent : List UInt8) :
    ((c.finish head con success r b sent).ret = 0 ↔ success = true) ∧
      (c.finish head con success r b sent).consumed = b.consumed := by
  unfold finish
  by_cases h : head.effective con = .CLOSE ∨ success = false
  · rw [if_pos (by simpa using h)]
    cases success with
    | true => exact ⟨⟨fun _ => rfl, fun _ => rfl⟩, rfl⟩
    | false => exact ⟨by simp, rfl⟩
  · rw [not_or, Bool.not_eq_false] at h
    rw [if_neg (by simp [h.1, h.2])]
    exact ⟨⟨fun _ => h.2, fun _ => rfl⟩, rfl⟩

section Requests

variable {c : HttpClient} {consume : Consumer} {method : HttpMethodType} {path : List UInt8}
  {isLast connect : Bool} {reply : Socket} {res : Result} {head : Head} {r : HttpHeadReader}

/-- A request without a connection. -/
theorem HttpClient.request_alone (hcon : (c.connected || connect) = false)
    (hreq : c.request consume method path isLast connect reply = .ok res) : res.ret = 1 := by
  rw [Bool.or_eq_false_iff] at hcon
  unfold request at hreq
  rw [if_pos (by simp [hcon.1, hcon.2])] at hreq
  cases hreq
  rfl

/-- A request with a connection, from its response on. -/
theorem HttpClient.request_answered (hcon : (c.connected || connect) = true)
    (hans : c.answer method path isLast reply = .ok (head, r))
    (hreq : c.request consume method path isLast connect reply = .ok res) :
    ∃ con sent,
      if head.Carries then
        res = c.finish head con ((receive consume r head.contentLength).nr == head.contentLength) r
          (receive consume r head.contentLength) sent
      else if head.isValid then
        res = c.finish head con (atoi (cstring head.path) == 200) r ⟨0, r.buffer, r.socket, []⟩ sent
      else res.ret = 1 := by
  have hgo : ¬ (!c.connected && !connect) = true := by
    rw [Bool.or_eq_true] at hcon
    rcases hcon with h | h
    · simp [h]
    · simp [h]
  unfold request at hreq
  unfold answer at hans
  rw [if_neg hgo] at hreq
  dsimp only at hans hreq
  refine ⟨if isLast then .CLOSE else .KEEP_ALIVE, ?_⟩
  cases hp : produce c.host method path (if isLast then .CLOSE else .KEEP_ALIVE)
      ⟨c.reader.buffer, 0, c.reader.size, []⟩ with
  | error e =>
      rw [hp] at hans
      cases hans
  | ok stream =>
      rw [hp] at hans hreq
      simp only [bind, Except.bind] at hans hreq
      rw [hans] at hreq
      simp only at hreq
      refine ⟨stream.sent, ?_⟩
      by_cases hvalid : head.isValid = true
      · rw [if_neg (by simp [hvalid])] at hreq
        by_cases hbody : atoi (cstring head.path) = 200 ∧ head.contentLength ≠ 0
        · rw [if_pos hbody] at hreq
          rw [if_pos ⟨hvalid, hbody⟩]
          by_cases hle : r.offset ≤ r.end_
          · simp only [assert, ge_iff_le, hle, decide_true, if_true] at hreq
            exact (Except.ok.inj hreq).symm
          · simp only [assert, ge_iff_le, hle, decide_false] at hreq
            cases hreq
        · rw [if_neg hbody] at hreq
          rw [if_neg fun h => hbody h.2, if_pos hvalid]
          exact (Except.ok.inj hreq).symm
      · rw [if_pos (by simpa using hvalid)] at hreq
        rw [if_neg fun h => hvalid h.1, if_neg hvalid]
        cases hreq
        rfl

/-- All of the body is in the reader's buffer, and the consumer refuses it. -/
def Head.HeldRefused (head : Head) (r : HttpHeadReader) (consume : Consumer) : Prop :=
  head.Carries ∧ head.contentLength ≤ r.pending.length ∧
    consume [r.pending.take head.contentLength] = false

instance (head : Head) (r : HttpHeadReader) (consume : Consumer) :
    Decidable (head.HeldRefused r consume) := by
  unfold Head.HeldRefused
  infer_instance

/-- A body that the consumer refuses while all of it is there is a success. -/
theorem HttpClient.request_heldRefused (hcon : (c.connected || connect) = true)
    (hans : c.answer method path isLast reply = .ok (head, r))
    (hreq : c.request consume method path isLast connect reply = .ok res)
    (h : head.HeldRefused r consume) : res.ret = 0 ∧ ¬ Accepted consume res.consumed := by
  obtain ⟨hcarries, hheld, hrefused⟩ := h
  obtain ⟨con, sent, hres⟩ := request_answered hcon hans hreq
  rw [if_pos hcarries] at hres
  obtain ⟨hret, hconsumed⟩ := c.finish_ret head con
    ((receive consume r head.contentLength).nr == head.contentLength) r
    (receive consume r head.contentLength) sent
  obtain ⟨hnr, hpieces⟩ := receive_refused r hrefused
  rw [hres]
  refine ⟨hret.mpr ?_, fun hall => ?_⟩
  · rw [hnr, Nat.min_eq_right hheld]
    exact beq_self_eq_true _
  · have hconsume := hall [r.pending.take head.contentLength]
      ⟨[], by rw [List.append_nil, hconsumed, hpieces]⟩ (List.cons_ne_nil _ _)
    rw [hrefused] at hconsume
    cases hconsume

/-- **A request that succeeds has had its body accepted**, unless all of the body came with the head
and was refused. -/
theorem HttpClient.request_taken_iff (hans : c.answer method path isLast reply = .ok (head, r))
    (hreq : c.request consume method path isLast connect reply = .ok res) :
    (res.ret = 0 → res.Taken consume head.contentLength) ↔
      ¬ ((c.connected || connect) = true ∧ head.HeldRefused r consume) := by
  constructor
  · rintro htaken ⟨hcon, hheld⟩
    obtain ⟨hret, hnot⟩ := request_heldRefused hcon hans hreq hheld
    exact hnot (htaken hret).accepted
  · intro hnot hret
    have hcon : (c.connected || connect) = true := by
      by_contra hcon
      rw [request_alone (Bool.eq_false_iff.mpr hcon) hreq] at hret
      cases hret
    obtain ⟨con, sent, hres⟩ := request_answered hcon hans hreq
    by_cases hcarries : head.Carries
    · rw [if_pos hcarries] at hres
      obtain ⟨hsuccess, hconsumed⟩ := c.finish_ret head con
        ((receive consume r head.contentLength).nr == head.contentLength) r
        (receive consume r head.contentLength) sent
      rw [← hres] at hsuccess hconsumed
      have hnr := eq_of_beq (hsuccess.mp hret)
      cases hfirst : consume [r.pending.take head.contentLength] with
      | true =>
          rcases receive_accepted r hfirst with ⟨hall, hsum⟩ | hlt
          · exact ⟨by rw [hconsumed]; exact hall, by rw [hconsumed, hsum, hnr]⟩
          · omega
      | false =>
          -- The refused piece was counted, so it is the whole body.
          obtain ⟨hmin, -⟩ := receive_refused r hfirst
          exact absurd ⟨hcon, hcarries, by omega, hfirst⟩ hnot
    · rw [if_neg hcarries] at hres
      by_cases hvalid : head.isValid = true
      · rw [if_pos hvalid] at hres
        obtain ⟨hsuccess, hconsumed⟩ := c.finish_ret head con (atoi (cstring head.path) == 200) r
          ⟨0, r.buffer, r.socket, []⟩ sent
        rw [← hres] at hsuccess hconsumed
        have hstatus := eq_of_beq (hsuccess.mp hret)
        have hzero : head.contentLength = 0 := by
          by_contra hne
          exact hcarries ⟨hvalid, hstatus, hne⟩
        exact ⟨by rw [hconsumed]; exact Accepted.nil consume, by rw [hconsumed, hzero]; rfl⟩
      · rw [if_neg hvalid] at hres
        rw [hres] at hret
        cases hret

end Requests

/-! ### Downloads -/

namespace AptClientHandler

/-- A piece that is accepted is in the file. -/
theorem consume_got {ofd : Sink} {b : List UInt8} (h : (consume ofd b).1 = true) :
    (consume ofd b).2.got = ofd.got ++ b := by
  obtain ⟨k, hk, hgot, hret⟩ := ofd.xwrite_spec b
  have hlen : (ofd.xwrite b).1 = (b.length : Nat) := eq_of_beq h
  have hall : b.length ≤ k := by
    rcases hret with hret | ⟨rfl, hret⟩
    · omega
    · omega
  rw [consume, hgot, List.take_of_length_le hall]

/-- The file after the pieces have been written to it. -/
def file (ofd : Sink) (pieces : List (List UInt8)) : Sink :=
  (pieces.foldl (fun s b => consume s.2 b) (true, ofd)).2

/-- **What `AptClientHandler` has accepted is in the file**, in its order. -/
theorem accepted_got {ofd : Sink} {pieces : List (List UInt8)}
    (h : Accepted (consumer ofd) pieces) : (file ofd pieces).got = ofd.got ++ pieces.flatten := by
  induction pieces using List.reverseRecOn with
  | nil => exact (List.append_nil _).symm
  | append_singleton pieces b ih =>
      obtain ⟨hpieces, hb⟩ := accepted_snoc.mp h
      have hlast : (consume (file ofd pieces) b).1 = true := by
        unfold consumer at hb
        rw [List.foldl_append] at hb
        exact hb
      have hfile : file ofd (pieces ++ [b]) = (consume (file ofd pieces) b).2 := by
        unfold file
        rw [List.foldl_append]
        rfl
      rw [hfile, consume_got hlast, ih hpieces, List.flatten_append, List.flatten_cons,
        List.flatten_nil, List.append_nil, List.append_assoc]

end AptClientHandler

/-! ### A full disk -/

/-- A file on a disk that is full. -/
def fullDisk : Sink := ⟨[], 0, fun _ => -1⟩

/-- A file on a disk that takes it. -/
def roomyDisk : Sink := ⟨[], 0, fun _ => 4096⟩

/-- A client that is not connected yet. -/
def plainClient : HttpClient := .create 4096 (fun _ => 0) (ascii "localhost")

/-- A response of five bytes that arrives at once. -/
def joinedReply : Socket := [.bytes helloResponse.render]

/-- What becomes of that response, as the client sees it. -/
def heldRefused (consume : Consumer) : Except Fault Bool :=
  (plainClient.answer .GET (ascii "/hello\x00") true joinedReply).map fun p =>
    decide (p.1.HeldRefused p.2 consume)

theorem request_taken_roomy :
    ∃ res head r, plainClient.answer .GET (ascii "/hello\x00") true joinedReply = .ok (head, r) ∧
      plainClient.request (AptClientHandler.consumer roomyDisk) .GET (ascii "/hello\x00") true true
        joinedReply = .ok res ∧
      (res.ret = 0 → res.Taken (AptClientHandler.consumer roomyDisk) head.contentLength) := by
  have hheld : heldRefused (AptClientHandler.consumer roomyDisk) = .ok false := rfl
  obtain ⟨⟨head, r⟩, hans⟩ : ∃ p, plainClient.answer .GET (ascii "/hello\x00") true joinedReply = .ok p :=
    ⟨_, rfl⟩
  obtain ⟨res, hreq⟩ : ∃ res, plainClient.request (AptClientHandler.consumer roomyDisk) .GET
      (ascii "/hello\x00") true true joinedReply = .ok res := ⟨_, rfl⟩
  refine ⟨res, head, r, hans, hreq, (HttpClient.request_taken_iff hans hreq).mpr fun h => ?_⟩
  rw [heldRefused, hans] at hheld
  exact of_decide_eq_false (Except.ok.inj hheld) h.2

/-- On a full disk the same request succeeds, and nothing has been written. -/
theorem request_untaken :
    ¬ ∀ (c : HttpClient) (consume : Consumer) (method : HttpMethodType) (path : List UInt8)
      (isLast connect : Bool) (reply : Socket) (res : Result) (head : Head) (r : HttpHeadReader),
      c.answer method path isLast reply = .ok (head, r) →
      c.request consume method path isLast connect reply = .ok res →
      res.ret = 0 → res.Taken consume head.contentLength := by
  intro hall
  have hheld : heldRefused (AptClientHandler.consumer fullDisk) = .ok true := rfl
  obtain ⟨⟨head, r⟩, hans⟩ : ∃ p, plainClient.answer .GET (ascii "/hello\x00") true joinedReply = .ok p :=
    ⟨_, rfl⟩
  obtain ⟨res, hreq⟩ : ∃ res, plainClient.request (AptClientHandler.consumer fullDisk) .GET
      (ascii "/hello\x00") true true joinedReply = .ok res := ⟨_, rfl⟩
  rw [heldRefused, hans] at hheld
  obtain ⟨hret, hnot⟩ :=
    HttpClient.request_heldRefused rfl hans hreq (of_decide_eq_true (Except.ok.inj hheld))
  exact hnot (hall _ _ _ _ _ _ _ _ _ _ hans hreq hret).accepted

end LinuxUtil.Httpd
