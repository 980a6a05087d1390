/-
The lines that the head reader returns.

`getch` hands out a byte as a signed `char`, so a byte from 128 on looks like the end of
the input.  In a line that ends, it cuts the line off and sets the error.  Behind the
last line end it does no harm: a call that finds no line end fails anyway, whatever
bytes it sees and whatever the error was, and leaves nothing with a line end behind.
-/
import LinuxUtil.Proofs.Httpd.Flat

namespace LinuxUtil.Httpd

open ByteMem

/-! ### Calls -/

namespace HttpHeadReader

/-- A call of `nextLine`, and the error that its caller sees.  `clear` is whether the caller asks
with `getLastError`, which clears it, or with `getError`. -/
def ask (r : HttpHeadReader) (clear : Bool) : Except Fault ((List UInt8 × Errno) × HttpHeadReader) := do
  let (line, r) ← r.nextLine
  let (error, r) := if clear then r.getLastError else (r.error, r)
  return ((line, error), r)

/-- One call after the other. -/
def asks (r : HttpHeadReader) : List Bool → Except Fault (List (List UInt8 × Errno))
  | [] => .ok []
  | clear :: clears => do
      let (answer, r) ← r.ask clear
      let answers ← r.asks clears
      return answer :: answers

theorem asks_cons {r r' : HttpHeadReader} {line : List UInt8} (h : r.nextLine = .ok (line, r'))
    (clear : Bool) (clears : List Bool) :
    r.asks (clear :: clears) =
      ((if clear then { r' with error := 0 } else r').asks clears).map ((line, r'.error) :: ·) := by
  rw [asks, ask, h]
  cases clear with
  | true =>
      simp only [bind, Except.bind, pure, Except.pure, getLastError, if_true]
      cases asks { r' with error := 0 } clears with
      | error e => rfl
      | ok as => rfl
  | false =>
      simp only [bind, Except.bind, pure, Except.pure, Bool.false_eq_true, if_false]
      cases asks r' clears with
      | error e => rfl
      | ok as => rfl

end HttpHeadReader

/-! ### Lines of a byte string -/

/-- The lines that end in a line feed, without it. -/
def terminated (bs : List UInt8) : List (List UInt8) := (bs.splitOn 10).dropLast

theorem terminated_plain {bs : List UInt8} (h : 10 ∉ bs) : terminated bs = [] := by
  rw [terminated, List.splitOn_eq_singleton h]
  rfl

theorem terminated_line {l : List UInt8} (h : 10 ∉ l) (rest : List UInt8) :
    terminated (l ++ 10 :: rest) = l :: terminated rest := by
  rw [terminated, List.splitOn_append_cons_self_of_not_mem h]
  exact List.dropLast_cons_of_ne_nil (List.splitOn_ne_nil 10 rest)

/-- A byte string has no line, or a first line. -/
theorem line_cases (bs : List UInt8) : 10 ∉ bs ∨ ∃ l rest, bs = l ++ 10 :: rest ∧ 10 ∉ l := by
  by_cases h : (10 : UInt8) ∈ bs
  · exact .inr (List.eq_append_cons_of_mem h)
  · exact .inl h

/-- What the first `n` calls should return: the lines without `'\r'`, and then failures. -/
def answers : List (List UInt8) → Nat → List (List UInt8 × Errno)
  | _, 0 => []
  | [], n + 1 => ([], EINVAL) :: answers [] n
  | l :: ls, n + 1 => (l.filter (· ≠ 13), 0) :: answers ls n

/-! ### Characters -/

theorem char_neg_iff (b : UInt8) : b.toInt8.toInt < 0 ↔ ¬ b < 128 := by
  rw [← Int8.toInt_toBitVec, UInt8.toBitVec_toInt8, BitVec.toInt_neg_iff, UInt8.lt_iff_toNat_lt]
  show 2 ^ 8 ≤ 2 * b.toNat ↔ ¬ b.toNat < 128
  omega

/-- A character that is not negative is pushed as it came. -/
theorem ofNat_char {b : UInt8} (h : b < 128) : UInt8.ofNat b.toInt8.toInt.toNat = b := by
  rw [toInt_of_ascii h, Int.toNat_natCast, UInt8.ofNat_toNat]

/-! ### Readers after an error -/

/-- The reader `r` has `rest` before it, whatever its error. -/
structure Before (r : HttpHeadReader) (rest : List UInt8) : Prop where
  feed : ∃ f : Feed UInt8, r.pending = f.ready ∧ r.socket = f.segs.map .bytes ∧ f.Live
    ∧ f.stream = rest
  offset_le : r.offset ≤ r.end_
  size : 1 ≤ r.size

theorem Views.before {r : HttpHeadReader} {f : Feed UInt8} (h : Views r f) : Before r f.stream :=
  ⟨⟨f, h.pending, h.socket, h.live, rfl⟩, h.offset_le, h.size⟩

namespace Before

variable {r : HttpHeadReader} {rest : List UInt8}

/-- The error does not matter. -/
theorem withError (h : Before r rest) (e : Errno) : Before { r with error := e } rest :=
  ⟨h.feed, h.offset_le, h.size⟩

theorem left (h : Before r rest) : r.left = rest.length := by
  obtain ⟨f, hp, hs, -, hf⟩ := h.feed
  rw [HttpHeadReader.left, hp, hs, Socket.bytes_segs, ← hf, Feed.stream, List.length_append]

theorem fill (h : Before r rest) (hend : r.end_ ≤ r.offset) : Before r.fill rest := by
  obtain ⟨⟨ready, segs⟩, hp, hs, hlive, hf⟩ := h.feed
  have hready : ready = [] := by
    rw [show ready = r.pending from hp.symm, HttpHeadReader.pending, Nat.sub_eq_zero_of_le hend,
      read_zero]
  have hfill : r.fill =
      { r with
        socket := (Segments.pull r.size segs).2.map .bytes
        buffer := write r.buffer 0 (Segments.pull r.size segs).1
        offset := 0
        end_ := (Segments.pull r.size segs).1.length } := by
    rw [HttpHeadReader.fill, hs, Socket.read_segs]
  rw [hfill]
  refine ⟨⟨⟨(Segments.pull r.size segs).1, (Segments.pull r.size segs).2⟩, ?_, rfl, ?_, ?_⟩, ?_, ?_⟩
  · exact read_write_self _ _ _
  · exact Segments.pull_live _ hlive
  · rw [← hf, hready]
    exact Segments.pull_flatten r.size segs
  · exact Nat.zero_le _
  · exact h.size

/-- A call fails and takes nothing, or it takes the next byte. -/
theorem getch (h : Before r rest) :
    (∃ r', r.getch = (-1, r') ∧ Before r' rest) ∨
      ∃ b rest' r', rest = b :: rest' ∧ r.getch = (b.toInt8.toInt, r') ∧ Before r' rest' := by
  have hstep : ∀ {r : HttpHeadReader}, Before r rest → r.offset < r.end_ →
      ∃ b rest', rest = b :: rest' ∧ r.buffer r.offset = b ∧
        Before { r with offset := r.offset + 1 } rest' := by
    intro r h hlt
    obtain ⟨⟨ready, segs⟩, hp, hs, hlive, hf⟩ := h.feed
    unfold HttpHeadReader.pending at hp
    rw [show r.end_ - r.offset = (r.end_ - (r.offset + 1)) + 1 by omega, read_succ] at hp
    refine ⟨_, read r.buffer (r.offset + 1) (r.end_ - (r.offset + 1)) ++ segs.flatten, ?_, rfl, ?_⟩
    · rw [← hf, ← List.cons_append, hp]
      rfl
    · exact ⟨⟨⟨_, segs⟩, rfl, hs, hlive, rfl⟩, hlt, h.size⟩
  by_cases hlt : r.offset < r.end_
  · obtain ⟨b, rest', hrest, hb, hbefore⟩ := hstep h hlt
    refine .inr ⟨b, rest', _, hrest, ?_, hbefore⟩
    simp only [HttpHeadReader.getch, ge_iff_le, Nat.not_le.mpr hlt, if_false, false_and, hb]
  · have hend : r.end_ ≤ r.offset := Nat.not_lt.mp hlt
    have hfill := h.fill hend
    by_cases hfail : r.fill.error ≠ 0 ∨ r.fill.offset ≥ r.fill.end_
    · refine .inl ⟨r.fill, ?_, hfill⟩
      simp only [HttpHeadReader.getch, ge_iff_le, hend, if_true, true_and]
      rw [if_pos hfail]
    · obtain ⟨-, hlt'⟩ := not_or.mp hfail
      obtain ⟨b, rest', hrest, hb, hbefore⟩ := hstep hfill (Nat.not_le.mp hlt')
      refine .inr ⟨b, rest', _, hrest, ?_, hbefore⟩
      simp only [HttpHeadReader.getch, ge_iff_le, hend, if_true, true_and]
      rw [if_neg hfail, hb]

/-- Without a line end the loop fails, and leaves no line end behind. -/
theorem lineLoop_fails :
    ∀ (n : Nat) {r : HttpHeadReader} {rest : List UInt8} (line : List UInt8), Before r rest →
      10 ∉ rest → rest.length < n →
      ∃ r' rest', r.lineLoop n line = .ok ([], r') ∧ Before r' rest' ∧ 10 ∉ rest' ∧
        r'.error = EINVAL := by
  intro n
  induction n with
  | zero => intro r rest line _ _ hn; omega
  | succ n ih =>
      intro r rest line h hplain hn
      unfold HttpHeadReader.lineLoop
      rcases h.getch with ⟨r', hget, hr'⟩ | ⟨b, rest', r', rfl, hget, hr'⟩
      · rw [hget]
        exact ⟨{ r' with error := EINVAL }, rest, rfl, hr'.withError EINVAL, hplain, rfl⟩
      · rw [List.mem_cons, not_or] at hplain
        rw [hget]
        by_cases hneg : b.toInt8.toInt < 0
        · simp only [hneg, if_true]
          exact ⟨_, rest', rfl, hr'.withError EINVAL, hplain.2, rfl⟩
        · have hb : b < 128 := by
            by_contra hb
            exact hneg ((char_neg_iff b).mpr hb)
          have hn' : rest'.length < n := Nat.lt_of_succ_lt_succ hn
          simp only [hneg, if_false, ofNat_char hb, Ne.symm hplain.1]
          by_cases hcr : b = 13
          · rw [if_neg (not_not.mpr hcr)]
            exact ih line hr' hplain.2 hn'
          · rw [if_pos hcr]
            exact ih (line ++ [b]) hr' hplain.2 hn'

/-- **Without a line end every call fails**, whatever the error was. -/
theorem asks_fail :
    ∀ (clears : List Bool) {r : HttpHeadReader} {rest : List UInt8}, Before r rest → 10 ∉ rest →
      r.asks clears = .ok (answers [] clears.length) := by
  intro clears
  induction clears with
  | nil => intro r rest _ _; rfl
  | cons clear clears ih =>
      intro r rest h hplain
      obtain ⟨r', rest', hline, hr', hplain', herror⟩ :=
        lineLoop_fails (r.left + 1) [] h hplain (by rw [h.left]; exact Nat.lt_succ_self _)
      rw [HttpHeadReader.asks_cons hline, herror]
      have hbefore : Before (if clear then { r' with error := 0 } else r') rest' := by
        cases clear with
        | true => exact hr'.withError 0
        | false => exact hr'
      rw [ih hbefore hplain']
      rfl

end Before

/-! ### Lines of the stream -/

/-- A byte from 128 on ends the line like the end of the input. -/
theorem Views.lineLoop_cut :
    ∀ (l : List UInt8) {r : HttpHeadReader} {f : Feed UInt8} {rest : List UInt8} (n : Nat)
      (line : List UInt8), Views r f → f.stream = l ++ rest → 10 ∉ l → (∃ b ∈ l, ¬ b < 128) →
      l.length < n → ∃ r', r.lineLoop n line = .ok ([], r') ∧ r'.error = EINVAL := by
  intro l
  induction l with
  | nil =>
      rintro r f rest n line - - - ⟨b, hb, -⟩
      cases hb
  | cons b l ih =>
      intro r f rest n line h hs hplain hhigh hn
      obtain ⟨n, rfl⟩ := Nat.exists_eq_succ_of_ne_zero (Nat.ne_of_gt (Nat.zero_lt_of_lt hn))
      obtain ⟨f', hnext, hrest, -⟩ := Feed.next_stream h.size h.live hs
      obtain ⟨r', hget, hv, -⟩ := h.getch_char hnext
      rw [List.mem_cons, not_or] at hplain
      unfold HttpHeadReader.lineLoop
      rw [hget]
      by_cases hb : b < 128
      · have hneg : ¬ b.toInt8.toInt < 0 := fun hneg => (char_neg_iff b).mp hneg hb
        have hhigh' : ∃ c ∈ l, ¬ c < 128 := by
          obtain ⟨c, hc, hc'⟩ := hhigh
          rcases List.mem_cons.mp hc with rfl | hc
          · exact absurd hb hc'
          · exact ⟨c, hc, hc'⟩
        have hn' : l.length < n := Nat.lt_of_succ_lt_succ hn
        simp only [hneg, if_false, ofNat_char hb, Ne.symm hplain.1]
        by_cases hcr : b = 13
        · rw [if_neg (not_not.mpr hcr)]
          exact ih n line hv hrest hplain.2 hhigh' hn'
        · rw [if_pos hcr]
          exact ih n (line ++ [b]) hv hrest hplain.2 hhigh' hn'
      · simp only [(char_neg_iff b).mpr hb, if_true]
        exact ⟨_, rfl, rfl⟩

/-- Whoever asks for the error after a line sees none, and leaves the reader as it is. -/
theorem Views.asks_line {r r' : HttpHeadReader} {f' : Feed UInt8} {line : List UInt8}
    (hline : r.nextLine = .ok (line, r')) (hv : Views r' f') (clear : Bool) (clears : List Bool) :
    r.asks (clear :: clears) = (r'.asks clears).map ((line, 0) :: ·) := by
  have hclear : { r' with error := 0 } = r' := by rw [← hv.error]
  rw [HttpHeadReader.asks_cons hline, hclear, ite_self, hv.error]

/-- The lines of the stream are bytes below 128. -/
def AsciiLines (bs : List UInt8) : Prop := ∀ l ∈ terminated bs, ∀ b ∈ l, b < 128

theorem Views.asks_lines :
    ∀ (clears : List Bool) {r : HttpHeadReader} {f : Feed UInt8}, Views r f → AsciiLines f.stream →
      r.asks clears = .ok (answers (terminated f.stream) clears.length) := by
  intro clears
  induction clears with
  | nil => intro r f _ _; rfl
  | cons clear clears ih =>
      intro r f h hascii
      rcases line_cases f.stream with hplain | ⟨l, rest, hs, hl⟩
      · rw [terminated_plain hplain]
        exact h.before.asks_fail _ hplain
      · have hterm := terminated_line hl rest
        rw [AsciiLines, hs, hterm] at hascii
        obtain ⟨r', hline, hv, hrest, -⟩ := h.takeLine
          (fun b hb => ⟨hascii l List.mem_cons_self b hb, fun hc => hl (hc ▸ hb)⟩) hs
        rw [hv.asks_line hline, ih hv (by
          rw [hrest]
          exact fun k hk => hascii k (List.mem_cons_of_mem l hk)), hrest, hs, hterm]
        rfl

theorem Views.ascii_of_asks :
    ∀ (n : Nat) {r : HttpHeadReader} {f : Feed UInt8}, Views r f → f.stream.length < n →
      (∀ clears, r.asks clears = .ok (answers (terminated f.stream) clears.length)) →
      AsciiLines f.stream := by
  intro n
  induction n with
  | zero => intro r f _ hn; omega
  | succ n ih =>
      intro r f h hn hasks
      rcases line_cases f.stream with hplain | ⟨l, rest, hs, hl⟩
      · rw [AsciiLines, terminated_plain hplain]
        exact fun l hl => absurd hl List.not_mem_nil
      · have hterm := terminated_line hl rest
        rw [hs, hterm] at hasks
        have hlow : ∀ b ∈ l, b < 128 := by
          -- Otherwise the first call already fails.
          by_contra hc
          obtain ⟨r', hloop, herror⟩ := Views.lineLoop_cut l (r.left + 1) [] h hs hl
            (by simpa using hc) (by rw [h.left, hs, List.length_append]; omega)
          have hfirst := hasks [false]
          rw [HttpHeadReader.asks_cons hloop, herror] at hfirst
          have hanswer := (List.cons.inj (Except.ok.inj hfirst)).1
          exact absurd (Prod.mk.inj hanswer).2 (by decide)
        obtain ⟨r', hline, hv, hrest, -⟩ := h.takeLine
          (fun b hb => ⟨hlow b hb, fun hc => hl (hc ▸ hb)⟩) hs
        have htail : AsciiLines rest := by
          rw [← hrest]
          refine ih hv ?_ fun clears => ?_
          · rw [hs, List.length_append, List.length_cons] at hn
            rw [hrest]
            omega
          · have hcall := hasks (false :: clears)
            rw [hv.asks_line hline] at hcall
            cases hr : r'.asks clears with
            | error e =>
                rw [hr] at hcall
                cases hcall
            | ok as =>
                rw [hr] at hcall
                rw [hrest, ← (List.cons.inj (Except.ok.inj hcall)).2]
        intro k hk
        rw [hs, hterm] at hk
        rcases List.mem_cons.mp hk with rfl | hk
        · exact hlow
        · exact htail k hk

/-- **The head reader returns the lines of the stream**, however it arrives, exactly if every line
that ends is of bytes below 128. -/
theorem nextLine_lines_iff {r : HttpHeadReader} (hsize : 1 ≤ r.size) {segs : List (List UInt8)}
    (hlive : Segments.Live segs) :
    (∀ clears, (r.reset (segs.map .bytes)).asks clears =
        .ok (answers (terminated segs.flatten) clears.length)) ↔
      ∀ l ∈ terminated segs.flatten, ∀ b ∈ l, b < 128 := by
  have hv : Views (r.reset (segs.map .bytes)) ⟨[], segs⟩ :=
    ⟨rfl, rfl, Nat.le_refl _, rfl, hsize, hlive⟩
  exact ⟨fun h => hv.ascii_of_asks _ (Nat.lt_succ_self _) h, fun h clears => hv.asks_lines clears h⟩

/-- A head in two segments, with bytes of a body behind it. -/
def headSegs : List (List UInt8) :=
  [ascii "GET / HTTP/1.1\r\nHo", ascii "st: a\r\n\r\n" ++ [0x80, 0xff]]

theorem nextLine_lines_head :
    (smallReader.reset (headSegs.map .bytes)).asks [false, false, true, false] =
      .ok (answers (terminated headSegs.flatten) 4) := by
  have hlive : Segments.Live headSegs := by simp [Segments.Live, headSegs, ascii]
  have hlines : (terminated headSegs.flatten).all fun l => l.all (· < 128) := by decide
  refine (nextLine_lines_iff (by decide) hlive).mpr (fun l hl b hb => ?_) _
  exact of_decide_eq_true (List.all_eq_true.mp (List.all_eq_true.mp hlines l hl) b hb)

/-- A line with a letter in UTF-8 is not returned. -/
theorem nextLine_misses_line :
    ¬ ∀ (r : HttpHeadReader) (segs : List (List UInt8)), 1 ≤ r.size → Segments.Live segs →
      ∀ clears, (r.reset (segs.map .bytes)).asks clears =
        .ok (answers (terminated segs.flatten) clears.length) := by
  intro h
  have hlive : Segments.Live [[(0xc3 : UInt8), 0xa9, 10]] := by simp [Segments.Live]
  have hcall := h smallReader [[0xc3, 0xa9, 10]] (by decide) hlive [false]
  have hrun : (smallReader.reset ([[0xc3, 0xa9, 10]].map .bytes)).asks [false] = .ok [([], EINVAL)] :=
    rfl
  rw [hrun] at hcall
  exact absurd (Except.ok.inj hcall) (by decide)

end LinuxUtil.Httpd
