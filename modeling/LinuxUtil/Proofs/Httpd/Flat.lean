/-
The head parser over a stream that comes in one piece.

`flatParse` is `parse` without a socket: lines are cut off a byte string, and an error is
recorded when it ends early.  A reader that is at some feed does to the feed what
`flatParse` does to its stream, malformed heads and heads that end early included.  So
the boundaries of the segments do not show in what comes out.
-/
import LinuxUtil.Proofs.Httpd.Head

namespace LinuxUtil.Httpd

open ByteMem

/-! ### The flat parser -/

/-- What is still to be read, and the error so far. -/
structure Flat where
  rest : List UInt8
  error : Errno
  deriving DecidableEq, Repr

namespace Flat

/-- A line without its end; without one if the stream has no line end any more. -/
def nextLine (s : Flat) : List UInt8 × Flat :=
  match s.rest.dropWhile (· ≠ 10) with
  | _ :: rest => ((s.rest.takeWhile (· ≠ 10)).filter (· ≠ 13), ⟨rest, s.error⟩)
  | [] => ([], ⟨[], EINVAL⟩)

def parseLines : Nat → Flat → Table → Except Fault (Table × Flat)
  | 0, _, _ => .error .diverges
  | n + 1, s, table =>
      if s.nextLine.1 = [] then .ok (table, s.nextLine.2)
      else do
        let table ← parseLine table s.nextLine.1
        parseLines n s.nextLine.2 table

def parse (s : Flat) (table : Table) : Except Fault (Head × Flat) := do
  let (method, line) := nextToken s.nextLine.1
  let (path, _) := nextToken line
  let (table, s) ← parseLines (s.nextLine.2.rest.length + 1) s.nextLine.2 table
  return ({ method, path, table }, s)

end Flat

/-! ### A reader tracks its stream -/

/-- The reader `r` has the rest of `s` before it, in some segments.  After an error there is
nothing left. -/
structure Tracks (r : HttpHeadReader) (s : Flat) : Prop where
  feed : ∃ f : Feed UInt8, r.pending = f.ready ∧ r.socket = f.segs.map .bytes ∧ f.Live
    ∧ f.stream = s.rest
  offset_le : r.offset ≤ r.end_
  size : 1 ≤ r.size
  error : r.error = s.error
  failed : s.error ≠ 0 → s.rest = []

theorem Views.tracks {r : HttpHeadReader} {f : Feed UInt8} (h : Views r f) :
    Tracks r ⟨f.stream, 0⟩ :=
  ⟨⟨f, h.pending, h.socket, h.live, rfl⟩, h.offset_le, h.size, h.error, fun h => absurd rfl h⟩

namespace Tracks

variable {r : HttpHeadReader} {s : Flat}

/-- As long as there is something left, the reader is at a feed. -/
theorem views (h : Tracks r s) (hne : s.rest ≠ []) :
    ∃ f, Views r f ∧ f.stream = s.rest ∧ s.error = 0 := by
  have h0 : s.error = 0 := by
    by_contra hc
    exact hne (h.failed hc)
  obtain ⟨f, hp, hs, hlive, hf⟩ := h.feed
  exact ⟨f, ⟨hp, hs, h.offset_le, h.error.trans h0, h.size, hlive⟩, hf, h0⟩

theorem left (h : Tracks r s) : r.left = s.rest.length := by
  obtain ⟨f, hp, hs, -, hf⟩ := h.feed
  rw [HttpHeadReader.left, hp, hs, Socket.bytes_segs, ← hf, Feed.stream, List.length_append]

/-- What has not been read yet. -/
theorem remainder (h : Tracks r s) : r.pending ++ r.socket.bytes = s.rest := by
  obtain ⟨f, hp, hs, -, hf⟩ := h.feed
  rw [hp, hs, Socket.bytes_segs]
  exact hf

/-- At the end of the stream `getch` fails, whatever the error was before. -/
theorem getch_end (h : Tracks r s) (hnil : s.rest = []) :
    ∃ r', r.getch = (-1, r') ∧ Tracks r' s ∧ r'.size = r.size := by
  obtain ⟨f, hp, hs, hlive, hf⟩ := h.feed
  obtain ⟨hready, hsegs⟩ := Feed.stream_eq_nil hlive (hf.trans hnil)
  have hge : r.offset ≥ r.end_ := by
    have hlen := congrArg List.length (hp.trans hready)
    unfold HttpHeadReader.pending at hlen
    rw [length_read, List.length_nil] at hlen
    omega
  have hsock : r.socket = [] := by rw [hs, hsegs]; rfl
  have hfill : r.fill = { r with offset := 0, end_ := 0 } := by
    unfold HttpHeadReader.fill
    rw [hsock]
    simp [Socket.read]
  refine ⟨r.fill, ?_, ?_, by rw [hfill]⟩
  · have hend : r.fill.offset ≥ r.fill.end_ := by simp [hfill]
    simp only [HttpHeadReader.getch, hge, if_true, hend, or_true, and_self]
  · rw [hfill]
    exact ⟨⟨⟨[], []⟩, rfl, hsock, fun t ht => absurd ht List.not_mem_nil, hnil.symm⟩, Nat.le_refl _,
      h.size, h.error, h.failed⟩

/-- A stream without a line end runs out: what was collected is dropped. -/
theorem lineLoop_end :
    ∀ (l : List UInt8) {r : HttpHeadReader} {s : Flat} (n : Nat) (line : List UInt8), Tracks r s →
      s.rest = l → (∀ b ∈ l, b < 128 ∧ b ≠ 10) → l.length < n →
      ∃ r', r.lineLoop n line = .ok ([], r') ∧ Tracks r' ⟨[], EINVAL⟩ ∧ r'.size = r.size := by
  intro l
  induction l with
  | nil =>
      intro r s n line h hs _ hn
      obtain ⟨n, rfl⟩ := Nat.exists_eq_succ_of_ne_zero (Nat.ne_of_gt hn)
      obtain ⟨r', hget, ht, hsize⟩ := h.getch_end hs
      refine ⟨{ r' with error := EINVAL }, ?_, ?_, hsize⟩
      · unfold HttpHeadReader.lineLoop
        rw [hget]
        rfl
      · obtain ⟨f, hp, hsock, hlive, hf⟩ := ht.feed
        exact ⟨⟨f, hp, hsock, hlive, hf.trans hs⟩, ht.offset_le, ht.size, rfl, fun _ => rfl⟩
  | cons b l ih =>
      intro r s n line h hs hl hn
      obtain ⟨n, rfl⟩ := Nat.exists_eq_succ_of_ne_zero (Nat.ne_of_gt (Nat.zero_lt_of_lt hn))
      have hlen : l.length < n := Nat.lt_of_succ_lt_succ hn
      obtain ⟨hb, hne⟩ := hl b List.mem_cons_self
      obtain ⟨f, hv, hf, -⟩ := h.views (by rw [hs]; exact List.cons_ne_nil _ _)
      obtain ⟨f', hnext, hrest, -⟩ := Feed.next_stream hv.size hv.live (hf.trans hs)
      obtain ⟨r₁, hget, hv₁, hsize⟩ := hv.getch hb hnext
      have hchar : UInt8.ofNat ((b.toNat : Int)).toNat = b := by
        rw [Int.toNat_natCast, UInt8.ofNat_toNat]
      have hpos : ¬ ((b.toNat : Int) < 0) := by omega
      have hl' : ∀ c ∈ l, c < 128 ∧ c ≠ 10 := fun c hc => hl c (List.mem_cons_of_mem b hc)
      unfold HttpHeadReader.lineLoop
      simp only [hget, hpos, if_false, hchar, hne]
      rw [← hsize]
      by_cases hcr : b = 13
      · rw [if_neg (by simp [hcr])]
        exact ih n line hv₁.tracks hrest hl' hlen
      · rw [if_pos hcr]
        exact ih n (line ++ [b]) hv₁.tracks hrest hl' hlen

/-- `nextLine` takes a line off the stream. -/
theorem nextLine (h : Tracks r s) (hascii : ∀ b ∈ s.rest, b < 128) :
    ∃ r', r.nextLine = .ok (s.nextLine.1, r') ∧ Tracks r' s.nextLine.2 ∧ r'.size = r.size := by
  have hsplit : s.rest.takeWhile (· ≠ 10) ++ s.rest.dropWhile (· ≠ 10) = s.rest :=
    List.takeWhile_append_dropWhile
  have hline : ∀ b ∈ s.rest.takeWhile (· ≠ 10), b < 128 ∧ b ≠ 10 := by
    intro b hb
    exact ⟨hascii b ((List.takeWhile_prefix _).subset hb), by simpa using List.mem_takeWhile_imp hb⟩
  have hlen : (s.rest.takeWhile (· ≠ 10)).length < r.left + 1 := by
    rw [h.left]
    exact Nat.lt_succ_of_le (List.takeWhile_prefix _).length_le
  unfold HttpHeadReader.nextLine Flat.nextLine
  cases hd : s.rest.dropWhile (· ≠ 10) with
  | nil =>
      rw [hd, List.append_nil] at hsplit
      exact lineLoop_end _ _ [] h hsplit.symm hline hlen
  | cons b rest =>
      have hb : b = 10 := by
        have := List.head?_dropWhile_not (fun b : UInt8 => decide (b ≠ 10)) s.rest
        rw [hd] at this
        simpa using this
      have hne : s.rest ≠ [] := by
        intro hc
        rw [hc] at hd
        cases hd
      obtain ⟨f, hv, hf, h0⟩ := h.views hne
      have hs : f.stream = s.rest.takeWhile (· ≠ 10) ++ 10 :: rest := by
        rw [hd, hb] at hsplit
        exact hf.trans hsplit.symm
      obtain ⟨r', hnext, hv', hrest, hsize⟩ := hv.takeLine hline hs
      refine ⟨r', hnext, ?_, hsize⟩
      have ht := hv'.tracks
      rw [hrest] at ht
      rw [h0]
      exact ht

end Tracks

/-- Lines are cut off the front. -/
theorem Flat.nextLine_suffix (s : Flat) : s.nextLine.2.rest <:+ s.rest := by
  unfold Flat.nextLine
  cases hd : s.rest.dropWhile (· ≠ 10) with
  | nil => exact List.nil_suffix
  | cons b rest =>
      have hsuf : s.rest.dropWhile (· ≠ 10) <:+ s.rest := List.dropWhile_suffix _
      rw [hd] at hsuf
      exact (List.suffix_cons b rest).trans hsuf

/-- A line that is not empty takes its bytes with it. -/
theorem Flat.nextLine_lt {s : Flat} (h : s.nextLine.1 ≠ []) :
    s.nextLine.2.rest.length < s.rest.length := by
  unfold Flat.nextLine at h ⊢
  cases hd : s.rest.dropWhile (· ≠ 10) with
  | nil =>
      rw [hd] at h
      exact absurd rfl h
  | cons b rest =>
      have hsuf : s.rest.dropWhile (· ≠ 10) <:+ s.rest := List.dropWhile_suffix _
      rw [hd] at hsuf
      exact Nat.lt_of_succ_le hsuf.length_le

/-- The lines end before the rounds do. -/
theorem Flat.parseLines_ends :
    ∀ (n : Nat) (s : Flat) (table : Table), s.rest.length < n →
      s.parseLines n table ≠ .error .diverges := by
  intro n
  induction n with
  | zero => intro s table hn; omega
  | succ n ih =>
      intro s table hn
      unfold Flat.parseLines
      by_cases hnil : s.nextLine.1 = []
      · rw [if_pos hnil]
        exact fun hc => by cases hc
      · rw [if_neg hnil]
        have hlt := s.nextLine_lt hnil
        cases hp : parseLine table s.nextLine.1 with
        | error e =>
            intro hc
            obtain rfl : e = .diverges := Except.error.inj hc
            unfold parseLine at hp
            dsimp only at hp
            split at hp
            · cases hp
            · split at hp <;> cases hp
        | ok table' => exact ih _ table' (by omega)

theorem Flat.parse_ends (s : Flat) (table : Table) : s.parse table ≠ .error .diverges := by
  have hends := parseLines_ends (s.nextLine.2.rest.length + 1) s.nextLine.2 table
    (Nat.lt_succ_self _)
  unfold Flat.parse
  cases hp : s.nextLine.2.parseLines (s.nextLine.2.rest.length + 1) table with
  | error e =>
      rw [hp] at hends
      simpa [hp, bind, Except.bind] using hends
  | ok res =>
      simp only [bind, Except.bind]
      exact fun hc => by cases hc

/-- A result of the parser and one of the flat parser, which leave the same behind. -/
def Agree {α : Type} : Except Fault (α × HttpHeadReader) → Except Fault (α × Flat) → Prop
  | .ok (a, r), .ok (b, s) => a = b ∧ Tracks r s
  | .error e, .error e' => e = e'
  | _, _ => False

/-- Something is made of both results. -/
theorem Agree.map {α β : Type} {res : Except Fault (α × HttpHeadReader)} {flat : Except Fault (α × Flat)}
    (f : α → β) (h : Agree res flat) :
    Agree (res.map (Prod.map f id)) (flat.map (Prod.map f id)) := by
  cases res with
  | error e =>
      cases flat with
      | error e' => exact h
      | ok b => exact h
  | ok a =>
      cases flat with
      | error e' => exact h
      | ok b => exact ⟨congrArg f h.1, h.2⟩

theorem Tracks.parseLines :
    ∀ (n : Nat) {r : HttpHeadReader} {s : Flat} (table : Table), Tracks r s →
      (∀ b ∈ s.rest, b < 128) → Agree (Httpd.parseLines n r table) (s.parseLines n table) := by
  intro n
  induction n with
  | zero => intro r s table _ _; rfl
  | succ n ih =>
      intro r s table h hascii
      obtain ⟨r', hline, ht, -⟩ := h.nextLine hascii
      unfold Httpd.parseLines Flat.parseLines
      rw [hline]
      simp only [bind, Except.bind]
      by_cases hnil : s.nextLine.1 = []
      · rw [if_pos hnil, if_pos hnil]
        exact ⟨rfl, ht⟩
      · rw [if_neg hnil, if_neg hnil]
        cases parseLine table s.nextLine.1 with
        | error e => rfl
        | ok table' =>
            exact ih table' ht fun b hb => hascii b (s.nextLine_suffix.subset hb)

/-- **The parser does what the flat one does**, whatever the segments are. -/
theorem Tracks.parse {r : HttpHeadReader} {s : Flat} (table : Table) (h : Tracks r s)
    (hascii : ∀ b ∈ s.rest, b < 128) : Agree (Httpd.parse r table) (s.parse table) := by
  obtain ⟨r', hline, ht, -⟩ := h.nextLine hascii
  have hlines := ht.parseLines (r'.left + 1) table
    fun b hb => hascii b (s.nextLine_suffix.subset hb)
  unfold Httpd.parse Flat.parse
  rw [hline]
  simp only [bind, Except.bind]
  rw [← ht.left]
  exact hlines.map (Head.mk (nextToken s.nextLine.1).1 (nextToken (nextToken s.nextLine.1).2).1)

/-! ### Segments do not show -/

/-- What a caller can tell of a result: whether the head is valid, the head, the error of the
reader, and what has not been read yet. -/
def observe (res : Except Fault (Head × HttpHeadReader)) :
    Except Fault (Bool × Head × Errno × List UInt8) :=
  res.map fun (head, r) => (head.isValid, head, r.error, r.pending ++ r.socket.bytes)

theorem Agree.observe_eq {res : Except Fault (Head × HttpHeadReader)}
    {flat : Except Fault (Head × Flat)} (h : Agree res flat) :
    observe res = flat.map fun (head, s) => (head.isValid, head, s.error, s.rest) := by
  cases res with
  | error e =>
      cases flat with
      | error e' =>
          obtain rfl : e = e' := h
          rfl
      | ok b => exact h.elim
  | ok a =>
      cases flat with
      | error e' => exact h.elim
      | ok b =>
          obtain ⟨hhead, ht⟩ : a.1 = b.1 ∧ Tracks a.2 b.2 := h
          show Except.ok (a.1.isValid, a.1, a.2.error, a.2.pending ++ a.2.socket.bytes)
            = .ok (b.1.isValid, b.1, b.2.error, b.2.rest)
          rw [hhead, ht.error, ht.remainder]

/-- A reader that is reset to a socket tracks the bytes to come on it. -/
theorem tracks_reset {r : HttpHeadReader} (hsize : 1 ≤ r.size) {segs : List (List UInt8)}
    (hlive : Segments.Live segs) : Tracks (r.reset (segs.map .bytes)) ⟨segs.flatten, 0⟩ :=
  ⟨⟨⟨[], segs⟩, rfl, rfl, hlive, rfl⟩, Nat.le_refl _, hsize, rfl, fun h => absurd rfl h⟩

/-- **Parsing does not depend on the segments.**  Two readers of any sizes that are reset to
sockets with the same bytes to come, in any segments and then the end of file, parse them with
the same result: the same fault or the same head, error and remainder.  The loops end. -/
theorem parse_segments_eq {r₁ r₂ : HttpHeadReader} (h₁ : 1 ≤ r₁.size) (h₂ : 1 ≤ r₂.size)
    {segs₁ segs₂ : List (List UInt8)} (hlive₁ : Segments.Live segs₁)
    (hlive₂ : Segments.Live segs₂) (hbytes : segs₁.flatten = segs₂.flatten)
    (hascii : ∀ b ∈ segs₁.flatten, b < 128) (table : Table) :
    observe (parse (r₁.reset (segs₁.map .bytes)) table)
        = observe (parse (r₂.reset (segs₂.map .bytes)) table)
      ∧ observe (parse (r₁.reset (segs₁.map .bytes)) table) ≠ .error .diverges := by
  have ha₁ := (tracks_reset h₁ hlive₁).parse table hascii
  have ha₂ := (tracks_reset h₂ hlive₂).parse table (by rwa [← hbytes])
  rw [ha₁.observe_eq, ha₂.observe_eq, hbytes]
  refine ⟨rfl, ?_⟩
  have hends := Flat.parse_ends ⟨segs₂.flatten, 0⟩ table
  cases hp : Flat.parse ⟨segs₂.flatten, 0⟩ table with
  | error e =>
      rw [hp] at hends
      exact fun hc => hends (congrArg Except.error (Except.error.inj hc))
  | ok res => exact fun hc => by cases hc

/-- A reader with a buffer of four bytes. -/
def smallReader : HttpHeadReader := ⟨[], fun _ => 0, 4, 0, 0, 0⟩

/-- A head that ends in the middle of a line. -/
def cutHead : List UInt8 := ascii "GET /a HTTP/1.1\r\nConnection: close\r\nAcc"

theorem parse_segments_eq_cut :
    observe (parse (smallReader.reset ([cutHead].map .bytes)) headTable)
      = observe (parse (smallReader.reset ((cutHead.map fun b => [b]).map .bytes)) headTable) := by
  have hsize : 1 ≤ smallReader.size := by decide
  have hwhole : Segments.Live [cutHead] := by simp [Segments.Live, cutHead, ascii]
  have hsingle : Segments.Live (cutHead.map fun b => [b]) := by simp [Segments.Live]
  exact (parse_segments_eq hsize hsize hwhole hsingle (by decide) (forall_of_all (by decide))
    headTable).1

end LinuxUtil.Httpd
