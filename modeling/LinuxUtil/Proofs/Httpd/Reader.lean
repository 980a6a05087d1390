/-
The head reader is a feed.

`Views` says which feed a reader is at: its pending bytes and the segments of its
socket.  Over it `getch` is `Feed.next`, and a line is a `Feed.skip` over the line and
its end.
-/
import LinuxUtil.Httpd.Reader
import LinuxUtil.Lib.Feed

namespace LinuxUtil.Httpd

open ByteMem

/-- The reader `r` is at the feed `f`. -/
structure Views (r : HttpHeadReader) (f : Feed UInt8) : Prop where
  pending : r.pending = f.ready
  socket : r.socket = f.segs.map .bytes
  offset_le : r.offset ≤ r.end_
  error : r.error = 0
  size : 1 ≤ r.size
  live : f.Live

/-! ### Sockets -/

theorem Socket.read_segs (len : Nat) (segs : List (List UInt8)) :
    Socket.read len (segs.map .bytes) =
      (.ok (Segments.pull len segs).1, (Segments.pull len segs).2.map .bytes) := by
  cases segs with
  | nil => rfl
  | cons s segs =>
      rw [Segments.pull_cons, List.map_cons]
      unfold Socket.read
      by_cases h : s.length ≤ len
      · simp only [h, if_true]
      · simp only [h, if_false, List.map_cons]

@[simp] theorem Socket.bytes_segs (segs : List (List UInt8)) :
    Socket.bytes (segs.map .bytes) = segs.flatten := by
  induction segs with
  | nil => rfl
  | cons s segs ih => rw [List.map_cons, Socket.bytes, ih, List.flatten_cons]

/-! ### Characters -/

theorem Views.left {r : HttpHeadReader} {f : Feed UInt8} (h : Views r f) :
    r.left = f.stream.length := by
  rw [HttpHeadReader.left, h.pending, h.socket, Socket.bytes_segs, Feed.stream, List.length_append]

theorem toInt_of_ascii {b : UInt8} (h : b < 128) : b.toInt8.toInt = (b.toNat : Int) := by
  have hlt : b.toNat < 128 := h
  rw [← Int8.toInt_toBitVec, UInt8.toBitVec_toInt8, BitVec.toInt_eq_toNat_of_lt]
  · rfl
  · have : b.toBitVec.toNat = b.toNat := rfl
    omega

theorem Views.pending_cons {r : HttpHeadReader} {f : Feed UInt8} {b : UInt8} {rest : List UInt8}
    (h : Views r f) (hr : f.ready = b :: rest) :
    r.offset < r.end_ ∧ r.buffer r.offset = b ∧
      read r.buffer (r.offset + 1) (r.end_ - (r.offset + 1)) = rest := by
  have hp : read r.buffer r.offset (r.end_ - r.offset) = b :: rest := h.pending.trans hr
  have hlen : r.offset < r.end_ := by
    have := congrArg List.length hp
    rw [length_read, List.length_cons] at this
    omega
  rw [show r.end_ - r.offset = (r.end_ - (r.offset + 1)) + 1 by omega, read_succ] at hp
  obtain ⟨hb, hrest⟩ := List.cons.inj hp
  exact ⟨hlen, hb, hrest⟩

theorem Views.pending_nil {r : HttpHeadReader} {f : Feed UInt8} (h : Views r f)
    (hr : f.ready = []) : r.end_ ≤ r.offset := by
  have hp : read r.buffer r.offset (r.end_ - r.offset) = [] := h.pending.trans hr
  have := congrArg List.length hp
  rw [length_read, List.length_nil] at this
  omega

theorem Views.fill {r : HttpHeadReader} {f : Feed UInt8} (h : Views r f) :
    Views r.fill ⟨(Segments.pull r.size f.segs).1, (Segments.pull r.size f.segs).2⟩ ∧
      r.fill.offset = 0 ∧ r.fill.end_ = (Segments.pull r.size f.segs).1.length ∧
      r.fill.size = r.size := by
  have hfill : r.fill =
      { r with
        socket := (Segments.pull r.size f.segs).2.map .bytes
        buffer := write r.buffer 0 (Segments.pull r.size f.segs).1
        offset := 0
        end_ := (Segments.pull r.size f.segs).1.length } := by
    rw [HttpHeadReader.fill, h.socket, Socket.read_segs]
  rw [hfill]
  refine ⟨⟨?_, rfl, Nat.zero_le _, h.error, h.size, Segments.pull_live _ h.live⟩, rfl, rfl, rfl⟩
  exact read_write_self _ _ _

/-- `getch` is `Feed.next`; the element comes as a signed `char`. -/
theorem Views.getch_char {r : HttpHeadReader} {f f' : Feed UInt8} {b : UInt8} (h : Views r f)
    (hnext : f.next r.size = some (b, f')) :
    ∃ r', r.getch = (b.toInt8.toInt, r') ∧ Views r' f' ∧ r'.size = r.size := by
  obtain ⟨ready, segs⟩ := f
  have hstep : ∀ {r₀ : HttpHeadReader} {rest : List UInt8} {segs' : List (List UInt8)},
      Views r₀ ⟨b :: rest, segs'⟩ →
      ((r₀.buffer r₀.offset).toInt8.toInt = b.toInt8.toInt) ∧
        Views { r₀ with offset := r₀.offset + 1 } ⟨rest, segs'⟩ := by
    intro r₀ rest segs' h₀
    obtain ⟨hlt, hbuf, hrest⟩ := h₀.pending_cons rfl
    exact ⟨by rw [hbuf], ⟨hrest, h₀.socket, hlt, h₀.error, h₀.size, h₀.live⟩⟩
  cases ready with
  | cons a rest =>
      obtain ⟨rfl, rfl⟩ := Prod.mk.inj (Option.some.inj hnext)
      obtain ⟨hlt, -, -⟩ := h.pending_cons rfl
      obtain ⟨hch, hview⟩ := hstep h
      refine ⟨_, ?_, hview, rfl⟩
      have hn : ¬ r.offset ≥ r.end_ := by omega
      simp only [HttpHeadReader.getch, hn, if_false, false_and, hch]
  | nil =>
      obtain ⟨hv, hoff, hend, hsize⟩ := h.fill
      have hge : r.offset ≥ r.end_ := h.pending_nil rfl
      simp only [Feed.next] at hnext
      cases hp : Segments.pull r.size segs with
      | mk bs segs' =>
          rw [hp] at hnext
          simp only [hp] at hv hend
          cases bs with
          | nil => cases hnext
          | cons a rest =>
              obtain ⟨rfl, rfl⟩ := Prod.mk.inj (Option.some.inj hnext)
              obtain ⟨hch, hview⟩ := hstep hv
              refine ⟨_, ?_, hview, hsize⟩
              have hlt : ¬ r.fill.offset ≥ r.fill.end_ := by
                rw [hoff, hend, List.length_cons]
                omega
              simp only [HttpHeadReader.getch, hge, if_true, hv.error, hlt, ne_eq, not_true_eq_false,
                or_self, and_false, if_false, hch]

/-- An ASCII character comes as it is. -/
theorem Views.getch {r : HttpHeadReader} {f f' : Feed UInt8} {b : UInt8} (h : Views r f)
    (hb : b < 128) (hnext : f.next r.size = some (b, f')) :
    ∃ r', r.getch = ((b.toNat : Int), r') ∧ Views r' f' ∧ r'.size = r.size := by
  rw [← toInt_of_ascii hb]
  exact h.getch_char hnext

/-! ### Lines -/

theorem Views.lineLoop :
    ∀ (l : List UInt8) {r : HttpHeadReader} {f : Feed UInt8} {rest : List UInt8} (n : Nat)
      (line : List UInt8), Views r f → f.stream = l ++ 10 :: rest →
      (∀ b ∈ l, b < 128 ∧ b ≠ 10) → l.length < n →
      ∃ r', r.lineLoop n line = .ok (line ++ l.filter (· ≠ 13), r') ∧
        Views r' (f.skip r.size (l.length + 1)) ∧ r'.size = r.size := by
  intro l
  induction l with
  | nil =>
      intro r f rest n line h hs _ hn
      obtain ⟨f', hnext, -, -⟩ := Feed.next_stream h.size h.live hs
      obtain ⟨r', hget, hv, hsize⟩ := h.getch (by decide) hnext
      obtain ⟨n, rfl⟩ := Nat.exists_eq_succ_of_ne_zero (Nat.ne_of_gt hn)
      refine ⟨r', ?_, ?_, hsize⟩
      · unfold HttpHeadReader.lineLoop
        rw [hget, List.filter_nil, List.append_nil]
        rfl
      · rw [List.length_nil, Feed.skip_some hnext]
        exact hv
  | cons b l ih =>
      intro r f rest n line h hs hl hn
      obtain ⟨f', hnext, hrest, -⟩ := Feed.next_stream h.size h.live hs
      obtain ⟨hb, hne⟩ := hl b List.mem_cons_self
      obtain ⟨r₁, hget, hv, hsize⟩ := h.getch hb hnext
      obtain ⟨n, rfl⟩ := Nat.exists_eq_succ_of_ne_zero (Nat.ne_of_gt (Nat.zero_lt_of_lt hn))
      have hlen : l.length < n := Nat.lt_of_succ_lt_succ hn
      have hchar : UInt8.ofNat ((b.toNat : Int)).toNat = b := by
        rw [Int.toNat_natCast, UInt8.ofNat_toNat]
      have hpos : ¬ ((b.toNat : Int) < 0) := by omega
      unfold HttpHeadReader.lineLoop
      simp only [hget, hpos, if_false, hchar, hne]
      rw [List.length_cons, Feed.skip_some hnext, ← hsize]
      by_cases hcr : b = 13
      · obtain ⟨r', hloop, hv', hsize'⟩ :=
          ih n line hv hrest (fun c hc => hl c (List.mem_cons_of_mem b hc)) hlen
        refine ⟨r', ?_, hv', hsize'⟩
        rw [if_neg (by simp [hcr]), hloop, List.filter_cons_of_neg (by simp [hcr])]
      · obtain ⟨r', hloop, hv', hsize'⟩ :=
          ih n (line ++ [b]) hv hrest (fun c hc => hl c (List.mem_cons_of_mem b hc)) hlen
        refine ⟨r', ?_, hv', hsize'⟩
        rw [if_pos hcr, hloop, List.filter_cons_of_pos (by simp [hcr]), List.append_assoc,
          List.singleton_append]

/-- `nextLine` takes a line of the stream and its end. -/
theorem Views.takeLine {r : HttpHeadReader} {f : Feed UInt8} {l rest : List UInt8} (h : Views r f)
    (hl : ∀ b ∈ l, b < 128 ∧ b ≠ 10) (hs : f.stream = l ++ 10 :: rest) :
    ∃ r', r.nextLine = .ok (l.filter (· ≠ 13), r') ∧ Views r' (f.skip r.size (l.length + 1)) ∧
      (f.skip r.size (l.length + 1)).stream = rest ∧ r'.size = r.size := by
  have hlen : l.length < r.left + 1 := by
    rw [h.left, hs, List.length_append]
    omega
  obtain ⟨r', hloop, hv, hsize⟩ := h.lineLoop l _ [] hs hl hlen
  refine ⟨r', hloop, hv, ?_, hsize⟩
  have hs' : f.stream = (l ++ [10]) ++ rest := by rw [hs, List.append_assoc, List.singleton_append]
  have := Feed.skip_append h.size h.live hs'
  rwa [List.length_append] at this

/-- A character that a line may have. -/
def Printable (b : UInt8) : Prop := b < 128 ∧ b ≠ 0 ∧ b ≠ 10 ∧ b ≠ 13

instance (b : UInt8) : Decidable (Printable b) :=
  inferInstanceAs (Decidable (b < 128 ∧ b ≠ 0 ∧ b ≠ 10 ∧ b ≠ 13))

theorem forall_of_all {P : UInt8 → Prop} [DecidablePred P] {l : List UInt8}
    (h : l.all (fun b => P b) = true) : ∀ b ∈ l, P b :=
  fun b hb => of_decide_eq_true (List.all_eq_true.mp h b hb)

theorem filter_printable {l : List UInt8} (hl : ∀ b ∈ l, Printable b) :
    (l ++ [13]).filter (· ≠ 13) = l := by
  rw [List.filter_append, List.filter_eq_self.mpr]
  · simp
  · intro b hb
    simpa using (hl b hb).2.2.2

/-- `nextLine` takes a line and its end. -/
theorem Views.nextLine {r : HttpHeadReader} {f : Feed UInt8} {l rest : List UInt8} (h : Views r f)
    (hl : ∀ b ∈ l, Printable b) (hs : f.stream = l ++ ascii "\r\n" ++ rest) :
    ∃ r', r.nextLine = .ok (l, r') ∧
      Views r' (f.skip r.size (l ++ ascii "\r\n").length) ∧ r'.size = r.size := by
  have hs' : f.stream = (l ++ [13]) ++ 10 :: rest := by
    rw [hs]
    simp [show ascii "\r\n" = [13, 10] from rfl]
  obtain ⟨r', hline, hv, -, hsize⟩ := h.takeLine (by
    intro b hb
    rcases List.mem_append.mp hb with hb | hb
    · exact ⟨(hl b hb).1, (hl b hb).2.2.1⟩
    · rw [List.mem_singleton.mp hb]
      decide) hs'
  rw [filter_printable hl] at hline
  refine ⟨r', hline, ?_, hsize⟩
  rw [show (l ++ ascii "\r\n").length = (l ++ [13]).length + 1 by
    simp [show ascii "\r\n" = [13, 10] from rfl]]
  exact hv

end LinuxUtil.Httpd
