/-
A stream loses nothing.

`xwrite` puts everything on a descriptor that takes at least a byte a time, however
little that is.  So a stream over such a descriptor is, call by call, the stream of
`Httpd/Client.lean`, whose socket takes everything at once: `abs` forgets what is between
the stream and the descriptor.  There a call adds its bytes to what has been written.
-/
import LinuxUtil.Httpd.Stream
import LinuxUtil.Proofs.Httpd.Render

namespace LinuxUtil.Httpd

open ByteMem

/-! ### Descriptors -/

namespace Sink

/-- Every call takes a byte at least. -/
def Willing (fd : Sink) : Prop := ∀ k, 0 < fd.answer k

theorem write_spec (fd : Sink) (buf : List UInt8) :
    (fd.write buf).2.answer = fd.answer ∧
      ((fd.answer fd.calls ≤ 0 ∧ (fd.write buf).1 = fd.answer fd.calls ∧ (fd.write buf).2.got = fd.got)
        ∨ ∃ len, 0 < fd.answer fd.calls ∧ len = min (fd.answer fd.calls).toNat buf.length ∧
          (fd.write buf).1 = len ∧ (fd.write buf).2.got = fd.got ++ buf.take len) := by
  unfold write
  by_cases h : fd.answer fd.calls ≤ 0
  · simp only [h, if_true]
    exact ⟨trivial, .inl ⟨trivial, trivial, trivial⟩⟩
  · simp only [h, if_false]
    exact ⟨trivial, .inr ⟨_, Int.not_le.mp h, rfl, rfl, rfl⟩⟩

/-- A round of the loop is one call of `write` for all that is left. -/
theorem xwriteLoop_round {buf : List UInt8} (n : Nat) (fd : Sink) {written : Nat}
    (hlt : written < buf.length) :
    xwriteLoop buf (n + 1) fd written =
      if (fd.write (buf.drop written)).1 ≤ 0 then
        (if written = 0 then (fd.write (buf.drop written)).1 else written,
          (fd.write (buf.drop written)).2)
      else xwriteLoop buf n (fd.write (buf.drop written)).2
        (written + (fd.write (buf.drop written)).1.toNat) := by
  rw [xwriteLoop]
  simp only [hlt, if_true]

/-- The loop puts some bytes on the descriptor and says how many; on a willing one, all. -/
theorem xwriteLoop_spec (buf : List UInt8) :
    ∀ (n : Nat) (fd : Sink) (written : Nat), written ≤ buf.length →
      ∃ k, written + k ≤ buf.length ∧
        (xwriteLoop buf n fd written).2.got = fd.got ++ (buf.drop written).take k ∧
        (xwriteLoop buf n fd written).2.answer = fd.answer ∧
        ((xwriteLoop buf n fd written).1 = (written + k : Nat) ∨
          written + k = 0 ∧ (xwriteLoop buf n fd written).1 ≤ 0) ∧
        (fd.Willing → buf.length - written < n → written + k = buf.length) := by
  intro n
  induction n with
  | zero =>
      intro fd written hle
      exact ⟨0, hle, (List.append_nil _).symm, rfl, .inl rfl, fun _ h => absurd h (Nat.not_lt_zero _)⟩
  | succ n ih =>
      intro fd written hle
      by_cases hlt : written < buf.length
      · have hloop := xwriteLoop_round n fd hlt
        obtain ⟨hanswer, ⟨hneg, hret, hgot⟩ | ⟨len, hpos, hlen, hret, hgot⟩⟩ :=
          fd.write_spec (buf.drop written)
        · have hle0 : (fd.write (buf.drop written)).1 ≤ 0 := by rw [hret]; exact hneg
          rw [hloop, if_pos hle0]
          refine ⟨0, hle, by rw [hgot, List.take_zero, List.append_nil], hanswer, ?_, fun hw => ?_⟩
          · by_cases h0 : written = 0
            · rw [if_pos h0]
              exact .inr ⟨h0, hle0⟩
            · rw [if_neg h0]
              exact .inl rfl
          · exact absurd (hw fd.calls) (Int.not_lt.mpr hneg)
        · have hlen0 : 0 < len ∧ written + len ≤ buf.length := by
            rw [List.length_drop] at hlen
            omega
          rw [hloop, if_neg (by rw [hret]; omega), hret, Int.toNat_natCast]
          obtain ⟨k, hk, hgot', hanswer', hret', hall⟩ := ih (fd.write (buf.drop written)).2
            (written + len) hlen0.2
          refine ⟨len + k, by omega, ?_, hanswer'.trans hanswer, ?_, fun hw hn => ?_⟩
          · rw [hgot', hgot, List.append_assoc, List.take_add, List.drop_drop]
          · rcases hret' with h | ⟨h, -⟩
            · rw [h, Nat.add_assoc]
              exact .inl rfl
            · omega
          · have := hall (fun j => by rw [hanswer]; exact hw j) (by omega)
            omega
      · have hloop : xwriteLoop buf (n + 1) fd written = ((written : Int), fd) := by
          rw [xwriteLoop, if_neg hlt]
        rw [hloop]
        exact ⟨0, hle, (List.append_nil _).symm, rfl, .inl rfl, fun _ _ => by omega⟩

/-- What a call of `xwrite` puts on the descriptor is the front of what it was given. -/
theorem xwrite_spec (fd : Sink) (buf : List UInt8) :
    ∃ k ≤ buf.length, (fd.xwrite buf).2.got = fd.got ++ buf.take k ∧
      ((fd.xwrite buf).1 = k ∨ k = 0 ∧ (fd.xwrite buf).1 ≤ 0) := by
  obtain ⟨k, hk, hgot, -, hret, -⟩ := xwriteLoop_spec buf (buf.length + 1) fd 0 (Nat.zero_le _)
  simp only [Nat.zero_add, List.drop_zero] at hk hgot hret
  exact ⟨k, hk, hgot, hret⟩

/-- A willing descriptor takes all of it. -/
theorem xwrite_willing {fd : Sink} (h : fd.Willing) (buf : List UInt8) :
    (fd.xwrite buf).2.got = fd.got ++ buf ∧ (fd.xwrite buf).2.Willing := by
  obtain ⟨k, -, hgot, hanswer, -, hall⟩ :=
    xwriteLoop_spec buf (buf.length + 1) fd 0 (Nat.zero_le _)
  have hk : k = buf.length := by
    have := hall h (by omega)
    omega
  refine ⟨?_, fun j => ?_⟩
  · unfold xwrite
    rw [hgot, hk, List.drop_zero, List.take_length]
  · unfold xwrite
    rw [hanswer]
    exact h j

end Sink

/-! ### Streams -/

namespace Wire.SocketStream

variable {s : SocketStream}

/-- The stream as its own code sees it: the socket was given so much. -/
def abs (s : SocketStream) : Httpd.SocketStream := ⟨s.buffer, s.offset, s.bufferSize, s.socket.got⟩

theorem flush_abs (h : s.socket.Willing) : s.flush.abs = s.abs.flush ∧ s.flush.socket.Willing := by
  obtain ⟨hgot, hw⟩ := Sink.xwrite_willing h (read s.buffer 0 s.offset)
  unfold flush Httpd.SocketStream.flush
  by_cases h0 : s.offset = 0
  · simp only [abs, h0, ne_eq, not_true, if_false]
    exact ⟨trivial, h⟩
  · simp only [abs, h0, ne_eq, not_false_iff, if_true]
    exact ⟨by rw [hgot], hw⟩

/-- The place a write makes for itself. -/
theorem room_abs (h : s.socket.Willing) (n : Nat) :
    (if s.offset + n > s.bufferSize then s.flush else s).abs = s.abs.room n ∧
      (if s.offset + n > s.bufferSize then s.flush else s).socket.Willing := by
  unfold Httpd.SocketStream.room
  by_cases hn : s.offset + n > s.bufferSize
  · rw [if_pos hn, if_pos (show s.abs.offset + n > s.abs.bufferSize from hn)]
    exact flush_abs h
  · rw [if_neg hn, if_neg (show ¬ s.abs.offset + n > s.abs.bufferSize from hn)]
    exact ⟨rfl, h⟩

theorem write_abs (h : s.socket.Willing) (src : List UInt8) :
    (s.write src).abs = s.abs.write src ∧ (s.write src).socket.Willing := by
  obtain ⟨habs, hw⟩ := room_abs h src.length
  rw [Httpd.SocketStream.write_eq, ← habs]
  unfold write
  generalize (if s.offset + src.length > s.bufferSize then s.flush else s) = s₁ at hw
  obtain ⟨hgot, hw'⟩ := Sink.xwrite_willing hw src
  by_cases hsrc : src.length > s₁.bufferSize
  · simp only [abs, hsrc, if_true]
    exact ⟨by rw [hgot], hw'⟩
  · simp only [abs, hsrc, if_false]
    exact ⟨trivial, hw⟩

theorem forwardLoop_abs :
    ∀ (n : Nat) (fd : Socket) {s : SocketStream}, s.socket.Willing →
      (forwardLoop n fd s).abs = s.abs.forwardLoop n fd ∧ (forwardLoop n fd s).socket.Willing := by
  intro n
  induction n with
  | zero =>
      intro fd s h
      exact ⟨rfl, h⟩
  | succ n ih =>
      intro fd s h
      unfold forwardLoop Httpd.SocketStream.forwardLoop
      rw [show s.abs.bufferSize = s.bufferSize from rfl]
      cases hr : fd.read s.bufferSize with
      | mk res fd' =>
          cases res with
          | error e => exact ⟨rfl, h⟩
          | ok bs =>
              cases bs with
              | nil => exact ⟨rfl, h⟩
              | cons c cs =>
                  obtain ⟨habs, hw⟩ := flush_abs (s := { s with
                    buffer := ByteMem.write s.buffer 0 (c :: cs), offset := (c :: cs).length }) h
                  have := ih fd' hw
                  rw [habs] at this
                  exact this

theorem forward_abs (h : s.socket.Willing) (fd : Socket) :
    (s.forward fd).abs = s.abs.forward fd ∧ (s.forward fd).socket.Willing := by
  obtain ⟨habs, hw⟩ := flush_abs h
  unfold forward Httpd.SocketStream.forward
  rw [← habs]
  exact forwardLoop_abs _ fd hw

/-- The same call, on the stream as its own code sees it. -/
def Call.onAbs : Call → Httpd.SocketStream → Httpd.SocketStream
  | .write src, s => s.write src
  | .putVec vec, s => s.write vec
  | .putStr str, s => s.putStr str
  | .putSize length, s => s.putSize length
  | .flush, s => s.flush
  | .forward fd, s => s.forward fd

/-- **Short writes do not show**: on a willing descriptor a call does what it does on a socket that
takes everything at once. -/
theorem step_abs (h : s.socket.Willing) (call : Call) :
    (s.step call).abs = call.onAbs s.abs ∧ (s.step call).socket.Willing := by
  cases call with
  | write src => exact write_abs h src
  | putVec vec => exact write_abs h vec
  | putStr str => exact write_abs h (cstring str)
  | putSize length => exact write_abs h (snprintf_zu length)
  | flush => exact flush_abs h
  | forward fd => exact forward_abs h fd

/-! ### Calls -/

end Wire.SocketStream

namespace SocketStream

theorem write_offset (s : SocketStream) (src : List UInt8) :
    (s.write src).offset ≤ s.bufferSize := by
  rw [write_eq]
  unfold room
  by_cases hfull : s.offset + src.length > s.bufferSize
  · rw [if_pos hfull, flush_eq]
    by_cases hsrc : src.length > s.bufferSize
    · simp only [hsrc, if_true]
      exact Nat.zero_le _
    · simp only [hsrc, if_false]
      omega
  · rw [if_neg hfull]
    by_cases hsrc : src.length > s.bufferSize
    · omega
    · simp only [hsrc, if_false]
      omega

/-- Every round of the loop ends in a flush. -/
theorem forwardLoop_empty :
    ∀ (n : Nat) (fd : Socket) {s : SocketStream}, s.offset = 0 →
      (forwardLoop n fd s).offset = 0 ∧ (forwardLoop n fd s).bufferSize = s.bufferSize := by
  intro n
  induction n with
  | zero =>
      intro fd s h
      exact ⟨h, rfl⟩
  | succ n ih =>
      intro fd s h
      unfold forwardLoop
      cases fd.read s.bufferSize with
      | mk res fd' =>
          cases res with
          | error e => exact ⟨h, rfl⟩
          | ok bs =>
              cases bs with
              | nil => exact ⟨h, rfl⟩
              | cons c cs =>
                  have hflush : ∀ s : SocketStream, s.flush.offset = 0 := fun s => by rw [flush_eq]
                  obtain ⟨hoff, hsize⟩ := ih fd' (hflush { s with
                    buffer := ByteMem.write s.buffer 0 (c :: cs), offset := (c :: cs).length })
                  exact ⟨hoff, hsize.trans (flush_bufferSize _)⟩

end SocketStream

namespace Wire.SocketStream

variable {s : SocketStream}

/-- What a call puts on the stream. -/
def Call.data : Call → List UInt8
  | .write src => src
  | .putVec vec => vec
  | .putStr str => cstring str
  | .putSize length => snprintf_zu length
  | .flush => []
  | .forward fd => fd.readable

/-- To forward a file takes a buffer. -/
def Call.Fits (bufferSize : Nat) : Call → Prop
  | .forward _ => 1 ≤ bufferSize
  | _ => True

/-- What a call leaves of a stream: its bytes are added, and what is pending fits. -/
theorem Call.onAbs_spec (call : Call) {s : Httpd.SocketStream} (hfits : call.Fits s.bufferSize) :
    (call.onAbs s).written = s.written ++ call.data ∧
      (call.onAbs s).bufferSize = s.bufferSize ∧ (call.onAbs s).offset ≤ s.bufferSize := by
  cases call with
  | write src => exact ⟨s.write_written src, s.write_bufferSize src, s.write_offset src⟩
  | putVec vec => exact ⟨s.write_written vec, s.write_bufferSize vec, s.write_offset vec⟩
  | putStr str => exact ⟨s.putStr_written str, s.putStr_bufferSize str, s.write_offset (cstring str)⟩
  | putSize length =>
      exact ⟨s.putSize_written length, s.putSize_bufferSize length,
        s.write_offset (snprintf_zu length)⟩
  | flush =>
      refine ⟨by rw [Call.data, List.append_nil]; exact s.flush_written, s.flush_bufferSize, ?_⟩
      simp only [onAbs, Httpd.SocketStream.flush_eq]
      exact Nat.zero_le _
  | forward fd =>
      have h0 : s.flush.offset = 0 := by rw [Httpd.SocketStream.flush_eq]
      obtain ⟨hoff, hsize⟩ :=
        Httpd.SocketStream.forwardLoop_empty (fd.bytes.length + 1) fd h0
      refine ⟨Httpd.SocketStream.forward_readable hfits fd, hsize.trans s.flush_bufferSize, ?_⟩
      exact hoff.trans_le (Nat.zero_le _)

/-- What waits in the buffer. -/
def pending (s : SocketStream) : List UInt8 := read s.buffer 0 s.offset

/-- The stream has been given `data`, and has room for what waits. -/
structure Carries (s : SocketStream) (size : Nat) (data : List UInt8) : Prop where
  willing : s.socket.Willing
  size_eq : s.bufferSize = size
  pending_le : s.offset ≤ size
  bytes : s.socket.got ++ s.pending = data

theorem Carries.step {size : Nat} {data : List UInt8} (h : s.Carries size data) {call : Call}
    (hfits : call.Fits size) : (s.step call).Carries size (data ++ call.data) := by
  obtain ⟨habs, hw⟩ := step_abs h.willing call
  obtain ⟨hwritten, hsize, hoff⟩ := call.onAbs_spec (s := s.abs) (by rw [abs, h.size_eq]; exact hfits)
  rw [← habs] at hwritten hsize hoff
  have hs : s.abs.bufferSize = size := h.size_eq
  exact ⟨hw, hsize.trans hs, hoff.trans_eq hs, hwritten.trans (by rw [← h.bytes]; rfl)⟩

theorem Carries.run {size : Nat} :
    ∀ {calls : List Call} {s : SocketStream} {data : List UInt8}, s.Carries size data →
      (∀ call ∈ calls, call.Fits size) →
      (s.run calls).Carries size (data ++ calls.flatMap Call.data) := by
  intro calls
  induction calls with
  | nil =>
      intro s data h _
      rw [List.flatMap_nil, List.append_nil]
      exact h
  | cons call calls ih =>
      intro s data h hfits
      rw [List.flatMap_cons, ← List.append_assoc]
      exact ih (h.step (hfits call List.mem_cons_self))
        fun c hc => hfits c (List.mem_cons_of_mem call hc)

theorem Carries.flush {size : Nat} {data : List UInt8} (h : s.Carries size data) :
    s.flush.offset = 0 ∧ s.flush.socket.got = data := by
  have hempty : s.flush.offset = 0 := by
    unfold SocketStream.flush
    by_cases h0 : s.offset = 0
    · rw [if_neg (not_not.mpr h0)]
      exact h0
    · rw [if_pos h0]
  have hbytes := (h.step (show Call.flush.Fits size from trivial)).bytes
  rw [Call.data, List.append_nil] at hbytes
  refine ⟨hempty, ?_⟩
  rw [← hbytes]
  show s.flush.socket.got = s.flush.socket.got ++ s.flush.pending
  rw [pending, hempty, read_zero, List.append_nil]

/-- **A stream preserves its bytes.**  After any calls, what the descriptor got and what waits in
the buffer are the bytes of the calls in their order, what waits fits into the buffer, and a flush
or the destructor sends it. -/
theorem run_preserves {socket : Sink} (hsocket : socket.Willing) (buffer : Mem) (size : Nat)
    {calls : List Call} (hfits : ∀ call ∈ calls, call.Fits size) :
    let s := (create socket buffer size).run calls
    s.socket.got ++ s.pending = socket.got ++ calls.flatMap Call.data ∧ s.offset ≤ size ∧
      (s.flush.offset = 0 ∧ s.flush.socket.got = socket.got ++ calls.flatMap Call.data) ∧
      (s.destroy.offset = 0 ∧ s.destroy.socket.got = socket.got ++ calls.flatMap Call.data) := by
  have hstart : (create socket buffer size).Carries size socket.got :=
    ⟨hsocket, rfl, Nat.zero_le _, List.append_nil _⟩
  have h := hstart.run hfits
  exact ⟨h.bytes, h.pending_le, h.flush, h.flush⟩

/-- A descriptor that takes three bytes a time. -/
def threeSink : Sink := ⟨[], 0, fun _ => 3⟩

/-- Short and long writes over a buffer of four bytes, and a file in two pieces. -/
def mixedCalls : List Call :=
  [.putStr (ascii "foo "), .putSize 12345678, .write (ascii "bar"), .flush,
    .forward [.bytes (ascii "abcdef"), .bytes (ascii "g")], .putVec (ascii "hi")]

theorem run_preserves_mixed :
    let s := (create threeSink (fun _ => 0) 4).run mixedCalls
    s.socket.got ++ s.pending = [] ++ mixedCalls.flatMap Call.data ∧ s.offset ≤ 4 ∧
      (s.flush.offset = 0 ∧ s.flush.socket.got = [] ++ mixedCalls.flatMap Call.data) ∧
      (s.destroy.offset = 0 ∧ s.destroy.socket.got = [] ++ mixedCalls.flatMap Call.data) := by
  have hfits : ∀ call ∈ mixedCalls, call.Fits 4 := by simp [mixedCalls, Call.Fits]
  exact run_preserves (fun _ => Int.natCast_pos.mpr (by decide)) (fun _ => 0) 4 hfits

end Wire.SocketStream

end LinuxUtil.Httpd
