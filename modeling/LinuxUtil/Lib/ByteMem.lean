/-
Byte-addressed memory, and what reading sees of writing.

A memory is a function from addresses to bytes.  C code that lays structures out
in a buffer is modelled by four operations on it: `read` and `write` move a run of
bytes, `fill` is `memset`, `copy` is `memcpy`.  Multi-byte integers are little
endian, `load` and `store`, built on the first two.

Every proof about such code comes down to one of two questions.  Does a read see
the last write to its range?  `read_write_self` and `load_store_self` say it does.
Does a write somewhere else leave it alone?  `read_congr` reduces that to the two
memories agreeing on the range, and `write_apply_of_out` and its companions give
the agreement from the ranges being apart.

`put` is a whole C structure assigned field by field.  Its one fact, `read_put`,
is that a structure whose fields do not overlap reads back as it was assigned,
whatever the order of the assignments.
-/
import Mathlib.Algebra.GroupWithZero.Nat
import Mathlib.Tactic.Common
import Mathlib.Data.List.Basic

namespace ByteMem

/-- Every address holds one byte. -/
abbrev Mem := Nat → UInt8

/-- The `n` bytes from `a` on. -/
def read (m : Mem) (a n : Nat) : List UInt8 :=
  (List.range n).map fun i => m (a + i)

/-- Put `bs` at `a`. -/
def write (m : Mem) (a : Nat) (bs : List UInt8) : Mem :=
  fun x => if a ≤ x ∧ x < a + bs.length then bs.getD (x - a) 0 else m x

/-- `memset`: the `n` bytes from `a` on become `b`. -/
def fill (m : Mem) (a n : Nat) (b : UInt8) : Mem :=
  fun x => if a ≤ x ∧ x < a + n then b else m x

/-- `memcpy`: the `n` bytes from `src` on are put at `dst`. -/
def copy (m : Mem) (dst src n : Nat) : Mem :=
  fun x => if dst ≤ x ∧ x < dst + n then m (src + (x - dst)) else m x

/-- The `w` low bytes of `v`, the lowest first. -/
def leBytes : Nat → Nat → List UInt8
  | 0, _ => []
  | w + 1, v => UInt8.ofNat v :: leBytes w (v / 256)

/-- The number a little-endian byte string stands for. -/
def leNat : List UInt8 → Nat
  | [] => 0
  | b :: bs => b.toNat + 256 * leNat bs

/-- The `w`-byte little-endian integer at `a`. -/
def load (m : Mem) (a w : Nat) : Nat :=
  leNat (read m a w)

/-- Store the `w` low bytes of `v` at `a`. -/
def store (m : Mem) (a w v : Nat) : Mem :=
  write m a (leBytes w v)

/-! ### Reading -/

@[simp] theorem length_read (m : Mem) (a n : Nat) : (read m a n).length = n := by
  simp [read]

@[simp] theorem read_zero (m : Mem) (a : Nat) : read m a 0 = [] := rfl

theorem getElem?_read (m : Mem) (a n i : Nat) :
    (read m a n)[i]? = if i < n then some (m (a + i)) else none := by
  by_cases h : i < n
  · simp [read, h]
  · simp [read, h]

@[simp] theorem getElem_read (m : Mem) (a n i : Nat) (h : i < (read m a n).length) :
    (read m a n)[i] = m (a + i) := by
  simp [read]

theorem read_succ (m : Mem) (a n : Nat) : read m a (n + 1) = m a :: read m (a + 1) n := by
  apply List.ext_getElem?
  intro i
  cases i with
  | zero => simp
  | succ i =>
      rw [List.getElem?_cons_succ, getElem?_read, getElem?_read,
        show a + (i + 1) = a + 1 + i by omega]
      simp

theorem read_add (m : Mem) (a n k : Nat) :
    read m a (n + k) = read m a n ++ read m (a + n) k := by
  induction n generalizing a with
  | zero => simp
  | succ n ih =>
      rw [show n + 1 + k = (n + k) + 1 by omega, read_succ, read_succ, ih,
        show a + 1 + n = a + (n + 1) by omega, List.cons_append]

theorem take_read (m : Mem) (a n k : Nat) (h : k ≤ n) : (read m a n).take k = read m a k := by
  obtain ⟨d, rfl⟩ := Nat.exists_eq_add_of_le h
  rw [read_add, List.take_append_of_le_length (by simp), List.take_of_length_le (by simp)]

/-- A part of a run of bytes is a read of its own. -/
theorem read_part (m : Mem) (a n : Nat) {k w : Nat} (h : k + w ≤ n) :
    read m (a + k) w = ((read m a n).drop k).take w := by
  obtain ⟨d, rfl⟩ := Nat.exists_eq_add_of_le h
  rw [Nat.add_assoc, read_add, List.drop_append_of_le_length (by simp),
    List.drop_of_length_le (by simp), List.nil_append, take_read _ _ _ _ (Nat.le_add_right _ _)]

/-- Two runs that agree byte by byte, wherever they are. -/
theorem read_shift {m m' : Mem} {a b n : Nat} (h : ∀ i, i < n → m (a + i) = m' (b + i)) :
    read m a n = read m' b n := by
  apply List.ext_getElem?
  intro i
  rw [getElem?_read, getElem?_read]
  by_cases hi : i < n
  · rw [if_pos hi, if_pos hi, h i hi]
  · rw [if_neg hi, if_neg hi]

theorem eq_of_read {m m' : Mem} {a b n i : Nat} (h : read m a n = read m' b n) (hi : i < n) :
    m (a + i) = m' (b + i) := by
  have hget := congrArg (·[i]?) h
  simp only [getElem?_read, if_pos hi] at hget
  exact Option.some.inj hget

theorem load_shift {m m' : Mem} {a b w : Nat} (h : ∀ i, i < w → m (a + i) = m' (b + i)) :
    load m a w = load m' b w := by
  unfold load
  rw [read_shift h]

/-- A read depends on its own range only. -/
theorem read_congr {m m' : Mem} {a n : Nat} (h : ∀ x, a ≤ x → x < a + n → m x = m' x) :
    read m a n = read m' a n :=
  read_shift fun i hi => h (a + i) (by omega) (by omega)

theorem read_zeros {m : Mem} {a n : Nat} (h : ∀ x, a ≤ x → x < a + n → m x = 0) :
    read m a n = List.replicate n 0 := by
  induction n generalizing a with
  | zero => rfl
  | succ n ih =>
      rw [read_succ, h a (by omega) (by omega), ih fun x h1 h2 => h x (by omega) (by omega),
        List.replicate_succ]

/-- Two memories read the same exactly if they have the same bytes there. -/
theorem read_eq_iff {m m' : Mem} {a n : Nat} :
    read m a n = read m' a n ↔ ∀ k, k < n → m (a + k) = m' (a + k) := by
  constructor
  · intro h k hk
    have hget := congrArg (fun l => l[k]?) h
    simpa [getElem?_read, hk] using hget
  · exact read_shift

theorem load_congr {m n : Mem} {a w : Nat} (h : ∀ x, a ≤ x → x < a + w → m x = n x) :
    load m a w = load n a w := by
  unfold load
  rw [read_congr h]

/-! ### Writing -/

theorem write_apply_of_out (m : Mem) (a : Nat) (bs : List UInt8) {x : Nat}
    (h : x < a ∨ a + bs.length ≤ x) : write m a bs x = m x := by
  unfold write
  rw [if_neg (by omega)]

theorem write_apply_of_in (m : Mem) (a : Nat) (bs : List UInt8) {i : Nat} (h : i < bs.length) :
    write m a bs (a + i) = bs[i] := by
  unfold write
  rw [if_pos (by omega), show a + i - a = i by omega]
  simp [h]

@[simp] theorem write_nil (m : Mem) (a : Nat) : write m a [] = m := by
  funext x
  exact write_apply_of_out m a [] (by simp; omega)

/-- Two runs written one behind the other. -/
theorem write_append (m : Mem) (a : Nat) (bs cs : List UInt8) :
    write m a (bs ++ cs) = write (write m a bs) (a + bs.length) cs := by
  funext x
  by_cases h1 : a ≤ x ∧ x < a + bs.length
  · obtain ⟨i, rfl⟩ := Nat.exists_eq_add_of_le h1.1
    rw [write_apply_of_in _ _ _ (by simp; omega), write_apply_of_out _ _ _ (Or.inl (by omega)),
      write_apply_of_in _ _ _ (by omega), List.getElem_append_left (by omega)]
  · by_cases h2 : a + bs.length ≤ x ∧ x < a + bs.length + cs.length
    · obtain ⟨i, rfl⟩ := Nat.exists_eq_add_of_le h2.1
      rw [Nat.add_assoc a, write_apply_of_in _ _ _ (by simp; omega), ← Nat.add_assoc,
        write_apply_of_in _ _ _ (by omega), List.getElem_append_right (by omega)]
      congr 1
      omega
    · rw [write_apply_of_out _ _ _ (by simp; omega), write_apply_of_out _ _ _ (by omega),
        write_apply_of_out _ _ _ (by omega)]

@[simp] theorem read_write_self (m : Mem) (a : Nat) (bs : List UInt8) :
    read (write m a bs) a bs.length = bs := by
  apply List.ext_getElem?
  intro i
  rw [getElem?_read]
  by_cases hi : i < bs.length
  · rw [if_pos hi, write_apply_of_in m a bs hi, List.getElem?_eq_getElem hi]
  · rw [if_neg hi, List.getElem?_eq_none (by omega)]

theorem read_write_of_length {m : Mem} {a n : Nat} {bs : List UInt8} (h : bs.length = n) :
    read (write m a bs) a n = bs := by
  subst h
  exact read_write_self m a bs

theorem read_write_of_apart (m : Mem) (a : Nat) (bs : List UInt8) {b n : Nat}
    (h : b + n ≤ a ∨ a + bs.length ≤ b) : read (write m a bs) b n = read m b n :=
  read_congr fun _ _ _ => write_apply_of_out m a bs (by omega)

/-- What is written over zeros reads back with zeros behind it, or cut off. -/
theorem read_write_zeros {m : Mem} {a n : Nat} (hzero : ∀ x, a ≤ x → x < a + n → m x = 0)
    (bs : List UInt8) :
    read (write m a bs) a n = bs.take n ++ List.replicate (n - bs.length) 0 := by
  rcases Nat.le_total n bs.length with hle | hle
  · rw [← take_read _ a bs.length n hle, read_write_self, Nat.sub_eq_zero_of_le hle,
      List.replicate_zero, List.append_nil]
  · obtain ⟨d, rfl⟩ := Nat.exists_eq_add_of_le hle
    rw [read_add, read_write_self, List.take_of_length_le hle, Nat.add_sub_cancel_left]
    congr 1
    refine read_zeros fun x h1 h2 => ?_
    rw [write_apply_of_out _ _ _ (Or.inr h1)]
    exact hzero x (by omega) (by omega)

theorem fill_apply_of_out (m : Mem) (a n : Nat) (b : UInt8) {x : Nat}
    (h : x < a ∨ a + n ≤ x) : fill m a n b x = m x := by
  unfold fill
  rw [if_neg (by omega)]

theorem fill_apply_of_in (m : Mem) (a n : Nat) (b : UInt8) {x : Nat}
    (h : a ≤ x) (h' : x < a + n) : fill m a n b x = b := by
  unfold fill
  rw [if_pos ⟨h, h'⟩]

theorem copy_apply_of_out (m : Mem) (dst src n : Nat) {x : Nat}
    (h : x < dst ∨ dst + n ≤ x) : copy m dst src n x = m x := by
  unfold copy
  rw [if_neg (by omega)]

theorem copy_apply_of_in (m : Mem) (dst src n : Nat) {i : Nat} (h : i < n) :
    copy m dst src n (dst + i) = m (src + i) := by
  unfold copy
  rw [if_pos (by omega), show dst + i - dst = i by omega]

/-! ### Little-endian integers -/

@[simp] theorem length_leBytes (w v : Nat) : (leBytes w v).length = w := by
  induction w generalizing v with
  | zero => rfl
  | succ w ih => simp [leBytes, ih]

theorem leNat_leBytes (w v : Nat) : leNat (leBytes w v) = v % 256 ^ w := by
  induction w generalizing v with
  | zero => simp [leBytes, leNat, Nat.mod_one]
  | succ w ih =>
      simp only [leBytes, leNat, ih]
      rw [Nat.pow_succ', Nat.mod_mul]
      simp

theorem leNat_lt (bs : List UInt8) : leNat bs < 256 ^ bs.length := by
  induction bs with
  | nil => simp [leNat]
  | cons b bs ih =>
      have hb : b.toNat < 256 := b.toNat_lt
      simp only [leNat, List.length_cons, Nat.pow_succ]
      omega

theorem leBytes_leNat (bytes : List UInt8) : leBytes bytes.length (leNat bytes) = bytes := by
  induction bytes with
  | nil => rfl
  | cons b bytes ih =>
      have hb : b.toNat < 256 := b.toNat_lt
      have hlow : (b.toNat + 256 * leNat bytes) % 256 = b.toNat := by omega
      have hhigh : (b.toNat + 256 * leNat bytes) / 256 = leNat bytes := by omega
      have hbyte : UInt8.ofNat (b.toNat + 256 * leNat bytes) = b := UInt8.toNat_inj.mp hlow
      simp only [List.length_cons, leBytes, leNat]
      rw [hhigh, ih, hbyte]

theorem load_lt (m : Mem) (a w : Nat) : load m a w < 256 ^ w := by
  have := leNat_lt (read m a w)
  rwa [length_read] at this

theorem load_store_self (m : Mem) (a w v : Nat) : load (store m a w v) a w = v % 256 ^ w := by
  unfold load store
  rw [read_write_of_length (length_leBytes w v), leNat_leBytes]

theorem store_apply_of_out (m : Mem) (a w v : Nat) {x : Nat} (h : x < a ∨ a + w ≤ x) :
    store m a w v x = m x :=
  write_apply_of_out _ _ _ (by simpa using h)

theorem read_store_of_apart (m : Mem) (a w v : Nat) {b n : Nat}
    (h : b + n ≤ a ∨ a + w ≤ b) : read (store m a w v) b n = read m b n :=
  read_congr fun _ _ _ => store_apply_of_out m a w v (by omega)

theorem load_store_of_apart (m : Mem) (a w v : Nat) {b k : Nat}
    (h : b + k ≤ a ∨ a + w ≤ b) : load (store m a w v) b k = load m b k :=
  load_congr fun _ _ _ => store_apply_of_out m a w v (by omega)

/-- A zeroed range loads as zero. -/
theorem load_eq_zero {m : Mem} {a w : Nat} (h : ∀ x, a ≤ x → x < a + w → m x = 0) :
    load m a w = 0 := by
  unfold load
  induction w generalizing a with
  | zero => rfl
  | succ w ih =>
      rw [read_succ, leNat, h a (by omega) (by omega),
        ih fun x h1 h2 => h x (by omega) (by omega)]
      rfl

/-! ### Structures -/

/-- One field of a structure: where it lies, and its bytes. -/
structure Field where
  off : Nat
  bytes : List UInt8

/-- An integer field of `w` bytes. -/
def Field.int (off w v : Nat) : Field := ⟨off, leBytes w v⟩

/-- Assign the fields of the structure at `base`, one after the other. -/
def put (m : Mem) (base : Nat) (fs : List Field) : Mem :=
  fs.foldl (fun m f => write m (base + f.off) f.bytes) m

/-- Two fields share no byte. -/
def Field.Apart (f g : Field) : Prop :=
  f.off + f.bytes.length ≤ g.off ∨ g.off + g.bytes.length ≤ f.off

theorem put_apply_of_out (m : Mem) (base : Nat) (fs : List Field) {x : Nat}
    (h : ∀ f ∈ fs, x < base + f.off ∨ base + f.off + f.bytes.length ≤ x) :
    put m base fs x = m x := by
  unfold put
  induction fs generalizing m with
  | nil => rfl
  | cons f fs ih =>
      rw [List.foldl_cons, ih _ fun g hg => h g (List.mem_cons_of_mem f hg)]
      exact write_apply_of_out _ _ _ (h f List.mem_cons_self)

/-- A byte after an assignment depends on that byte before it only. -/
theorem put_congr {m m' : Mem} (base : Nat) (fs : List Field) {x : Nat} (h : m x = m' x) :
    put m base fs x = put m' base fs x := by
  unfold put
  induction fs generalizing m m' with
  | nil => exact h
  | cons f fs ih =>
      rw [List.foldl_cons, List.foldl_cons]
      refine ih ?_
      unfold write
      split
      · rfl
      · exact h

/-- A byte of a field does not depend on the memory before. -/
theorem put_apply_of_in (m m' : Mem) (base : Nat) (fs : List Field) {x : Nat}
    (h : ∃ f ∈ fs, base + f.off ≤ x ∧ x < base + f.off + f.bytes.length) :
    put m base fs x = put m' base fs x := by
  induction fs generalizing m m' with
  | nil =>
      obtain ⟨f, hf, -⟩ := h
      cases hf
  | cons f fs ih =>
      obtain ⟨f', hf', hlo, hhi⟩ := h
      rcases List.mem_cons.mp hf' with rfl | hf'
      · refine put_congr base fs ?_
        show write m _ _ x = write m' _ _ x
        unfold write
        rw [if_pos ⟨hlo, hhi⟩, if_pos ⟨hlo, hhi⟩]
      · exact ih _ _ ⟨f', hf', hlo, hhi⟩

/-- Assigning a structure has the same effect on the bytes of every place it is put at. -/
theorem put_shift (m m' : Mem) (a b : Nat) (fs : List Field) {k : Nat}
    (h : m (a + k) = m' (b + k)) : put m a fs (a + k) = put m' b fs (b + k) := by
  unfold put
  induction fs generalizing m m' with
  | nil => exact h
  | cons f fs ih =>
      rw [List.foldl_cons, List.foldl_cons]
      refine ih _ _ ?_
      unfold write
      by_cases hin : f.off ≤ k ∧ k < f.off + f.bytes.length
      · rw [if_pos (by omega), if_pos (by omega), show a + k - (a + f.off) = k - f.off by omega,
          show b + k - (b + f.off) = k - f.off by omega]
      · rw [if_neg (by omega), if_neg (by omega), h]

/-- The fields lie in this order between `lo` and `hi`, none overlapping the next. -/
def Packed : Nat → List Field → Nat → Prop
  | lo, [], hi => lo ≤ hi
  | lo, f :: fs, hi => lo ≤ f.off ∧ Packed (f.off + f.bytes.length) fs hi

theorem Packed.le {lo hi : Nat} {fs : List Field} (h : Packed lo fs hi) : lo ≤ hi := by
  induction fs generalizing lo with
  | nil => exact h
  | cons f fs ih =>
      have := ih h.2
      have := h.1
      omega

theorem Packed.bounds {lo hi : Nat} {fs : List Field} (h : Packed lo fs hi) :
    ∀ f ∈ fs, lo ≤ f.off ∧ f.off + f.bytes.length ≤ hi := by
  induction fs generalizing lo with
  | nil => simp
  | cons g fs ih =>
      intro f hf
      rcases List.mem_cons.mp hf with rfl | hf
      · exact ⟨h.1, h.2.le⟩
      · have := ih h.2 f hf
        have := h.1
        omega

theorem Packed.apart {lo hi : Nat} {fs : List Field} (h : Packed lo fs hi) :
    fs.Pairwise Field.Apart := by
  induction fs generalizing lo with
  | nil => exact List.Pairwise.nil
  | cons f fs ih =>
      exact List.pairwise_cons.mpr ⟨fun g hg => Or.inl (h.2.bounds g hg).1, ih h.2⟩

theorem Packed.put_out {lo hi : Nat} {fs : List Field} (h : Packed lo fs hi) (m : Mem)
    (base : Nat) {x : Nat} (hx : x < base + lo ∨ base + hi ≤ x) : put m base fs x = m x :=
  put_apply_of_out m base fs fun f hf => by have := h.bounds f hf; omega

/-- **A structure reads back as it was assigned.** -/
theorem read_put (m : Mem) (base : Nat) (fs : List Field) (hap : fs.Pairwise Field.Apart)
    {f : Field} (hf : f ∈ fs) :
    read (put m base fs) (base + f.off) f.bytes.length = f.bytes := by
  induction fs generalizing m with
  | nil => simp at hf
  | cons g fs ih =>
      obtain ⟨hg, hap⟩ := List.pairwise_cons.mp hap
      rcases List.mem_cons.mp hf with rfl | hf
      · -- The later assignments are all to other fields.
        have hlater : read (put (write m (base + f.off) f.bytes) base fs) (base + f.off)
            f.bytes.length = read (write m (base + f.off) f.bytes) (base + f.off)
            f.bytes.length := by
          refine read_congr fun x h1 h2 => put_apply_of_out _ _ _ fun k hk => ?_
          have := hg k hk
          unfold Field.Apart at this
          omega
        exact hlater.trans (read_write_self _ _ _)
      · exact ih _ hap hf

theorem load_put (m : Mem) (base : Nat) (fs : List Field) (hap : fs.Pairwise Field.Apart)
    {off w v : Nat} (hf : Field.int off w v ∈ fs) :
    load (put m base fs) (base + off) w = v % 256 ^ w := by
  have := read_put m base fs hap hf
  simp only [Field.int, length_leBytes] at this
  unfold load
  rw [this, leNat_leBytes]

end ByteMem
