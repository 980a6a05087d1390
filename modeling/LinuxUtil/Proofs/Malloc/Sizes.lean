/-
Blocks that are long enough.

A size goes through the addition of a header, the rounding up to pages and, in the
hooks, a multiplication, all modulo 2^64.  Just below 2^64 the rounding wraps to no
pages at all, for which there is no memory.  The last 31 sizes wrap already with the
header and get one page, and a product may wrap to any size.
-/
import LinuxUtil.Proofs.Malloc.Runs

namespace LinuxUtil.Malloc

open ByteMem Heap

variable {h : Heap} {live : List Block}

/-- The block at `q` has `k` bytes: its arena's blocks are as long, or they are in pages mapped for it. -/
def Holds (h : Heap) (q k : Nat) : Prop :=
  (∃ i, h.owner (blockToPage q) = some (.arena i) ∧ k ≤ blockSize i) ∨
    ∀ x, q ≤ x → x < q + k → h.owner (blockToPage x) = some (.block q)

/-! ### Live blocks -/

theorem Inv.holds (hI : Inv h live) {l : Block} (hl : l ∈ live) {k : Nat} (hk : k ≤ l.len) :
    Holds h l.addr k := by
  obtain ⟨σ, hL⟩ := hI.layout
  rcases hL.live_home l hl with ⟨i, hown, hlen, -⟩ | ⟨p, n, haddr, hp, hlen, -, hown⟩ |
    ⟨size, hp, hlen, -, -, -, hown⟩
  · exact .inl ⟨i, hown, hlen ▸ hk⟩
  · exact .inr fun x h1 h2 => hown _ (inPages_blockToPage hp (by omega))
  · exact .inr fun x h1 h2 => hown _ (inPages_blockToPage hp (by omega))

/-- Nothing is in the first page, and nothing behind the last one. -/
theorem Inv.block_bounds (hI : Inv h live) {l : Block} (hl : l ∈ live) :
    4096 ≤ l.addr ∧ l.addr + l.len ≤ 2 ^ 64 := by
  obtain ⟨σ, hL⟩ := hI.layout
  have hpos := (hL.live_home l hl).len_pos
  have hpage : ∀ x, l.Covers x → 4096 ≤ x ∧ x < 2 ^ 64 := by
    intro x hx
    obtain ⟨hmod, hle, hlt⟩ := blockToPage_spec x
    have hown : ∃ o, h.owner (blockToPage x) = some o := by
      rcases hL.owner_covers hl hx with ⟨i, hi, -, -⟩ | hb
      · exact ⟨_, hi⟩
      · exact ⟨_, hb⟩
    obtain ⟨o, ho⟩ := hown
    obtain ⟨-, hne, hend⟩ := hL.page ho
    unfold PGSIZE at hmod
    omega
  have hfirst := hpage l.addr ⟨Nat.le_refl _, Nat.lt_add_of_pos_right hpos⟩
  have hlast := hpage (l.addr + (l.len - 1)) ⟨Nat.le_add_right _ _, by omega⟩
  omega

/-- No block has more bytes than there are addresses behind the first page. -/
theorem Inv.not_holds (hI : Inv h live) {l : Block} (hl : l ∈ live) {k : Nat}
    (hk : 2 ^ 64 - 4096 < k) : ¬ Holds h l.addr k := by
  obtain ⟨h1, h2⟩ := hI.block_bounds hl
  obtain ⟨σ, hL⟩ := hI.layout
  rintro (⟨i, -, hle⟩ | hown)
  · have := (blockSize_bounds i).2
    omega
  · have hpage := hown (2 ^ 64) (by omega) (by omega)
    have hend := (hL.page hpage).2.2
    rw [show blockToPage (2 ^ 64) = 2 ^ 64 from rfl] at hend
    omega

/-! ### Sizes near the limit -/

theorem largePages_none {size : Nat} (h1 : 2 ^ 64 - 4127 ≤ size) (h2 : size ≤ 2 ^ 64 - 32) :
    largePages size = 0 := by
  unfold largePages headerSize PGSIZE
  omega

theorem largePages_one {size : Nat} (h1 : 2 ^ 64 - 32 < size) (h2 : size < 2 ^ 64) :
    largePages size = 1 := by
  unfold largePages headerSize PGSIZE
  omega

/-- Of a large size only the number of pages matters. -/
theorem mymalloc_pages {size size' : Nat} (h1 : size > 1024) (h2 : size' > 1024)
    (hpages : largePages size = largePages size') (mmap : Option Nat) :
    h.mymalloc size mmap = h.mymalloc size' mmap := by
  unfold Heap.mymalloc
  rw [if_pos h1, if_pos h2, hpages]

/-- The last 31 sizes get the block of 4064 bytes. -/
theorem Inv.mymalloc_wrapped (hI : Inv h live) {size a : Nat} (h1 : 2 ^ 64 - 32 < size)
    (h2 : size < 2 ^ 64) (hmmap : System.Fresh h 1 (some a)) :
    ∃ h', h.mymalloc size (some a) = .ok (a + 32, h') ∧
      Inv h' (⟨a + 32, 4064, none⟩ :: live) := by
  have hpages : largePages size = largePages 4064 := largePages_one h1 h2
  obtain ⟨h', hok, -, -, hI'⟩ := hI.mapLarge (show 4064 > 1024 by decide) (by decide) hmmap
  exact ⟨h', (mymalloc_pages (by omega) (by decide) hpages _).trans hok, hI'⟩

/-- What `mymalloc` gives is long enough, except for the last 31 sizes. -/
theorem Inv.mymalloc_holds (hI : Inv h live) {size : Nat} (hsize : size ≤ 2 ^ 64 - 32)
    {mmap : Option Nat} (hmmap : System.Fresh h (if size > 1024 then largePages size else 1) mmap)
    (hnone : (if size > 1024 then largePages size else 1) = 0 → mmap = none) {q : Nat} {h' : Heap}
    (hok : h.mymalloc size mmap = .ok (q, h')) (hq : q ≠ 0) :
    size + 4127 < 2 ^ 64 ∧ Holds h' q size := by
  by_cases hfits : size + 4127 < 2 ^ 64
  · obtain ⟨q', h'', hok', -, -, hcases⟩ := hI.mymalloc hfits hmmap (.inl rfl)
    obtain ⟨rfl, rfl⟩ := Prod.mk.inj (Except.ok.inj (hok.symm.trans hok'))
    rcases hcases with ⟨rfl, -, -⟩ | ⟨-, hI'⟩
    · exact absurd rfl hq
    · exact ⟨hfits, hI'.holds List.mem_cons_self (le_extent hfits)⟩
  · have hlarge : size > 1024 := by omega
    rw [if_pos hlarge] at hnone
    obtain rfl := hnone (largePages_none (by omega) hsize)
    rw [mymalloc_none hlarge] at hok
    cases hok
    exact absurd rfl hq

/-- A block that `myrealloc` may be given has a header in front, in its page. -/
theorem Inv.releasable_bounds (hI : Inv h live) {l : Block} (hl : l ∈ live)
    (hc : ∀ n ∈ l.cpp, n ≤ 1024) : l.len + 4128 ≤ 2 ^ 64 := by
  obtain ⟨h1, h2⟩ := hI.block_bounds hl
  obtain ⟨σ, hL⟩ := hI.layout
  rcases hL.live_home l hl with ⟨i, -, hlen, -⟩ | ⟨p, n, haddr, hp, -, -, -⟩ |
    ⟨size, -, -, hlarge, -, hcpp, -⟩
  · have := (blockSize_bounds i).2
    omega
  · unfold PGSIZE at hp
    omega
  · have := hc size hcpp
    omega

/-- No block is as long as the sizes that wrap to no pages, and there is no memory for them. -/
theorem Inv.myrealloc_null {s : System} (hI : Inv s.heap s.live) {pt : Nat}
    (hpt : s.Releasable pt) {size : Nat} (h1 : 2 ^ 64 - 4127 ≤ size) :
    s.heap.myrealloc pt size none = .ok (0, s.heap) := by
  have hlarge : size > 1024 := by omega
  rcases hpt with rfl | ⟨l, hl, rfl, hc⟩
  · rw [Heap.myrealloc, if_pos rfl]
    exact mymalloc_none hlarge
  · have hlen := hI.releasable_bounds hl hc
    obtain ⟨len, -, heq⟩ := hI.myrealloc_eq hl hc size none
    rw [heq, if_neg (by omega), Heap.moveBlock, mymalloc_none hlarge]
    rfl

theorem Inv.myrealloc_holds {s : System} (hI : Inv s.heap s.live) {pt : Nat}
    (hpt : s.Releasable pt) {size : Nat} (hsize : size ≤ 2 ^ 64 - 32) {mmap : Option Nat}
    (hmmap : System.Fresh s.heap (if size > 1024 then largePages size else 1) mmap)
    (hnone : (if size > 1024 then largePages size else 1) = 0 → mmap = none) {q : Nat} {h' : Heap}
    (hok : s.heap.myrealloc pt size mmap = .ok (q, h')) (hq : q ≠ 0) :
    size + 4127 < 2 ^ 64 ∧ Holds h' q size := by
  by_cases hfits : size + 4127 < 2 ^ 64
  · refine ⟨hfits, ?_⟩
    rcases hpt with rfl | ⟨l, hl, rfl, hc⟩
    · rw [Heap.myrealloc, if_pos rfl] at hok
      exact (hI.mymalloc_holds hsize hmmap hnone hok hq).2
    · obtain ⟨q', h'', hok', hr⟩ := hI.myrealloc hl hc hfits hmmap
      obtain ⟨rfl, rfl⟩ := Prod.mk.inj (Except.ok.inj (hok.symm.trans hok'))
      cases hr with
      | fails => exact absurd rfl hq
      | stays hfit => exact hI.holds hl hfit
      | moves _ _ _ _ hI' _ _ => exact hI'.holds List.mem_cons_self (le_extent hfits)
  · rw [if_pos (by omega)] at hnone
    obtain rfl := hnone (largePages_none (by omega) hsize)
    rw [hI.myrealloc_null hpt (by omega)] at hok
    cases hok
    exact absurd rfl hq

theorem cppAlloc_holds {s : System} (hI : Inv s.heap s.live) {size : Nat} (hsize : size < 2 ^ 64)
    {mmap : Option Nat} (hmmap : System.Fresh s.heap (if size > 1024 then cppPages size else 1) mmap)
    (hnone : (if size > 1024 then cppPages size else 1) = 0 → mmap = none) {q : Nat} {h' : Heap}
    (hok : s.heap.cppAlloc size mmap = .ok (q, h')) (hq : q ≠ 0) : Holds h' q size := by
  unfold Heap.cppAlloc at hok
  by_cases hlarge : size > 1024
  · rw [if_pos hlarge] at hmmap hnone hok
    cases mmap with
    | none =>
        cases hok
        exact absurd rfl hq
    | some a =>
        cases hok
        have hmod := (hmmap _ rfl).1
        have hpages : size ≤ cppPages size * PGSIZE := by
          have hne : cppPages size ≠ 0 := fun hz => by cases hnone hz
          unfold cppPages PGSIZE at hne ⊢
          omega
        exact .inr fun x h1 h2 => if_pos (inPages_blockToPage hmod (by omega))
  · rw [if_neg hlarge] at hmmap hnone hok
    refine (hI.mymalloc_holds (by omega) ?_ ?_ hok hq).2
    · rwa [if_neg hlarge]
    · rwa [if_neg hlarge]

/-! ### Requests -/

/-- A call that returns a block, with what the program asks for. -/
inductive Request
  | mymalloc (size : UInt64)
  | cppAlloc (size : UInt64)
  | myrealloc (size : UInt64)
  | calloc (nmemb size : UInt64)
  | reallocarray (nmemb size : UInt64)

namespace Request

/-- How many bytes the block should have. -/
def wanted : Request → Nat
  | .mymalloc size => size.toNat
  | .cppAlloc size => size.toNat
  | .myrealloc size => size.toNat
  | .calloc nmemb size => nmemb.toNat * size.toNat
  | .reallocarray nmemb size => nmemb.toNat * size.toNat

/-- The call; only `myrealloc` and `reallocarray` take the old block. -/
def call (r : Request) (h : Heap) (pt : Nat) (mmap : Option Nat) : Except Fault (Nat × Heap) :=
  match r with
  | .mymalloc size => h.mymalloc size.toNat mmap
  | .cppAlloc size => h.cppAlloc size.toNat mmap
  | .myrealloc size => h.myrealloc pt size.toNat mmap
  | .calloc nmemb size => h.calloc nmemb.toNat size.toNat mmap
  | .reallocarray nmemb size => h.reallocarray pt nmemb.toNat size.toNat mmap

/-- How many pages `mmap` is asked for, if it is called. -/
def pages (r : Request) : Nat :=
  let total := r.wanted % 2 ^ 64
  if total > 1024 then
    match r with
    | .cppAlloc _ => cppPages total
    | _ => largePages total
  else 1

/-- Whenever the call returns a block, the block is long enough. -/
def Adequate (r : Request) : Prop :=
  ∀ (s : System) (pt : Nat) (mmap : Option Nat), s.Reachable → s.Releasable pt →
    System.Fresh s.heap r.pages mmap → (r.pages = 0 → mmap = none) →
    ∀ q h', r.call s.heap pt mmap = .ok (q, h') → q ≠ 0 → Holds h' q r.wanted

/-- The requests that are met: the size is not one of the last 31, and a product that has wrapped gives
a size for which there never is memory.  A `calloc` of one of the last 31 sizes does not return. -/
def Fits : Request → Prop
  | .mymalloc size => size.toNat ≤ 2 ^ 64 - 32
  | .cppAlloc _ => True
  | .myrealloc size => size.toNat ≤ 2 ^ 64 - 32
  | .calloc nmemb size =>
      nmemb.toNat * size.toNat < 2 ^ 64 ∨ 2 ^ 64 - 4127 ≤ nmemb.toNat * size.toNat % 2 ^ 64
  | .reallocarray nmemb size =>
      nmemb.toNat * size.toNat ≤ 2 ^ 64 - 32 ∨
        2 ^ 64 - 4127 ≤ nmemb.toNat * size.toNat % 2 ^ 64 ∧
          nmemb.toNat * size.toNat % 2 ^ 64 ≤ 2 ^ 64 - 32

end Request

theorem calloc_ok {nmemb size : Nat} {mmap : Option Nat} {q : Nat} {h' : Heap}
    (hok : h.calloc nmemb size mmap = .ok (q, h')) (hq : q ≠ 0) :
    ∃ h₁, h.mymalloc (nmemb * size % 2 ^ 64) mmap = .ok (q, h₁) ∧ h'.owner = h₁.owner ∧
      q + nmemb * size % 2 ^ 64 ≤ 2 ^ 64 := by
  unfold Heap.calloc at hok
  dsimp only at hok
  cases halloc : h.mymalloc (nmemb * size % 2 ^ 64) mmap with
  | error e =>
      rw [halloc] at hok
      cases hok
  | ok res =>
      obtain ⟨ret, h₁⟩ := res
      rw [halloc] at hok
      simp only [bind, Except.bind] at hok
      by_cases hz : ret = 0
      · rw [if_pos hz] at hok
        cases hok
        exact absurd rfl hq
      · rw [if_neg hz] at hok
        by_cases hend : ret + nmemb * size % 2 ^ 64 > 2 ^ 64
        · rw [if_pos hend] at hok
          cases hok
        · rw [if_neg hend] at hok
          cases hok
          exact ⟨h₁, rfl, rfl, Nat.le_of_not_lt hend⟩

theorem Holds.congr {h' : Heap} {q k : Nat} (hh : Holds h q k) (howner : h'.owner = h.owner) :
    Holds h' q k := by
  unfold Holds
  rw [howner]
  exact hh

theorem calloc_holds {s : System} (hI : Inv s.heap s.live) {nmemb size : Nat}
    (hfits : nmemb * size < 2 ^ 64 ∨ 2 ^ 64 - 4127 ≤ nmemb * size % 2 ^ 64) {mmap : Option Nat}
    (hmmap : System.Fresh s.heap
      (if nmemb * size % 2 ^ 64 > 1024 then largePages (nmemb * size % 2 ^ 64) else 1) mmap)
    (hnone : (if nmemb * size % 2 ^ 64 > 1024 then largePages (nmemb * size % 2 ^ 64) else 1) = 0 →
      mmap = none) {q : Nat} {h' : Heap}
    (hok : s.heap.calloc nmemb size mmap = .ok (q, h')) (hq : q ≠ 0) :
    Holds h' q (nmemb * size) := by
  obtain ⟨h₁, halloc, howner, hend⟩ := calloc_ok hok hq
  have hlt : nmemb * size % 2 ^ 64 < 2 ^ 64 := Nat.mod_lt _ (by decide)
  obtain ⟨total, htotal⟩ : ∃ total, total = nmemb * size % 2 ^ 64 := ⟨_, rfl⟩
  rw [← htotal] at hfits hmmap hnone halloc hend hlt
  by_cases hsize : total ≤ 2 ^ 64 - 32
  · obtain ⟨hroom, hholds⟩ := hI.mymalloc_holds hsize hmmap hnone halloc hq
    rcases hfits with hfits | hfits
    · rw [← Nat.mod_eq_of_lt hfits, ← htotal]
      exact hholds.congr howner
    · omega
  · -- the `memset` runs past the end
    have hlarge : total > 1024 := by omega
    rw [if_pos hlarge, largePages_one (by omega) hlt] at hmmap
    cases mmap with
    | none =>
        rw [mymalloc_none hlarge] at halloc
        cases halloc
        exact absurd rfl hq
    | some a =>
        obtain ⟨h'', halloc', hI'⟩ := hI.mymalloc_wrapped (by omega) hlt hmmap
        obtain ⟨rfl, rfl⟩ := Prod.mk.inj (Except.ok.inj (halloc.symm.trans halloc'))
        omega

theorem Request.Fits.adequate {r : Request} (hr : r.Fits) : r.Adequate := by
  intro s pt mmap hs hpt hmmap hnone q h' hok hq
  have hI := hs.inv
  have hmod : ∀ n : UInt64, n.toNat % 2 ^ 64 = n.toNat := fun n => Nat.mod_eq_of_lt n.toNat_lt
  cases r with
  | mymalloc size =>
      simp only [Request.pages, Request.wanted, hmod] at hmmap hnone
      exact (hI.mymalloc_holds hr hmmap hnone hok hq).2
  | cppAlloc size =>
      simp only [Request.pages, Request.wanted, hmod] at hmmap hnone
      exact cppAlloc_holds hI size.toNat_lt hmmap hnone hok hq
  | myrealloc size =>
      simp only [Request.pages, Request.wanted, hmod] at hmmap hnone
      exact (hI.myrealloc_holds hpt hr hmmap hnone hok hq).2
  | calloc nmemb size => exact calloc_holds hI hr hmmap hnone hok hq
  | reallocarray nmemb size =>
      rcases hr with hr | ⟨hlow, hhigh⟩
      · have heq : nmemb.toNat * size.toNat % 2 ^ 64 = nmemb.toNat * size.toNat :=
          Nat.mod_eq_of_lt (by omega)
        simp only [Request.call, Heap.reallocarray, heq] at hok
        simp only [Request.pages, Request.wanted, heq] at hmmap hnone
        exact (hI.myrealloc_holds hpt hr hmmap hnone hok hq).2
      · have hfits := (hI.myrealloc_holds hpt hhigh hmmap hnone hok hq).1
        omega

/-! ### Requests that are not met -/

/-- The first call of a program. -/
theorem mymalloc_start {total : Nat} (hlt : total < 2 ^ 64)
    (hpages : total < 2 ^ 64 - 4127 ∨ 2 ^ 64 - 32 < total) :
    System.Fresh (System.start fun _ => 0).heap (if total > 1024 then largePages total else 1)
        (some 4096) ∧ (if total > 1024 then largePages total else 1) ≠ 0 ∧
      ∃ q h' len, (System.start fun _ => 0).heap.mymalloc total (some 4096) = .ok (q, h') ∧ q ≠ 0 ∧
        Inv h' [⟨q, len, none⟩] ∧ (total < 2 ^ 64 - 4127 → total ≤ len) := by
  have hI := start_inv fun _ => 0
  have hfresh : System.Fresh (System.start fun _ => 0).heap
      (if total > 1024 then largePages total else 1) (some 4096) := by
    rintro pt ⟨⟩
    refine ⟨by decide, by decide, ?_, fun _ _ => rfl⟩
    unfold largePages headerSize PGSIZE
    split <;> omega
  have hpos : (if total > 1024 then largePages total else 1) ≠ 0 := by
    unfold largePages headerSize PGSIZE
    split <;> omega
  refine ⟨hfresh, hpos, ?_⟩
  rcases hpages with hfits | hwrapped
  · obtain ⟨q, h', hok, -, -, ⟨-, hnone, -⟩ | ⟨hq, hI'⟩⟩ := hI.mymalloc (by omega) hfresh (.inl rfl)
    · cases hnone
    · exact ⟨q, h', _, hok, hq, hI', fun _ => le_extent (by omega)⟩
  · have hlarge : total > 1024 := by omega
    rw [if_pos hlarge, largePages_one hwrapped hlt] at hfresh
    obtain ⟨h', hok, hI'⟩ := hI.mymalloc_wrapped hwrapped hlt hfresh
    exact ⟨_, h', 4064, hok, by decide, hI', fun hfits => by omega⟩

/-- One call of a program that has made none is enough. -/
theorem Request.not_adequate {r : Request} {q : Nat} {g : Heap}
    (hmmap : System.Fresh (System.start fun _ => 0).heap r.pages (some 4096) ∧ r.pages ≠ 0)
    (hok : r.call (System.start fun _ => 0).heap 0 (some 4096) = .ok (q, g)) (hq : q ≠ 0)
    (hnot : ¬ Holds g q r.wanted) : ¬ r.Adequate := by
  intro hadequate
  refine hnot (hadequate (System.start fun _ => 0) 0 (some 4096) ⟨_, [], .nil⟩ (.inl rfl) hmmap.1 ?_
    q g hok hq)
  exact fun hz => absurd hz hmmap.2

theorem mymalloc_short {size : UInt64} (hsize : 2 ^ 64 - 32 < size.toNat) :
    ¬ (Request.mymalloc size).Adequate := by
  have hmod : size.toNat % 2 ^ 64 = size.toNat := Nat.mod_eq_of_lt size.toNat_lt
  obtain ⟨hfresh, hpos, q, h', len, hok, hq, hI, -⟩ := mymalloc_start size.toNat_lt (.inr hsize)
  refine Request.not_adequate (g := h') ?_ hok hq (hI.not_holds List.mem_cons_self ?_)
  · simp only [Request.pages, Request.wanted, hmod]
    exact ⟨hfresh, hpos⟩
  · exact Nat.lt_trans (by decide) hsize

theorem Request.Adequate.fits {r : Request} (hr : r.Adequate) : r.Fits := by
  by_contra hnot
  refine absurd hr ?_
  have hstart : ∀ size, (System.start fun _ => 0).heap.myrealloc 0 size (some 4096) =
      (System.start fun _ => 0).heap.mymalloc size (some 4096) := fun _ => if_pos rfl
  cases r with
  | mymalloc size => exact mymalloc_short (Nat.lt_of_not_le hnot)
  | cppAlloc size => exact absurd trivial hnot
  | myrealloc size =>
      have hsize : 2 ^ 64 - 32 < size.toNat := Nat.lt_of_not_le hnot
      have hmod : size.toNat % 2 ^ 64 = size.toNat := Nat.mod_eq_of_lt size.toNat_lt
      obtain ⟨hfresh, hpos, q, h', len, hok, hq, hI, -⟩ := mymalloc_start size.toNat_lt (.inr hsize)
      refine Request.not_adequate (g := h') ?_ ((hstart _).trans hok) hq
        (hI.not_holds List.mem_cons_self ?_)
      · simp only [Request.pages, Request.wanted, hmod]
        exact ⟨hfresh, hpos⟩
      · exact Nat.lt_trans (by decide) hsize
  | calloc nmemb size =>
      simp only [Request.Fits, not_or] at hnot
      obtain ⟨hwraps, hlow⟩ := hnot
      obtain ⟨hfresh, hpos, q, h', len, hok, hq, hI, hlen⟩ := mymalloc_start
        (Nat.mod_lt (nmemb.toNat * size.toNat) (by decide)) (.inl (Nat.lt_of_not_le hlow))
      have hlen := hlen (Nat.lt_of_not_le hlow)
      have hend := (hI.block_bounds List.mem_cons_self).2
      dsimp only at hend
      refine Request.not_adequate (q := q)
        (g := { h' with mem := fill h'.mem q (nmemb.toNat * size.toNat % 2 ^ 64) 0 })
        ⟨hfresh, hpos⟩ ?_ hq ?_
      · rw [Request.call, Heap.calloc]
        dsimp only
        rw [hok]
        simp only [bind, Except.bind, hq, if_false]
        rw [if_neg (by omega)]
        rfl
      · intro hholds
        refine hI.not_holds List.mem_cons_self ?_ (hholds.congr rfl)
        exact Nat.lt_of_lt_of_le (by decide) (Nat.le_of_not_lt hwraps)
  | reallocarray nmemb size =>
      simp only [Request.Fits, not_or, not_and, Nat.not_le] at hnot
      obtain ⟨hlarge, hrange⟩ := hnot
      obtain ⟨hfresh, hpos, q, h', len, hok, hq, hI, -⟩ := mymalloc_start
        (Nat.mod_lt (nmemb.toNat * size.toNat) (by decide)) (by omega)
      refine Request.not_adequate (g := h') ⟨hfresh, hpos⟩ ((hstart _).trans hok) hq
        (hI.not_holds List.mem_cons_self ?_)
      exact Nat.lt_trans (by decide) hlarge

/-- **Exactly the requests that fit are met.** -/
theorem adequate_iff (r : Request) : r.Adequate ↔ r.Fits :=
  ⟨Request.Adequate.fits, Request.Fits.adequate⟩

/-- `SIZE_MAX` bytes are 4064 bytes. -/
theorem adequate_not_all : ¬ ∀ r : Request, r.Adequate :=
  fun hall => mymalloc_short (by decide) (hall (.mymalloc 18446744073709551615))

end LinuxUtil.Malloc
