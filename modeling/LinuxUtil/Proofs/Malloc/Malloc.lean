/-
`mymalloc` and `cpp_alloc`.

Both hand out a block that is apart from all live blocks and as long as `extent` and
`cppExtent` say, or fail for want of memory and leave the heap as it was.  A size may be
so large that no more than its header, rounded up to pages, still is a `size_t`.
-/
import LinuxUtil.Proofs.Malloc.Alloc

namespace LinuxUtil.Malloc

open ByteMem Heap

variable {h : Heap} {live : List Block}

/-! ### Sizes -/

theorem sizeClass_spec {size : Nat} (hsize : size ≤ 1024) :
    ∃ i, sizeClass size = some i ∧ size ≤ blockSize i := by
  cases hclass : sizeClass size with
  | none =>
      have := List.find?_eq_none.mp hclass 6 (List.mem_finRange _)
      exact absurd (decide_eq_true (show size ≤ blockSize 6 from hsize)) this
  | some i =>
      have hle := List.find?_some (p := fun i => decide (size ≤ blockSize i)) hclass
      exact ⟨i, rfl, of_decide_eq_true hle⟩

theorem largePages_spec {size : Nat} (hsize : size + 4127 < 2 ^ 64) :
    size + 32 ≤ largePages size * PGSIZE := by
  unfold largePages headerSize PGSIZE
  omega

theorem extent_small {size : Nat} {i : Fin ncaches} (hsize : size ≤ 1024)
    (hi : sizeClass size = some i) : extent size = blockSize i := by
  rw [extent, if_neg (by omega), hi]
  rfl

theorem extent_large {size : Nat} (h1 : size > 1024) (h2 : size + 4127 < 2 ^ 64) :
    extent size + 32 = largePages size * PGSIZE := by
  have := largePages_spec h2
  rw [extent, if_pos h1, headerSize]
  omega

/-- A block is at least as long as was asked for. -/
theorem le_extent {size : Nat} (hsize : size + 4127 < 2 ^ 64) : size ≤ extent size := by
  by_cases hlarge : size > 1024
  · have := largePages_spec hsize
    have := extent_large hlarge hsize
    omega
  · obtain ⟨i, hi, hle⟩ := sizeClass_spec (show size ≤ 1024 by omega)
    rwa [extent_small (by omega) hi]

/-! ### Large blocks -/

theorem not_inPages {a n x : Nat} (hmod : a % PGSIZE = 0) (h : ¬ InPages a n (blockToPage x)) :
    x < a ∨ a + n * PGSIZE ≤ x := by
  by_contra hx
  exact h (inPages_blockToPage hmod (by omega))

/-- The header of a new large block. -/
theorem largeAt_store (m : Mem) {a size : Nat} (hsize : size < 2 ^ 64) :
    LargeAt (store (store (store m a 8 0) (a + 8) 8 size) (a + 26) 2 MAGIC) a size := by
  refine ⟨?_, ?_, ?_⟩
  · rw [load_store_of_apart _ _ _ _ (by omega), load_store_of_apart _ _ _ _ (by omega),
      load_store_eq (by decide)]
  · rw [load_store_of_apart _ _ _ _ (by omega), load_store_eq (by omega)]
  · exact load_store_eq (by decide)

/-- `mymalloc` of more than 1024 bytes. -/
theorem Inv.mapLarge (hI : Inv h live) {size a : Nat} (h1 : size > 1024)
    (h2 : size + 4127 < 2 ^ 64) (hmmap : System.Fresh h (largePages size) (some a)) :
    ∃ h', h.mymalloc size (some a) = .ok (a + 32, h') ∧ h'.freed = h.freed ∧ Keeps live h h' ∧
      Inv h' (⟨a + 32, extent size, none⟩ :: live) := by
  obtain ⟨hmod, hne, hlt, hfresh⟩ := hmmap a rfl
  have hlen := extent_large h1 h2
  have hpages := largePages_spec h2
  have hpage : blockToPage (a + 32) = a := blockToPage_eq hmod (by omega)
  have hin : InPages a (largePages size) a := ⟨Nat.le_refl a, by omega, hmod⟩
  have hmem : ∀ x, ¬ InPages a (largePages size) (blockToPage x) →
      store (store (store (fill h.mem a (largePages size * PGSIZE) 0) a 8 0) (a + 8) 8
        (largePages size * PGSIZE)) (a + 26) 2 MAGIC x = h.mem x := by
    intro x hx
    have hx := not_inPages hmod hx
    rw [store_apply_of_out _ _ _ _ (by omega), store_apply_of_out _ _ _ _ (by omega),
      store_apply_of_out _ _ _ _ (by omega)]
    exact fill_apply_of_out _ _ _ _ hx
  unfold Heap.mymalloc
  simp only [h1, if_true, Heap.allocPage]
  rw [if_neg hne]
  refine ⟨_, rfl, rfl, ?_, hI.mapBlock hmod hne hlt hfresh ?_ hmem rfl ?_ ?_⟩
  · obtain ⟨σ, hL⟩ := hI.layout
    exact hL.keeps fun x hown _ => hmem x fun hin => hown (hfresh _ hin)
  · rw [hpage]
    exact hin
  · exact .large a (largePages size) rfl hmod hlen rfl fun q hq => if_pos hq
  · intro _
    rw [hlen]
    exact largeAt_store _ (by omega)

/-! ### The interface -/

/-- A large block for which there is no memory. -/
theorem mymalloc_none {size : Nat} (hlarge : size > 1024) : h.mymalloc size none = .ok (0, h) := by
  unfold Heap.mymalloc
  rw [if_pos hlarge]
  rfl

/-- **`mymalloc`**; a small block may also be one for `cpp_alloc`. -/
theorem Inv.mymalloc (hI : Inv h live) {size : Nat} (hsize : size + 4127 < 2 ^ 64)
    {mmap : Option Nat}
    (hmmap : System.Fresh h (if size > 1024 then largePages size else 1) mmap) {c : Option Nat}
    (hc : c = none ∨ size ≤ 1024 ∧ c = some size) :
    ∃ pt h', h.mymalloc size mmap = .ok (pt, h') ∧ h'.freed = h.freed ∧ Keeps live h h' ∧
      (pt = 0 ∧ mmap = none ∧ h' = h ∨ pt ≠ 0 ∧ Inv h' (⟨pt, extent size, c⟩ :: live)) := by
  by_cases hlarge : size > 1024
  · have hc : c = none := by
      rcases hc with hc | ⟨hle, -⟩
      · exact hc
      · omega
    subst hc
    rw [if_pos hlarge] at hmmap
    cases mmap with
    | none => exact ⟨0, h, mymalloc_none hlarge, rfl, fun _ _ _ _ => rfl, .inl ⟨rfl, rfl, rfl⟩⟩
    | some a =>
        obtain ⟨h', hok, hfreed, hkeep, hI'⟩ := hI.mapLarge hlarge hsize hmmap
        exact ⟨a + 32, h', hok, hfreed, hkeep, .inr ⟨by omega, hI'⟩⟩
  · rw [if_neg hlarge] at hmmap
    obtain ⟨i, hi, -⟩ := sizeClass_spec (show size ≤ 1024 by omega)
    have hc' : ∀ n ∈ c, n ≤ 1024 := by
      intro n hn
      rcases hc with rfl | ⟨hle, rfl⟩
      · cases hn
      · cases hn
        exact hle
    obtain ⟨pt, h', hok, hfreed, hkeep, hcases⟩ := hI.arenaAlloc i hmmap hc'
    refine ⟨pt, h', ?_, hfreed, hkeep, ?_⟩
    · unfold Heap.mymalloc
      rw [if_neg hlarge, hi]
      exact hok
    · rw [extent_small (by omega) hi]
      exact hcases

/-- **`cpp_alloc`.** -/
theorem Inv.cppAlloc (hI : Inv h live) {size : Nat} (hsize : size < 2 ^ 63) {mmap : Option Nat}
    (hmmap : System.Fresh h (if size > 1024 then cppPages size else 1) mmap) :
    ∃ pt h', h.cppAlloc size mmap = .ok (pt, h') ∧ h'.freed = h.freed ∧
      (pt = 0 ∧ h' = h ∨ pt ≠ 0 ∧ Inv h' (⟨pt, cppExtent size, some size⟩ :: live)) := by
  unfold Heap.cppAlloc cppExtent
  by_cases hlarge : size > 1024
  · rw [if_pos hlarge] at hmmap ⊢
    rw [if_pos hlarge]
    cases mmap with
    | none => exact ⟨0, h, rfl, rfl, .inl ⟨rfl, rfl⟩⟩
    | some a =>
        obtain ⟨hmod, hne, hlt, hfresh⟩ := hmmap a rfl
        have hpos := cppPages_pos hlarge hsize
        have hpage : blockToPage a = a := blockToPage_eq hmod (by omega)
        have hin : InPages a (cppPages size) (blockToPage a) := by
          rw [hpage]
          refine ⟨Nat.le_refl a, ?_, hmod⟩
          unfold PGSIZE
          omega
        refine ⟨a, _, rfl, rfl, .inr ⟨hne, hI.mapBlock hmod hne hlt hfresh hin ?_ rfl ?_ ?_⟩⟩
        · intro x hx
          exact fill_apply_of_out _ _ _ _ (not_inPages hmod hx)
        · exact .cpp size hmod rfl hlarge hsize rfl fun q hq => if_pos hq
        · intro hIs
          cases hIs.1
  · rw [if_neg hlarge] at hmmap ⊢
    rw [if_neg hlarge]
    obtain ⟨pt, h', hok, hfreed, -, hcases⟩ :=
      hI.mymalloc (show size + 4127 < 2 ^ 64 by omega) (by rw [if_neg hlarge]; exact hmmap)
        (.inr ⟨by omega, rfl⟩)
    refine ⟨pt, h', hok, hfreed, ?_⟩
    rcases hcases with ⟨hz, -, hsame⟩ | hnew
    · exact .inl ⟨hz, hsame⟩
    · exact .inr hnew

end LinuxUtil.Malloc
