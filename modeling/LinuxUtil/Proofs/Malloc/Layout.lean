/-
The invariant of the allocator.

A `Slab` says which blocks are in which list.  `Layout` is about the lists alone: the
list of a page, what of the arena's list is in the page, and the live blocks in the
page are together the slots of the page, each once.  `Bytes` says that the memory holds
these lists.  The bytes that matter to the allocator, `Meta`, are never in a live block,
so the program cannot change them.
-/
import LinuxUtil.Proofs.Malloc.Pages
import LinuxUtil.Tlibc.Calls

namespace LinuxUtil.Malloc

open ByteMem Heap

/-- The blocks in the list of each page and in the list of each arena. -/
structure Slab where
  fl : Nat → List Nat
  free : Fin ncaches → List Nat

def addrs (live : List Block) : List Nat := live.map Block.addr

/-- Where a live block may be: in a slot, or in pages of its own. -/
inductive Home (owner : Nat → Option Owner) (l : Block) : Prop
  | slot (i : Fin ncaches) : owner (blockToPage l.addr) = some (.arena i) → l.len = blockSize i →
      (∀ size ∈ l.cpp, size ≤ 1024) → Home owner l
  | large (p n : Nat) : l.addr = p + 32 → p % PGSIZE = 0 → l.len + 32 = n * PGSIZE → l.cpp = none →
      (∀ q, InPages p n q → owner q = some (.block l.addr)) → Home owner l
  | cpp (size : Nat) : l.addr % PGSIZE = 0 → l.len = cppPages size * PGSIZE → 1024 < size →
      size < 2 ^ 63 → l.cpp = some size →
      (∀ q, InPages l.addr (cppPages size) q → owner q = some (.block l.addr)) → Home owner l

/-- The lists and the live blocks, without the bytes. -/
structure Layout (h : Heap) (live : List Block) (σ : Slab) : Prop where
  page : ∀ {p o}, h.owner p = some o → p % PGSIZE = 0 ∧ p ≠ 0 ∧ p + 4096 ≤ 2 ^ 64
  parts : ∀ {p i}, h.owner p = some (.arena i) →
    (σ.fl p ++ (σ.free i ++ addrs live).filter (blockToPage · = p)).Perm (slots i p)
  free_page : ∀ i, ∃ q, ∀ b ∈ σ.free i, blockToPage b = q ∧ h.owner q = some (.arena i)
  live_home : ∀ l ∈ live, Home h.owner l
  live_nodup : (addrs live).Nodup
  idle : ∀ i, (h.caches i).idlepage ≠ 0 → h.owner (h.caches i).idlepage = some (.arena i) ∧
    (σ.fl (h.caches i).idlepage).length = nslots i

/-- A page with all its slots in its list is the idle page. -/
def FullIdle (h : Heap) (σ : Slab) : Prop :=
  ∀ p i, h.owner p = some (.arena i) → (σ.fl p).length = nslots i → (h.caches i).idlepage = p

/-- The header of a large block. -/
structure LargeAt (m : Mem) (p size : Nat) : Prop where
  are : load m p 8 = 0
  alloc_size : load m (p + 8) 8 = size
  magic : load m (p + 26) 2 = MAGIC

/-- A block of `mymalloc` with pages of its own. -/
def IsLarge (owner : Nat → Option Owner) (l : Block) : Prop :=
  l.cpp = none ∧ owner (blockToPage l.addr) = some (.block l.addr)

/-- The memory holds the lists. -/
structure Bytes (h : Heap) (live : List Block) (σ : Slab) : Prop where
  pages : ∀ {p i}, h.owner p = some (.arena i) → PageAt h.mem i p (σ.fl p)
  free : ∀ i, Chain h.mem (h.caches i).freelist (σ.free i)
  large : ∀ l ∈ live, IsLarge h.owner l → LargeAt h.mem (l.addr - 32) (l.len + 32)

/-- **The invariant.** -/
def Inv (h : Heap) (live : List Block) : Prop :=
  ∃ σ, Layout h live σ ∧ FullIdle h σ ∧ Bytes h live σ

/-! ### Places -/

theorem arena_inj {o : Option Owner} {i j : Fin ncaches} (hi : o = some (.arena i))
    (hj : o = some (.arena j)) : i = j :=
  Owner.arena.inj (Option.some.inj (hi.symm.trans hj))

theorem Inv.layout {h : Heap} {live : List Block} (hI : Inv h live) : ∃ σ, Layout h live σ := by
  obtain ⟨σ, hL, -, -⟩ := hI
  exact ⟨σ, hL⟩

namespace Layout

variable {h : Heap} {live : List Block} {σ : Slab}

/-- A slot of a page is at exactly one place. -/
theorem parts_nodup (hL : Layout h live σ) {p : Nat} {i : Fin ncaches}
    (hp : h.owner p = some (.arena i)) :
    (σ.fl p ++ (σ.free i ++ addrs live).filter (blockToPage · = p)).Nodup :=
  (hL.parts hp).nodup_iff.mpr (nodup_slots i p)

theorem fl_slot (hL : Layout h live σ) {p b : Nat} {i : Fin ncaches}
    (hp : h.owner p = some (.arena i)) (hb : b ∈ σ.fl p) : b ∈ slots i p :=
  (hL.parts hp).subset (List.mem_append_left _ hb)

theorem free_slot (hL : Layout h live σ) {b : Nat} {i : Fin ncaches} (hb : b ∈ σ.free i) :
    h.owner (blockToPage b) = some (.arena i) ∧ b ∈ slots i (blockToPage b) := by
  obtain ⟨q, hq⟩ := hL.free_page i
  obtain ⟨rfl, hown⟩ := hq b hb
  refine ⟨hown, (hL.parts hown).subset (List.mem_append_right _ ?_)⟩
  exact List.mem_filter.mpr ⟨List.mem_append_left _ hb, decide_eq_true rfl⟩

theorem live_slot (hL : Layout h live σ) {l : Block} {i : Fin ncaches} (hl : l ∈ live)
    (hp : h.owner (blockToPage l.addr) = some (.arena i)) :
    l.addr ∈ slots i (blockToPage l.addr) := by
  refine (hL.parts hp).subset (List.mem_append_right _ ?_)
  exact List.mem_filter.mpr
    ⟨List.mem_append_right _ (List.mem_map_of_mem hl), decide_eq_true rfl⟩

/-- A slot in one list is not live. -/
theorem not_live_of_fl (hL : Layout h live σ) {p b : Nat} {i : Fin ncaches}
    (hp : h.owner p = some (.arena i)) (hb : b ∈ σ.fl p) : b ∉ addrs live := by
  intro hlive
  have hpage := blockToPage_slot (hL.page hp).1 (hL.fl_slot hp hb)
  refine List.disjoint_of_nodup_append (hL.parts_nodup hp) hb ?_
  exact List.mem_filter.mpr ⟨List.mem_append_right _ hlive, decide_eq_true hpage⟩

theorem not_live_of_free (hL : Layout h live σ) {b : Nat} {i : Fin ncaches} (hb : b ∈ σ.free i) :
    b ∉ addrs live := by
  intro hlive
  have hnd := (List.nodup_append.mp (hL.parts_nodup (hL.free_slot hb).1)).2.1
  rw [List.filter_append] at hnd
  refine List.disjoint_of_nodup_append hnd (a := b) ?_ ?_
  · exact List.mem_filter.mpr ⟨hb, decide_eq_true rfl⟩
  · exact List.mem_filter.mpr ⟨hlive, decide_eq_true rfl⟩

theorem not_free_of_fl (hL : Layout h live σ) {p b : Nat} {i j : Fin ncaches}
    (hp : h.owner p = some (.arena i)) (hb : b ∈ σ.fl p) : b ∉ σ.free j := by
  intro hfree
  have hpage := blockToPage_slot (hL.page hp).1 (hL.fl_slot hp hb)
  have hown := (hL.free_slot hfree).1
  rw [hpage] at hown
  obtain rfl := arena_inj hp hown
  refine List.disjoint_of_nodup_append (hL.parts_nodup hp) hb ?_
  exact List.mem_filter.mpr ⟨List.mem_append_left _ hfree, decide_eq_true hpage⟩

end Layout

/-! ### Bytes -/

theorem inPages_blockToPage {p n x : Nat} (hp : p % PGSIZE = 0) (hx : p ≤ x ∧ x < p + n * PGSIZE) :
    InPages p n (blockToPage x) := by
  obtain ⟨h1, h2, h3⟩ := blockToPage_spec x
  refine ⟨?_, by omega, h1⟩
  unfold PGSIZE at hp h1
  omega

/-- The bytes of a block. -/
def Block.Covers (l : Block) (x : Nat) : Prop := l.addr ≤ x ∧ x < l.addr + l.len

/-- Who owns a byte of a live block. -/
theorem Layout.owner_covers {h : Heap} {live : List Block} {σ : Slab} (hL : Layout h live σ)
    {l : Block} {x : Nat} (hl : l ∈ live) (hx : l.Covers x) :
    (∃ i, h.owner (blockToPage x) = some (.arena i) ∧ l.addr ∈ slots i (blockToPage x) ∧
        l.len = blockSize i) ∨ h.owner (blockToPage x) = some (.block l.addr) := by
  obtain ⟨hx1, hx2⟩ := hx
  rcases hL.live_home l hl with ⟨i, hown, hlen, -⟩ | ⟨p, n, haddr, hp, hlen, -, hown⟩ |
    ⟨size, hp, hlen, -, -, -, hown⟩
  · have hslot := hL.live_slot hl hown
    have hb := slot_in hslot
    have hpage : blockToPage x = blockToPage l.addr :=
      blockToPage_eq (hL.page hown).1 (by omega)
    rw [hpage]
    exact .inl ⟨i, hown, hslot, hlen⟩
  · exact .inr (hown _ (inPages_blockToPage hp (by omega)))
  · exact .inr (hown _ (inPages_blockToPage hp (by omega)))

theorem cppPages_pos {size : Nat} (h1 : 1024 < size) (h2 : size < 2 ^ 63) :
    1 ≤ cppPages size := by
  unfold cppPages PGSIZE
  omega

theorem Home.len_pos {owner : Nat → Option Owner} {l : Block} (h : Home owner l) : 0 < l.len := by
  rcases h with ⟨i, -, hlen, -⟩ | ⟨p, n, -, -, hlen, -, -⟩ | ⟨size, -, hlen, h1, h2, -, -⟩
  · have := (blockSize_bounds i).1
    omega
  · unfold PGSIZE at hlen
    omega
  · have := cppPages_pos h1 h2
    unfold PGSIZE at hlen
    omega

/-- The page of a live block is mapped. -/
theorem Layout.live_owner {h : Heap} {live : List Block} {σ : Slab} (hL : Layout h live σ)
    {l : Block} (hl : l ∈ live) : h.owner (blockToPage l.addr) ≠ none := by
  have hpos := (hL.live_home l hl).len_pos
  rcases hL.owner_covers hl (x := l.addr) ⟨Nat.le_refl _, by omega⟩ with ⟨i, hi, -, -⟩ | hb
  · rw [hi]
    nofun
  · rw [hb]
    nofun

/-- A block's home depends on its own pages only. -/
theorem Home.congr {owner owner' : Nat → Option Owner} {l : Block} (h : Home owner l)
    (hkeep : ∀ q o, owner q = some o → o = .block l.addr ∨ q = blockToPage l.addr →
      owner' q = some o) : Home owner' l := by
  rcases h with ⟨i, hown, hlen, hc⟩ | ⟨p, n, haddr, hp, hlen, hc, hown⟩ |
    ⟨size, hp, hlen, h1, h2, hc, hown⟩
  · exact .slot i (hkeep _ _ hown (.inr rfl)) hlen hc
  · exact .large p n haddr hp hlen hc fun q hq => hkeep q _ (hown q hq) (.inl rfl)
  · exact .cpp size hp hlen h1 h2 hc fun q hq => hkeep q _ (hown q hq) (.inl rfl)

theorem Home.mono {owner owner' : Nat → Option Owner} {l : Block} (h : Home owner l)
    (hsub : ∀ q, owner q ≠ none → owner' q = owner q) : Home owner' l := by
  refine h.congr fun q o hq _ => ?_
  rw [hsub q (by rw [hq]; nofun), hq]

/-- Live blocks do not overlap. -/
theorem Layout.covers_unique {h : Heap} {live : List Block} {σ : Slab} (hL : Layout h live σ)
    {l l' : Block} {x : Nat} (hl : l ∈ live) (hl' : l' ∈ live) (hx : l.Covers x)
    (hx' : l'.Covers x) : l.addr = l'.addr := by
  rcases hL.owner_covers hl hx with ⟨i, hi, hs, hlen⟩ | hb
  · rcases hL.owner_covers hl' hx' with ⟨j, hj, hs', hlen'⟩ | hb'
    · obtain rfl := arena_inj hi hj
      by_contra hne
      have hap := slot_apart hs hs' hne
      unfold Block.Covers at hx hx'
      omega
    · rw [hi] at hb'
      cases hb'
  · rcases hL.owner_covers hl' hx' with ⟨j, hj, -, -⟩ | hb'
    · rw [hb] at hj
      cases hj
    · rw [hb] at hb'
      exact Owner.block.inj (Option.some.inj hb')

/-- The bytes of page headers and of pointers in free blocks. -/
inductive Meta (h : Heap) (live : List Block) (σ : Slab) (x : Nat) : Prop
  | header (p : Nat) (i : Fin ncaches) : h.owner p = some (.arena i) → p ≤ x → x < p + 32 →
      Meta h live σ x
  | fl (p : Nat) (i : Fin ncaches) (b : Nat) : h.owner p = some (.arena i) → b ∈ σ.fl p → b ≤ x →
      x < b + 8 → Meta h live σ x
  | free (i : Fin ncaches) (b : Nat) : b ∈ σ.free i → b ≤ x → x < b + 8 → Meta h live σ x
  | large (l : Block) : l ∈ live → IsLarge h.owner l → l.addr - 32 ≤ x → x < l.addr →
      Meta h live σ x

/-- The bytes of live blocks stay as they are. -/
def Keeps (live : List Block) (h h' : Heap) : Prop :=
  ∀ l ∈ live, ∀ x, l.Covers x → h'.mem x = h.mem x

theorem Keeps.trans {live : List Block} {h₁ h₂ h₃ : Heap} (h12 : Keeps live h₁ h₂)
    (h23 : Keeps live h₂ h₃) : Keeps live h₁ h₃ :=
  fun l hl x hx => (h23 l hl x hx).trans (h12 l hl x hx)

theorem LargeAt.congr {m m' : Mem} {p size : Nat} (h : LargeAt m p size)
    (hm : ∀ x, p ≤ x → x < p + 32 → m' x = m x) : LargeAt m' p size := by
  refine ⟨?_, ?_, ?_⟩
  · rw [← h.are]
    exact load_congr fun x h1 h2 => hm x h1 (by omega)
  · rw [← h.alloc_size]
    exact load_congr fun x h1 h2 => hm x (by omega) (by omega)
  · rw [← h.magic]
    exact load_congr fun x h1 h2 => hm x (by omega) (by omega)

/-- A large block is behind the header of its first page. -/
theorem Layout.large_page {h : Heap} {live : List Block} {σ : Slab} (hL : Layout h live σ)
    {l : Block} (hl : l ∈ live) (hlarge : IsLarge h.owner l) :
    ∃ p n, l.addr = p + 32 ∧ p % PGSIZE = 0 ∧ l.len + 32 = n * PGSIZE ∧
      (∀ q, InPages p n q → h.owner q = some (.block l.addr)) ∧ InPages p n p := by
  rcases hL.live_home l hl with ⟨i, hown, -, -⟩ | ⟨p, n, haddr, hp, hlen, -, hown⟩ |
    ⟨size, -, -, -, -, hcpp, -⟩
  · rw [hlarge.2] at hown
    cases hown
  · exact ⟨p, n, haddr, hp, hlen, hown, Nat.le_refl p, by omega, hp⟩
  · rw [hlarge.1] at hcpp
    cases hcpp

theorem Bytes.congr {h : Heap} {live : List Block} {σ : Slab} (hB : Bytes h live σ)
    (hL : Layout h live σ) {m : Mem} (hm : ∀ x, Meta h live σ x → m x = h.mem x) :
    Bytes { h with mem := m } live σ := by
  refine ⟨?_, ?_, ?_⟩
  · intro p i hp
    refine (hB.pages hp).congr (fun x h1 h2 => hm x (.header p i hp h1 h2)) ?_
    exact fun b hb x h1 h2 => hm x (.fl p i b hp hb h1 h2)
  · intro i
    refine (hB.free i).congr fun b hb => ?_
    exact load_congr fun x h1 h2 => hm x (.free i b hb h1 h2)
  · intro l hl hlarge
    obtain ⟨p, n, haddr, -, -, -, -⟩ := hL.large_page hl hlarge
    refine (hB.large l hl hlarge).congr fun x h1 h2 => ?_
    exact hm x (.large l hl hlarge h1 (by omega))

/-- The page of a byte that matters is mapped, and no live block has the byte. -/
theorem Layout.meta_spec {h : Heap} {live : List Block} {σ : Slab} (hL : Layout h live σ) {x : Nat}
    (hx : Meta h live σ x) :
    h.owner (blockToPage x) ≠ none ∧ ∀ l ∈ live, ¬ l.Covers x := by
  -- a byte of a slot that is not live
  have hslot : ∀ {p b : Nat} {i : Fin ncaches}, h.owner p = some (.arena i) → b ∈ slots i p →
      b ∉ addrs live → b ≤ x → x < b + 8 →
      h.owner (blockToPage x) ≠ none ∧ ∀ l ∈ live, ¬ l.Covers x := by
    intro p b i hp hb hnot h1 h2
    have hin := slot_in hb
    have hsize := (blockSize_bounds i).1
    have hpage : blockToPage x = p := blockToPage_eq (hL.page hp).1 (by omega)
    rw [hpage, hp]
    refine ⟨nofun, fun l hl hc => ?_⟩
    rcases hL.owner_covers hl hc with ⟨j, hj, hs, hlen⟩ | hj
    · rw [hpage] at hj hs
      obtain rfl := arena_inj hp hj
      have hne : b ≠ l.addr := fun hbl => hnot (hbl ▸ List.mem_map_of_mem hl)
      have hap := slot_apart hb hs hne
      unfold Block.Covers at hc
      omega
    · rw [hpage, hp] at hj
      cases hj
  rcases hx with ⟨p, i, hp, h1, h2⟩ | ⟨p, i, b, hp, hb, h1, h2⟩ | ⟨i, b, hb, h1, h2⟩ |
    ⟨l', hl', hlarge, h1, h2⟩
  · have hpage : blockToPage x = p := blockToPage_eq (hL.page hp).1 (by omega)
    rw [hpage, hp]
    refine ⟨nofun, fun l hl hc => ?_⟩
    rcases hL.owner_covers hl hc with ⟨j, hj, hs, -⟩ | hj
    · rw [hpage] at hs
      have := (slot_in hs).1
      have := hc.1
      omega
    · rw [hpage, hp] at hj
      cases hj
  · exact hslot hp (hL.fl_slot hp hb) (hL.not_live_of_fl hp hb) h1 h2
  · exact hslot (hL.free_slot hb).1 (hL.free_slot hb).2 (hL.not_live_of_free hb) h1 h2
  · obtain ⟨p, n, haddr, hp, hlen, hown, hin⟩ := hL.large_page hl' hlarge
    have hpage : blockToPage x = p := blockToPage_eq hp (by omega)
    rw [hpage, hown p hin]
    refine ⟨nofun, fun l hl hc => ?_⟩
    rcases hL.owner_covers hl hc with ⟨j, hj, -, -⟩ | hj
    · rw [hpage, hown p hin] at hj
      cases hj
    · rw [hpage, hown p hin] at hj
      have heq := Owner.block.inj (Option.some.inj hj)
      have := hc.1
      omega

/-- What is written to new pages or to bytes that matter is not in a live block. -/
theorem Layout.keeps {h h' : Heap} {live : List Block} {σ : Slab} (hL : Layout h live σ)
    (hm : ∀ x, h.owner (blockToPage x) ≠ none → ¬ Meta h live σ x → h'.mem x = h.mem x) :
    Keeps live h h' := by
  intro l hl x hx
  refine hm x ?_ fun hmeta => (hL.meta_spec hmeta).2 l hl hx
  rcases hL.owner_covers hl hx with ⟨i, hi, -, -⟩ | hb
  · rw [hi]
    nofun
  · rw [hb]
    nofun

/-! ### Writes -/

theorem Layout.setMem {h : Heap} {live : List Block} {σ : Slab} (hL : Layout h live σ) (m : Mem) :
    Layout { h with mem := m } live σ :=
  ⟨hL.page, hL.parts, hL.free_page, hL.live_home, hL.live_nodup, hL.idle⟩

/-- **A write into a live block keeps the invariant.** -/
theorem Inv.write {h : Heap} {live : List Block} (hI : Inv h live) {l : Block} (hl : l ∈ live)
    {m : Mem} (hm : ∀ x, ¬ l.Covers x → m x = h.mem x) : Inv { h with mem := m } live := by
  obtain ⟨σ, hL, hF, hB⟩ := hI
  refine ⟨σ, hL.setMem m, hF, hB.congr hL fun x hx => ?_⟩
  exact hm x ((hL.meta_spec hx).2 l hl)

end LinuxUtil.Malloc
