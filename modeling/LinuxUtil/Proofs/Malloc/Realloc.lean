/-
`myrealloc` and the bytes of blocks.

Where a block ends is in the arena of its page or in the header of its mapping, and
`usable` looks it up like the code does.  A block that has to move is copied before it is
freed; then it takes as many bytes along as it has.  A call that finds no memory has not
changed anything.
-/
import LinuxUtil.Proofs.Malloc.Runs

namespace LinuxUtil.Malloc

open ByteMem Heap

variable {h : Heap} {live : List Block}

/-! ### Capacities -/

/-- How many bytes a block of `mymalloc` has, by the header of its page. -/
def Heap.usable (h : Heap) (pt : Nat) : Except Fault Nat :=
  let ph := blockToPage pt
  if load h.mem ph 8 = 0 then .ok (load h.mem (ph + 8) 8 - headerSize)
  else (arenaAt (load h.mem ph 8)).map blockSize

theorem Inv.usable (hI : Inv h live) {l : Block} (hl : l ∈ live) (hcpp : l.cpp = none) :
    h.usable l.addr = .ok l.len := by
  have hI' := hI
  obtain ⟨σ, hL, -, hB⟩ := hI'
  unfold Heap.usable
  rcases hL.live_home l hl with ⟨i, hown, hlen, -⟩ | ⟨p, n, -, -, hlen, -, -⟩ |
    ⟨size, -, -, -, -, hsome, -⟩
  · simp only [(hB.pages hown).are, Nat.add_eq_zero_iff, Nat.one_ne_zero, and_false, if_false,
      arenaAt_succ, Except.map, hlen]
  · have hbig : 1024 < l.len := by
      unfold PGSIZE at hlen
      omega
    obtain ⟨hare, halloc⟩ := hI.alloc_size hl hcpp hbig
    simp only [hare, halloc, if_true, headerSize, Nat.add_sub_cancel]
  · rw [hcpp] at hsome
    cases hsome

/-! ### Reallocation -/

/-- What is to be said of a call of `myrealloc` that has returned a block. -/
structure Reallocated (s s' : System) (l : Block) (capacity size q : Nat) : Prop where
  /-- The block is live, and it is large enough. -/
  live : ∃ b ∈ s'.live, b.addr = q
  usable : ∃ n, s'.heap.usable q = .ok n ∧ size ≤ n
  /-- It has the bytes of the old one, which is live only if it is the same. -/
  bytes : read s'.heap.mem q (min capacity size) = read s.heap.mem l.addr (min capacity size)
  old : q ≠ l.addr → l.addr ∉ addrs s'.live
  /-- The others have not changed. -/
  others : ∀ l' ∈ s.live, l' ≠ l →
    l' ∈ s'.live ∧ read s'.heap.mem l'.addr l'.len = read s.heap.mem l'.addr l'.len

theorem Keeps.read {h' : Heap} (hkeep : Keeps live h h') {l : Block} (hl : l ∈ live) :
    read h'.mem l.addr l.len = read h.mem l.addr l.len :=
  read_congr fun x h1 h2 => hkeep l hl x ⟨h1, h2⟩

theorem Inv.addr_ne (hI : Inv h live) {l l' : Block} (hl : l ∈ live) (hl' : l' ∈ live) (hne : l' ≠ l) :
    l'.addr ≠ l.addr := by
  obtain ⟨σ, hL⟩ := hI.layout
  exact fun heq => hne (List.inj_on_of_nodup_map hL.live_nodup hl' hl heq)

theorem Inv.stays (hI : Inv h live) {s : System} (hs : s = ⟨h, live⟩) {l : Block} (hl : l ∈ live)
    (hcpp : l.cpp = none) {size : Nat} (hfit : size ≤ l.len) :
    Reallocated s s l l.len size l.addr := by
  subst hs
  exact ⟨⟨l, hl, rfl⟩, ⟨l.len, hI.usable hl hcpp, hfit⟩, rfl, fun hne => absurd rfl hne,
    fun l' hl' _ => ⟨hl', rfl⟩⟩

/-- The block `b` is where the block `l` has moved to. -/
theorem Inv.moved (hI : Inv h live) {h' : Heap} {l b : Block} (hl : l ∈ live)
    (hI' : Inv h' (b :: System.release live l.addr)) (hkeep : Keeps (System.release live l.addr) h h')
    (hne : b.addr ≠ l.addr) (hcpp : b.cpp = none) {size : Nat} (hfit : size ≤ b.len)
    (hcopy : ∀ k, k < l.len → h'.mem (b.addr + k) = h.mem (l.addr + k)) :
    Reallocated ⟨h, live⟩ ⟨h', b :: System.release live l.addr⟩ l l.len size b.addr := by
  have hmem : b ∈ b :: System.release live l.addr := List.mem_cons_self
  refine ⟨⟨b, hmem, rfl⟩, ⟨b.len, hI'.usable hmem hcpp, hfit⟩, ?_, ?_, ?_⟩
  · exact read_shift fun k hk => hcopy k (Nat.lt_of_lt_of_le hk (Nat.min_le_left _ _))
  · intro _ hold
    obtain ⟨c, hc, heq⟩ := List.mem_map.mp hold
    rcases List.mem_cons.mp hc with rfl | hc
    · exact hne heq
    · exact (mem_release.mp hc).2 heq
  · intro l' hl' hother
    have hmem' := mem_release.mpr ⟨hl', hI.addr_ne hl hl' hother⟩
    exact ⟨List.mem_cons_of_mem _ hmem', hkeep.read hmem'⟩

/-- **`myrealloc` keeps the bytes of a block, and it fails without a trace.** -/
theorem myrealloc_keeps (s : System) (hs : s.Reachable) {l : Block} (hl : l ∈ s.live)
    (hcpp : l.cpp = none) {capacity : Nat} (hcapacity : s.heap.usable l.addr = .ok capacity)
    {size : Nat} (hsize : size < 2 ^ 63) {mmap : Option Nat}
    (hmmap : System.Fresh s.heap (if size > 1024 then largePages size else 1) mmap) :
    ∃ q s', s.heap.myrealloc l.addr size mmap = .ok (q, s'.heap) ∧
      s.step (.myrealloc l.addr size mmap) = .ok s' ∧
      (q ≠ 0 → Reallocated s s' l capacity size q) ∧ (q = 0 → s' = s) := by
  have hI := hs.inv
  have husable := hI.usable hl hcpp
  obtain rfl : capacity = l.len := Except.ok.inj (hcapacity.symm.trans husable)
  obtain ⟨q, h', hok, hr⟩ := hI.myrealloc hl (by rw [hcpp]; nofun) (by omega) hmmap
  obtain ⟨live', hlive'⟩ : ∃ live', live' = if q = 0 ∨ q = l.addr then s.live
      else ⟨q, extent size, none⟩ :: System.release s.live l.addr := ⟨_, rfl⟩
  have hstep : s.step (.myrealloc l.addr size mmap) = .ok ⟨h', live'⟩ := by
    rw [System.step, hok, hlive']
    rfl
  refine ⟨q, ⟨h', live'⟩, hok, hstep, ?_⟩
  cases hr with
  | fails =>
      rw [if_pos (.inl rfl)] at hlive'
      rw [hlive']
      exact ⟨fun hq => absurd rfl hq, fun _ => rfl⟩
  | stays hfit =>
      rw [if_pos (.inr rfl)] at hlive'
      rw [hlive']
      exact ⟨fun _ => hI.stays rfl hl hcpp hfit, fun _ => rfl⟩
  | moves _ hq hne _ hI' hkeep hcopy =>
      rw [if_neg (by simp [hq, hne])] at hlive'
      obtain ⟨b, hb⟩ : ∃ b : Block, b = ⟨q, extent size, none⟩ := ⟨_, rfl⟩
      have haddr : b.addr = q := by rw [hb]
      have hfit : size ≤ b.len := by
        rw [hb]
        exact le_extent (by omega)
      rw [← hb] at hlive' hI'
      subst haddr
      rw [hlive']
      exact ⟨fun _ => hI.moved hl hI' hkeep hne (by rw [hb]) hfit hcopy, fun hz => absurd hz hq⟩

/-- The block of the first call grows to 2000 bytes and moves. -/
theorem myrealloc_keeps_first :
    ∃ s : System, s.Reachable ∧ ∃ q s', s.heap.myrealloc 7168 2000 (some 8192) = .ok (q, s'.heap) ∧
      s.step (.myrealloc 7168 2000 (some 8192)) = .ok s' ∧
      (q ≠ 0 → Reallocated s s' ⟨7168, 1024, none⟩ 1024 2000 q) ∧ (q = 0 → s' = s) := by
  have hstate : ((System.start fun _ => 0).step firstCall).map (fun s => (s.live, s.heap.owner 8192)) =
      .ok ([⟨7168, 1024, none⟩], none) := rfl
  cases hstep : (System.start fun _ => 0).step firstCall with
  | error e =>
      rw [hstep] at hstate
      cases hstate
  | ok s =>
      rw [hstep] at hstate
      obtain ⟨hlive, hfree⟩ := Prod.mk.inj (Except.ok.inj hstate)
      have hs : s.Reachable :=
        System.Reachable.next ⟨fun _ => 0, [], .nil⟩ ⟨firstCall_legal _, hstep⟩
      have hl : (⟨7168, 1024, none⟩ : Block) ∈ s.live := by rw [hlive]; exact List.mem_cons_self
      have hmmap : System.Fresh s.heap (if 2000 > 1024 then largePages 2000 else 1) (some 8192) := by
        rintro pt ⟨⟩
        refine ⟨by decide, by decide, by decide, ?_⟩
        rintro p ⟨h1, h2, h3⟩
        have hp : p = 8192 := by
          simp [largePages, headerSize, PGSIZE] at h2 h3
          omega
        rw [hp]
        exact hfree
      exact ⟨s, hs, myrealloc_keeps s hs hl rfl (hs.inv.usable hl rfl) (by decide) hmmap⟩

end LinuxUtil.Malloc
