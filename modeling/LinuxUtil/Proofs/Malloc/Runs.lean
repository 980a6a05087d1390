/-
Runs of a program with the allocator.

Every legal event keeps the invariant and does return.  The results about all reachable
states are read off the invariant: where each slot of a page is, that live blocks are
apart from each other and from the headers, when pages are unmapped, and how many an
arena without live blocks keeps.
-/
import LinuxUtil.Proofs.Malloc.Free
import Mathlib.Data.Set.Card

namespace LinuxUtil.Malloc

open ByteMem Heap

variable {h : Heap} {live : List Block} {σ : Slab}

/-! ### Moving a block -/

theorem Inv.addr_ne_zero (hI : Inv h live) {l : Block} (hl : l ∈ live) : l.addr ≠ 0 := by
  obtain ⟨σ, hL⟩ := hI.layout
  have hle := (blockToPage_spec l.addr).2.1
  cases hown : h.owner (blockToPage l.addr) with
  | none => exact absurd hown (hL.live_owner hl)
  | some o =>
      have := (hL.page hown).2.1
      omega

theorem copy_out (l : Block) (src : Nat) {m : Mem} {n : Nat} (hn : n ≤ l.len) :
    ∀ x, ¬ l.Covers x → copy m l.addr src n x = m x := by
  intro x hx
  refine copy_apply_of_out _ _ _ _ ?_
  unfold Block.Covers at hx
  omega

/-- A block of `mymalloc` that fits in no slot has a header with its size. -/
theorem Inv.alloc_size (hI : Inv h live) {l : Block} (hl : l ∈ live) (hcpp : l.cpp = none)
    (hlen : 1024 < l.len) :
    load h.mem (blockToPage l.addr) 8 = 0 ∧
      load h.mem (blockToPage l.addr + 8) 8 = l.len + 32 := by
  obtain ⟨σ, hL⟩ := hI.layout
  rcases hL.live_home l hl with ⟨i, -, hsize, -⟩ | ⟨p, n, haddr, hmod, hn, -, hown⟩ |
    ⟨size, -, -, -, -, hsome, -⟩
  · have := (blockSize_bounds i).2
    omega
  · obtain ⟨hpage, -, hat⟩ := hI.large_header hl haddr hmod hn hcpp hown
    rw [hpage, hn]
    exact ⟨hat.are, hat.alloc_size⟩
  · rw [hcpp] at hsome
    cases hsome

/-- How a call of `myrealloc` may return: there is no memory or the block stays, or it has moved. -/
def Resizes (h : Heap) (live : List Block) (pt size : Nat) (res : Except Fault (Nat × Heap)) : Prop :=
  ∃ newpt h', res = .ok (newpt, h') ∧ Unmaps h h' ∧
    ((newpt = 0 ∨ newpt = pt) ∧ Inv h' live ∨ newpt ≠ 0 ∧ newpt ≠ pt ∧
      Inv h' (⟨newpt, extent size, none⟩ :: System.release live pt))

/-- What a call of `myrealloc` does to the live block `l`: there is no memory, the block is long
enough, or it moves and takes its bytes along. -/
inductive Resized (h : Heap) (live : List Block) (l : Block) (size : Nat) : Nat → Heap → Prop
  | fails : Resized h live l size 0 h
  | stays : size ≤ l.len → Resized h live l size l.addr h
  | moves {q : Nat} {h' : Heap} : l.len < size → q ≠ 0 → q ≠ l.addr → Unmaps h h' →
      Inv h' (⟨q, extent size, none⟩ :: System.release live l.addr) →
      Keeps (System.release live l.addr) h h' →
      (∀ k, k < l.len → h'.mem (q + k) = h.mem (l.addr + k)) → Resized h live l size q h'

/-- The end of `myrealloc`: what is copied fits into the new block. -/
theorem Inv.moveBlock (hI : Inv h live) {l : Block} {size : Nat} {mmap : Option Nat}
    {len : Mem → Nat} (hl : l ∈ live) (hc : ∀ n ∈ l.cpp, n ≤ 1024) (hsize : size + 4127 < 2 ^ 64)
    (hmmap : System.Fresh h (if size > 1024 then largePages size else 1) mmap)
    (hlt : l.len < size) (hlen : ∀ {h' : Heap} {b : Block}, Inv h' (b :: live) → len h'.mem = l.len) :
    ∃ q h', h.moveBlock l.addr size len mmap = .ok (q, h') ∧ Resized h live l size q h' := by
  obtain ⟨q, h₁, hok, hfreed, hkeep₁, ⟨rfl, -, rfl⟩ | ⟨hq, hI₁⟩⟩ := hI.mymalloc hsize hmmap (.inl rfl)
  · refine ⟨0, h₁, ?_, .fails⟩
    unfold Heap.moveBlock
    rw [hok]
    rfl
  · have hne : q ≠ l.addr := by
      obtain ⟨σ, hL⟩ := hI₁.layout
      intro heq
      have hmem : q ∈ addrs live := heq ▸ List.mem_map_of_mem hl
      exact (List.nodup_cons.mp hL.live_nodup).1 hmem
    obtain ⟨b, hb⟩ : ∃ b : Block, b = ⟨q, extent size, none⟩ := ⟨_, rfl⟩
    have hfit : l.len ≤ b.len := by
      rw [hb]
      exact Nat.le_trans (Nat.le_of_lt hlt) (le_extent hsize)
    rw [← hb] at hI₁
    -- the copy goes into the new block only
    have hI₂ := hI₁.write List.mem_cons_self (copy_out b l.addr hfit)
    obtain ⟨h₃, hfree, hI₃, calls, hcalls, hnone⟩ := hI₂.myfree (List.mem_cons_of_mem _ hl) hc
    have hkeep₃ := hI₂.myfree_keeps (List.mem_cons_of_mem _ hl) hc hfree
    have hrelease : System.release (b :: live) l.addr = b :: System.release live l.addr := by
      rw [System.release, List.filter_cons_of_pos (by rw [hb]; simpa using hne)]
      rfl
    rw [hrelease] at hI₃ hkeep₃
    refine ⟨q, h₃, ?_, .moves hlt hq hne ⟨calls, ?_, hnone⟩ (hb ▸ hI₃) ?_ ?_⟩
    · unfold Heap.moveBlock
      rw [hok]
      simp only [bind, Except.bind, hq, if_false, hlen hI₁]
      rw [show q = b.addr by rw [hb], hfree]
      rfl
    · rw [hcalls]
      exact congrArg _ hfreed
    · intro l' hl' x hx
      have hmem := (mem_release.mp hl').1
      have hout : ¬ b.Covers x := by
        intro hcover
        obtain ⟨σ, hL⟩ := hI₁.layout
        have heq := hL.covers_unique List.mem_cons_self (List.mem_cons_of_mem b hmem) hcover hx
        exact (List.nodup_cons.mp hL.live_nodup).1 (heq ▸ List.mem_map_of_mem hmem)
      rw [hkeep₃ l' (List.mem_cons_of_mem b hl') x hx]
      exact (copy_out b l.addr hfit x hout).trans (hkeep₁ l' hmem x hx)
    · intro k hk
      have hcover : b.Covers (q + k) := by
        unfold Block.Covers
        rw [hb] at hfit ⊢
        dsimp only at hfit ⊢
        omega
      rw [hkeep₃ b List.mem_cons_self _ hcover, show q = b.addr by rw [hb]]
      rw [show ({ h₁ with mem := copy h₁.mem b.addr l.addr l.len } : Heap).mem (b.addr + k) =
        h₁.mem (l.addr + k) from copy_apply_of_in _ _ _ _ hk]
      exact hkeep₁ l hl _ ⟨Nat.le_add_right _ _, Nat.add_lt_add_left hk _⟩

/-- `myrealloc` looks up how long the block is, and moves it only if that is too short. -/
theorem Inv.myrealloc_eq (hI : Inv h live) {l : Block} (hl : l ∈ live) (hc : ∀ n ∈ l.cpp, n ≤ 1024)
    (size : Nat) (mmap : Option Nat) :
    ∃ len : Mem → Nat, (∀ {h' : Heap} {b : Block}, Inv h' (b :: live) → len h'.mem = l.len) ∧
      h.myrealloc l.addr size mmap =
        if size ≤ l.len then .ok (l.addr, h) else h.moveBlock l.addr size len mmap := by
  have hne : l.addr ≠ 0 := hI.addr_ne_zero hl
  have hI' := hI
  obtain ⟨σ, hL, -, hB⟩ := hI'
  unfold Heap.myrealloc
  rw [if_neg hne]
  rcases hL.live_home l hl with ⟨i, hown, hlen, -⟩ | ⟨p, n, -, -, hlen, hcpp, -⟩ |
    ⟨n, -, -, h1, -, hcpp, -⟩
  · refine ⟨fun _ => blockSize i, fun _ => hlen.symm, ?_⟩
    simp only [(hB.pages hown).are, Nat.add_eq_zero_iff, Nat.one_ne_zero, and_false, if_false,
      arenaAt_succ, bind, Except.bind, hlen]
    rfl
  · have hbig : 1024 < l.len := by
      unfold PGSIZE at hlen
      omega
    obtain ⟨hare, halloc⟩ := hI.alloc_size hl hcpp hbig
    refine ⟨fun m => load m (blockToPage l.addr + 8) 8 - headerSize, fun hI' => ?_, ?_⟩
    · dsimp only
      rw [(hI'.alloc_size (List.mem_cons_of_mem _ hl) hcpp hbig).2, headerSize,
        Nat.add_sub_cancel]
    · simp only [hare, halloc, if_true, headerSize, Nat.add_sub_cancel]
  · have := hc n hcpp
    omega

/-- **`myrealloc`** of a live block. -/
theorem Inv.myrealloc (hI : Inv h live) {l : Block} {size : Nat} {mmap : Option Nat} (hl : l ∈ live)
    (hc : ∀ n ∈ l.cpp, n ≤ 1024) (hsize : size + 4127 < 2 ^ 64)
    (hmmap : System.Fresh h (if size > 1024 then largePages size else 1) mmap) :
    ∃ q h', h.myrealloc l.addr size mmap = .ok (q, h') ∧ Resized h live l size q h' := by
  obtain ⟨len, hlen, heq⟩ := hI.myrealloc_eq hl hc size mmap
  rw [heq]
  by_cases hfit : size ≤ l.len
  · rw [if_pos hfit]
    exact ⟨_, _, rfl, .stays hfit⟩
  · rw [if_neg hfit]
    exact hI.moveBlock hl hc hsize hmmap (Nat.lt_of_not_le hfit) hlen

/-- The live blocks after it. -/
theorem Resized.resizes (hI : Inv h live) {l : Block} {size q : Nat} {h' : Heap}
    (hr : Resized h live l size q h') : Resizes h live l.addr size (.ok (q, h')) := by
  cases hr with
  | fails => exact ⟨0, h, rfl, .of_eq rfl, .inl ⟨.inl rfl, hI⟩⟩
  | stays => exact ⟨l.addr, h, rfl, .of_eq rfl, .inl ⟨.inr rfl, hI⟩⟩
  | moves _ hq hne hun hI' => exact ⟨q, h', rfl, hun, .inr ⟨hq, hne, hI'⟩⟩

/-! ### Steps -/

theorem Inv.release_zero (hI : Inv h live) : System.release live 0 = live :=
  List.filter_eq_self.mpr fun _ hl => decide_eq_true (hI.addr_ne_zero hl)

theorem Inv.release_null (hI : Inv h live) : Releases h live 0 (.ok h) :=
  ⟨h, rfl, by rw [hI.release_zero]; exact hI, .of_eq rfl⟩

/-- **A legal event returns and keeps the invariant.** -/
theorem Inv.step {s : System} (hI : Inv s.heap s.live) {e : System.Event} (hlegal : s.Legal e) :
    ∃ s', s.step e = .ok s' ∧ Inv s'.heap s'.live ∧ Unmaps s.heap s'.heap := by
  cases e with
  | mymalloc size mmap =>
      obtain ⟨hsize, hmmap⟩ := hlegal
      obtain ⟨pt, h', hok, hfreed, -, hcases⟩ := hI.mymalloc (by omega) hmmap (.inl rfl)
      refine ⟨_, by rw [System.step, hok]; rfl, ?_, .of_eq hfreed⟩
      rcases hcases with ⟨hz, -, rfl⟩ | ⟨hz, hI'⟩
      · simp only [hz, if_true]
        exact hI
      · simp only [hz, if_false]
        exact hI'
  | myfree pt =>
      have hfree : Releases s.heap s.live pt (s.heap.myfree pt) := by
        rcases hlegal with rfl | ⟨l, hl, rfl, hc⟩
        · exact hI.release_null
        · exact hI.myfree hl hc
      obtain ⟨h', hok, hI', hun⟩ := hfree
      exact ⟨_, by rw [System.step, hok]; rfl, hI', hun⟩
  | myrealloc pt size mmap =>
      obtain ⟨hpt, hsize, hmmap⟩ := hlegal
      have hre : Resizes s.heap s.live pt size (s.heap.myrealloc pt size mmap) := by
        rcases hpt with rfl | ⟨l, hl, rfl, hc⟩
        · obtain ⟨newpt, h', hok, hfreed, -, hcases⟩ := hI.mymalloc (by omega) hmmap (.inl rfl)
          refine ⟨newpt, h', by rw [Heap.myrealloc, if_pos rfl]; exact hok, .of_eq hfreed, ?_⟩
          rcases hcases with ⟨hz, -, rfl⟩ | ⟨hz, hI'⟩
          · exact .inl ⟨.inl hz, hI⟩
          · refine .inr ⟨hz, hz, ?_⟩
            rw [hI.release_zero]
            exact hI'
        · obtain ⟨q, h', hok, hr⟩ := hI.myrealloc hl hc (by omega) hmmap
          rw [hok]
          exact hr.resizes hI
      obtain ⟨newpt, h', hok, hun, hcases⟩ := hre
      refine ⟨_, by rw [System.step, hok]; rfl, ?_, hun⟩
      rcases hcases with ⟨hsame, hI'⟩ | ⟨hz, hne, hI'⟩
      · simp only [hsame, if_true]
        exact hI'
      · simp only [hz, hne, or_self, if_false]
        exact hI'
  | cppAlloc size mmap =>
      obtain ⟨hsize, hmmap⟩ := hlegal
      obtain ⟨pt, h', hok, hfreed, hcases⟩ := hI.cppAlloc hsize hmmap
      refine ⟨_, by rw [System.step, hok]; rfl, ?_, .of_eq hfreed⟩
      rcases hcases with ⟨hz, rfl⟩ | ⟨hz, hI'⟩
      · simp only [hz, if_true]
        exact hI
      · simp only [hz, if_false]
        exact hI'
  | cppFree pt size =>
      have hfree : Releases s.heap s.live pt (s.heap.cppFree pt size) := by
        rcases hlegal with rfl | ⟨l, hl, rfl, hc⟩
        · unfold Heap.cppFree
          by_cases hlarge : size > 1024
          · rw [if_pos hlarge, if_neg (by simp)]
            exact hI.release_null
          · rw [if_neg hlarge]
            exact hI.release_null
        · exact hI.cppFree hl hc
      obtain ⟨h', hok, hI', hun⟩ := hfree
      exact ⟨_, by rw [System.step, hok]; rfl, hI', hun⟩
  | write a bs =>
      obtain ⟨l, hl, h1, h2⟩ := hlegal
      refine ⟨_, rfl, hI.write hl fun x hx => write_apply_of_out _ _ _ ?_, .of_eq rfl⟩
      unfold Block.Covers at hx
      omega

theorem start_inv (m : Mem) : Inv (System.start m).heap (System.start m).live := by
  refine ⟨⟨fun _ => [], fun _ => []⟩, ⟨nofun, nofun, ?_, nofun, List.nodup_nil, ?_⟩, nofun,
    ⟨nofun, fun _ => rfl, nofun⟩⟩
  · exact fun i => ⟨0, nofun⟩
  · exact fun i hi => absurd rfl hi

/-- The state a run of legal events ends in. -/
def System.Reachable (s : System) : Prop :=
  ∃ m es, Runs.Reach System.Next (System.start m) es s

theorem System.Reachable.next {s s' : System} {e : System.Event} (hs : s.Reachable)
    (hnext : s.Next e s') : s'.Reachable := by
  obtain ⟨m, es, hrun⟩ := hs
  exact ⟨m, es ++ [e], hrun.snoc hnext⟩

theorem System.Reachable.inv {s : System} (hs : s.Reachable) : Inv s.heap s.live := by
  obtain ⟨m, es, hrun⟩ := hs
  refine hrun.invariant (I := fun s => Inv s.heap s.live) (start_inv m) ?_
  rintro s s' e hI ⟨hlegal, hstep⟩
  obtain ⟨s'', hok, hI', -⟩ := hI.step hlegal
  obtain rfl := Except.ok.inj (hstep.symm.trans hok)
  exact hI'

/-! ### Where the slots of a page are -/

/-- Exactly one of three. -/
def OneOf (a b c : Prop) : Prop := a ∧ ¬ b ∧ ¬ c ∨ ¬ a ∧ b ∧ ¬ c ∨ ¬ a ∧ ¬ b ∧ c

/-- The `n` bytes at `a` and the `k` bytes at `b`. -/
def Apart (a n b k : Nat) : Prop := a + n ≤ b ∨ b + k ≤ a

theorem apart_of_covers {a n b k : Nat} (h : ∀ x, a ≤ x → x < a + n → b ≤ x → x < b + k → False) :
    Apart a n b k ∨ n = 0 ∨ k = 0 := by
  unfold Apart
  by_contra hnot
  exact h (max a b) (by omega) (by omega) (by omega) (by omega)

/-- The lists of arena `i` and of its pages hold every slot that is not live, once. -/
structure ArenaParts (s : System) (i : Fin ncaches) (free : List Nat) : Prop where
  chain : Chain s.heap.mem (s.heap.caches i).freelist free
  nodup : free.Nodup
  one_page : ∃ q, ∀ b ∈ free, b ∈ slots i q ∧ s.heap.owner q = some (.arena i)
  pages : ∀ p, s.heap.owner p = some (.arena i) → ∃ fl, FreeList s.heap.mem (p + 8) fl ∧
    load s.heap.mem (p + 24) 2 = fl.length ∧ (∀ b ∈ fl, b ∈ slots i p) ∧
    ∀ b ∈ slots i p, OneOf (b ∈ addrs s.live) (b ∈ fl) (b ∈ free)

theorem Layout.oneOf (hL : Layout h live σ) {p b : Nat} {i : Fin ncaches}
    (hp : h.owner p = some (.arena i)) (hb : b ∈ slots i p) :
    OneOf (b ∈ addrs live) (b ∈ σ.fl p) (b ∈ σ.free i) := by
  rcases List.mem_append.mp ((hL.parts hp).symm.subset hb) with hfl | hother
  · exact .inr (.inl ⟨hL.not_live_of_fl hp hfl, hfl, hL.not_free_of_fl hp hfl⟩)
  · have hnot : b ∉ σ.fl p := fun hfl =>
      List.disjoint_of_nodup_append (hL.parts_nodup hp) hfl hother
    rcases List.mem_append.mp (List.mem_filter.mp hother).1 with hfree | hlive
    · exact .inr (.inr ⟨hL.not_live_of_free hfree, hnot, hfree⟩)
    · exact .inl ⟨hlive, hnot, fun hfree => hL.not_live_of_free hfree hlive⟩

theorem arenaParts {s : System} (hL : Layout s.heap s.live σ) (hB : Bytes s.heap s.live σ)
    (i : Fin ncaches) : ArenaParts s i (σ.free i) := by
  refine ⟨hB.free i, (hB.free i).nodup, ?_, fun p hp => ?_⟩
  · obtain ⟨q, hq⟩ := hL.free_page i
    refine ⟨q, fun b hb => ?_⟩
    obtain ⟨rfl, hown⟩ := hq b hb
    exact ⟨(hL.free_slot hb).2, hown⟩
  · exact ⟨σ.fl p, (hB.pages hp).list, (hB.pages hp).avail, fun b hb => hL.fl_slot hp hb,
      fun b hb => hL.oneOf hp hb⟩

/-- A live block and the bytes of a header. -/
theorem Layout.header_apart (hL : Layout h live σ) {l : Block} {a : Nat} (hl : l ∈ live)
    (ha : ∀ x, a ≤ x → x < a + 32 → Meta h live σ x) : Apart l.addr l.len a 32 := by
  have hpos := (hL.live_home l hl).len_pos
  rcases apart_of_covers (a := l.addr) (n := l.len) (b := a) (k := 32) fun x h1 h2 h3 h4 =>
    (hL.meta_spec (ha x h3 h4)).2 l hl ⟨h1, h2⟩ with hap | hz | hz
  · exact hap
  · omega
  · omega

theorem Layout.live_pairwise (hL : Layout h live σ) :
    live.Pairwise fun l l' => Apart l.addr l.len l'.addr l'.len := by
  have hne : live.Pairwise fun l l' => l.addr ≠ l'.addr := List.pairwise_map.mp hL.live_nodup
  refine hne.imp_of_mem fun {l l'} hl hl' haddr => ?_
  have hpos := (hL.live_home l hl).len_pos
  have hpos' := (hL.live_home l' hl').len_pos
  rcases apart_of_covers (a := l.addr) (n := l.len) (b := l'.addr) (k := l'.len)
    fun x h1 h2 h3 h4 => haddr (hL.covers_unique hl hl' ⟨h1, h2⟩ ⟨h3, h4⟩) with hap | hz | hz
  · exact hap
  · omega
  · omega

/-- **Every slot of every page is at exactly one place**: live, in the list of its page, or in the list
of its arena.  Live blocks are apart from each other and from all headers, and every legal event
returns. -/
theorem slab_partition (s : System) (hs : s.Reachable) :
    (∀ i, ∃ free, ArenaParts s i free) ∧
      s.live.Pairwise (fun l l' => Apart l.addr l.len l'.addr l'.len) ∧
      (∀ l ∈ s.live, ∀ p i, s.heap.owner p = some (.arena i) → Apart l.addr l.len p 32) ∧
      (∀ l ∈ s.live, ∀ l' ∈ s.live, IsLarge s.heap.owner l' →
        Apart l.addr l.len (l'.addr - 32) 32) ∧
      ∀ e, s.Legal e → ∃ s', s.step e = .ok s' := by
  have hI := hs.inv
  obtain ⟨σ, hL, hF, hB⟩ := hs.inv
  refine ⟨fun i => ⟨σ.free i, arenaParts hL hB i⟩, hL.live_pairwise, ?_, ?_, ?_⟩
  · exact fun l hl p i hp => hL.header_apart hl fun x h1 h2 => .header p i hp h1 h2
  · intro l hl l' hl' hlarge
    obtain ⟨p, n, haddr, -, -, -, -⟩ := hL.large_page hl' hlarge
    exact hL.header_apart hl fun x h1 h2 => .large l' hl' hlarge h1 (by omega)
  · intro e he
    obtain ⟨s', hok, -, -⟩ := hI.step he
    exact ⟨s', hok⟩

/-- The first call of a program: 1000 bytes, for which the page at 4096 is mapped. -/
def firstCall : System.Event := .mymalloc 1000 (some 4096)

theorem firstCall_legal (m : Mem) : (System.start m).Legal firstCall := by
  refine ⟨by decide, ?_⟩
  rintro pt ⟨⟩
  exact ⟨by decide, by decide, by decide, fun _ _ => rfl⟩

theorem slab_partition_first :
    ∃ s : System, s.Reachable ∧ s.live = [⟨7168, 1024, none⟩] ∧ ∃ free, ArenaParts s 6 free := by
  have hlive : ((System.start fun _ => 0).step firstCall).map System.live =
      .ok [⟨7168, 1024, none⟩] := rfl
  cases hstep : (System.start fun _ => 0).step firstCall with
  | error e =>
      rw [hstep] at hlive
      cases hlive
  | ok s =>
      rw [hstep] at hlive
      have hs : s.Reachable :=
        System.Reachable.next ⟨fun _ => 0, [], .nil⟩ ⟨firstCall_legal _, hstep⟩
      exact ⟨s, hs, Except.ok.inj hlive, (slab_partition s hs).1 6⟩

/-! ### Which pages are mapped -/

/-- Nothing is in a page that is not mapped. -/
theorem Inv.empty_page (hI : Inv h live) {q : Nat} (hq : h.owner q = none) :
    (∀ l ∈ live, ∀ x, l.Covers x → blockToPage x ≠ q) ∧
      ∀ i, ∃ free, Chain h.mem (h.caches i).freelist free ∧ ∀ b ∈ free, blockToPage b ≠ q := by
  obtain ⟨σ, hL, -, hB⟩ := hI
  refine ⟨?_, fun i => ⟨σ.free i, hB.free i, ?_⟩⟩
  · rintro l hl x hx rfl
    rcases hL.owner_covers hl hx with ⟨i, hi, -, -⟩ | hb
    · rw [hq] at hi
      cases hi
    · rw [hq] at hb
      cases hb
  · rintro b hb rfl
    have hown := (hL.free_slot hb).1
    rw [hq] at hown
    cases hown

/-- Without live blocks, a page of an arena is the idle page or has the arena's list. -/
theorem Inv.retained (hI : Inv h live) {i : Fin ncaches}
    (hnone : ∀ l ∈ live, h.owner (blockToPage l.addr) ≠ some (.arena i)) {p : Nat}
    (hp : h.owner p = some (.arena i)) :
    p = (h.caches i).idlepage ∨
      (h.caches i).freelist ≠ 0 ∧ p = blockToPage (h.caches i).freelist := by
  obtain ⟨σ, hL, hF, hB⟩ := hI
  by_cases hrest : (σ.free i ++ addrs live).filter (blockToPage · = p) = []
  · exact .inl (hF p i hp ((hL.full_iff hp).mpr hrest)).symm
  · right
    obtain ⟨b, hb⟩ := List.exists_mem_of_ne_nil _ hrest
    obtain ⟨hmem, hpage⟩ := List.mem_filter.mp hb
    have hpage : blockToPage b = p := of_decide_eq_true hpage
    have hchain := hB.free i
    obtain ⟨q, hq⟩ := hL.free_page i
    rcases List.mem_append.mp hmem with hfree | hlive
    · cases hlist : σ.free i with
      | nil =>
          rw [hlist] at hfree
          cases hfree
      | cons c rest =>
          rw [hlist] at hchain
          have hc := (hq c (by rw [hlist]; exact List.mem_cons_self)).1
          rw [hchain.1]
          exact ⟨hchain.2.1, by rw [hc, ← hpage, (hq b hfree).1]⟩
    · obtain ⟨l, hl, rfl⟩ := List.mem_map.mp hlive
      exact absurd (hpage ▸ hp) (hnone l hl)

/-- **Pages are unmapped only when nothing is left in them, and few are kept.**  What `free_page` is
given has no live block and no block of an arena's list; the idle page and the lists of an arena are on
mapped pages; and an arena without live blocks has at most two pages. -/
theorem slab_retention (s : System) (hs : s.Reachable) :
    (∀ e s', s.Next e s' → ∃ calls, s'.heap.freed = calls ++ s.heap.freed ∧
      ∀ c ∈ calls, ∀ q, InPages c.1 c.2 q →
        (∀ l ∈ s'.live, ∀ x, l.Covers x → blockToPage x ≠ q) ∧
        ∀ i, ∃ free, Chain s'.heap.mem (s'.heap.caches i).freelist free ∧
          ∀ b ∈ free, blockToPage b ≠ q) ∧
      (∀ i, ((s.heap.caches i).idlepage ≠ 0 →
          s.heap.owner (s.heap.caches i).idlepage = some (.arena i)) ∧
        ∃ free, Chain s.heap.mem (s.heap.caches i).freelist free ∧
          ∀ b ∈ free, s.heap.owner (blockToPage b) = some (.arena i)) ∧
      ∀ i, (∀ l ∈ s.live, s.heap.owner (blockToPage l.addr) ≠ some (.arena i)) →
        (∀ p, s.heap.owner p = some (.arena i) → p = (s.heap.caches i).idlepage ∨
          (s.heap.caches i).freelist ≠ 0 ∧ p = blockToPage (s.heap.caches i).freelist) ∧
        {p | s.heap.owner p = some (.arena i)}.encard ≤ 2 := by
  have hI := hs.inv
  refine ⟨?_, ?_, ?_⟩
  · intro e s' hnext
    have hI' := (hs.next hnext).inv
    obtain ⟨s'', hok, -, calls, hcalls, hnone⟩ := hI.step hnext.1
    obtain rfl := Except.ok.inj (hnext.2.symm.trans hok)
    exact ⟨calls, hcalls, fun c hc q hq => hI'.empty_page (hnone c hc q hq)⟩
  · obtain ⟨σ, hL, -, hB⟩ := hI
    exact fun i => ⟨fun hi => (hL.idle i hi).1, σ.free i, hB.free i, fun b hb => (hL.free_slot hb).1⟩
  · intro i hnone
    refine ⟨fun p hp => hI.retained hnone hp, ?_⟩
    calc {p | s.heap.owner p = some (.arena i)}.encard
        ≤ ({(s.heap.caches i).idlepage, blockToPage (s.heap.caches i).freelist} : Set Nat).encard := by
          refine Set.encard_le_encard fun p hp => ?_
          rcases hI.retained hnone hp with hidle | ⟨-, hlist⟩
          · exact .inl hidle
          · exact .inr hlist
      _ ≤ ({blockToPage (s.heap.caches i).freelist} : Set Nat).encard + 1 := Set.encard_insert_le _ _
      _ = 2 := by
          rw [Set.encard_singleton]
          rfl

/-- The block of the first call is freed again: its page stays, for the other two blocks of it are in the
arena's list. -/
theorem slab_retention_first :
    ∃ s : System, s.Reachable ∧ s.live = [] ∧ s.heap.owner 4096 = some (.arena 6) ∧
      {p | s.heap.owner p = some (.arena 6)}.encard ≤ 2 := by
  have hrun : (((System.start fun _ => 0).step firstCall).bind fun s =>
      s.step (.myfree 7168)).map (fun s => (s.live, s.heap.owner 4096)) =
      .ok ([], some (.arena 6)) := rfl
  have hlive : ((System.start fun _ => 0).step firstCall).map System.live =
      .ok [⟨7168, 1024, none⟩] := rfl
  cases hfirst : (System.start fun _ => 0).step firstCall with
  | error e =>
      rw [hfirst] at hlive
      cases hlive
  | ok s₁ =>
      rw [hfirst] at hlive hrun
      have hs₁ : s₁.Reachable :=
        System.Reachable.next ⟨fun _ => 0, [], .nil⟩ ⟨firstCall_legal _, hfirst⟩
      have hlegal : s₁.Legal (.myfree 7168) := by
        refine .inr ⟨⟨7168, 1024, none⟩, ?_, rfl, nofun⟩
        rw [show s₁.live = [⟨7168, 1024, none⟩] from Except.ok.inj hlive]
        exact List.mem_singleton_self _
      cases hsecond : s₁.step (.myfree 7168) with
      | error e =>
          simp only [Except.bind, hsecond] at hrun
          cases hrun
      | ok s₂ =>
          simp only [Except.bind, hsecond] at hrun
          obtain ⟨hnil, hown⟩ := Prod.mk.inj (Except.ok.inj hrun)
          have hs₂ := hs₁.next ⟨hlegal, hsecond⟩
          refine ⟨s₂, hs₂, hnil, hown, ((slab_retention s₂ hs₂).2.2 6 ?_).2⟩
          rw [hnil]
          exact nofun

end LinuxUtil.Malloc
