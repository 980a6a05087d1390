/-
Freeing keeps the invariant.

A small block goes to the list of its page.  If that list is then full, no block of the
page is anywhere else, and the page becomes the idle page or is unmapped.  A large block
takes its pages with it.
-/
import LinuxUtil.Proofs.Malloc.Malloc

namespace LinuxUtil.Malloc

open ByteMem Heap

variable {h : Heap} {live : List Block} {σ : Slab}

/-! ### Live blocks -/

theorem mem_release {l : Block} {a : Nat} :
    l ∈ System.release live a ↔ l ∈ live ∧ l.addr ≠ a := by
  simp [System.release]

theorem addrs_release (live : List Block) (a : Nat) :
    addrs (System.release live a) = (addrs live).filter (· ≠ a) := by
  rw [addrs, addrs, System.release, List.filter_map]
  rfl

theorem release_perm {l : Block} (hnd : (addrs live).Nodup) (hl : l ∈ live) :
    (addrs live).Perm (l.addr :: addrs (System.release live l.addr)) := by
  have hmem : l.addr ∈ addrs live := List.mem_map_of_mem hl
  refine (List.perm_cons_erase hmem).trans ?_
  rw [addrs_release, List.Nodup.erase_eq_filter hnd]
  refine List.Perm.of_eq (congrArg _ (List.filter_congr fun b _ => ?_))
  by_cases hb : b = l.addr <;> simp [hb]

/-- What leaves the live blocks leaves those of its page. -/
theorem release_filter {l : Block} (hnd : (addrs live).Nodup) (hl : l ∈ live) (l' : List Nat)
    (q : Nat) : ((l' ++ addrs live).filter (blockToPage · = q)).Perm
      ((l.addr :: (l' ++ addrs (System.release live l.addr))).filter (blockToPage · = q)) :=
  List.Perm.filter _ ((List.Perm.append_left _ (release_perm hnd hl)).trans List.perm_middle)

theorem release_nodup (hnd : (addrs live).Nodup) (a : Nat) :
    (addrs (System.release live a)).Nodup := by
  rw [addrs_release]
  exact hnd.filter _

/-! ### A block goes to the list of its page -/

theorem Layout.full_iff (hL : Layout h live σ) {p : Nat} {i : Fin ncaches}
    (hp : h.owner p = some (.arena i)) :
    (σ.fl p).length = nslots i ↔ (σ.free i ++ addrs live).filter (blockToPage · = p) = [] := by
  have hlen := (hL.parts hp).length_eq
  rw [List.length_append, length_slots] at hlen
  rw [← List.length_eq_zero_iff]
  omega

/-- A page with a live block is not full. -/
theorem Layout.not_full (hL : Layout h live σ) {l : Block} {i : Fin ncaches} (hl : l ∈ live)
    (hp : h.owner (blockToPage l.addr) = some (.arena i)) :
    (σ.fl (blockToPage l.addr)).length ≠ nslots i := by
  intro hfull
  have hnil := (hL.full_iff hp).mp hfull
  have hmem : l.addr ∈ (σ.free i ++ addrs live).filter (blockToPage · = blockToPage l.addr) :=
    List.mem_filter.mpr
      ⟨List.mem_append_right _ (List.mem_map_of_mem hl), decide_eq_true rfl⟩
  rw [hnil] at hmem
  cases hmem

theorem Layout.push (hL : Layout h live σ) {l : Block} (hl : l ∈ live) (m : Mem) :
    Layout { h with mem := m } (System.release live l.addr)
      (σ.setFl (blockToPage l.addr) (l.addr :: σ.fl (blockToPage l.addr))) := by
  refine ⟨hL.page, ?_, hL.free_page, ?_, release_nodup hL.live_nodup _, ?_⟩
  · intro q j hq
    have hparts := hL.parts hq
    have hmove := release_filter hL.live_nodup hl (σ.free j) q
    by_cases hqp : q = blockToPage l.addr
    · subst hqp
      rw [List.filter_cons_of_pos (by simp)] at hmove
      rw [Slab.setFl_self, List.cons_append]
      refine List.Perm.trans ?_ ((List.Perm.append_left _ hmove.symm).trans hparts)
      exact List.perm_middle.symm
    · rw [List.filter_cons_of_neg (by simpa using Ne.symm hqp)] at hmove
      rw [Slab.setFl_of_ne _ _ hqp]
      exact (List.Perm.append_left _ hmove.symm).trans hparts
  · intro l' hl'
    exact hL.live_home l' (mem_release.mp hl').1
  · intro j hj
    obtain ⟨hown, hlen⟩ := hL.idle j hj
    have hne : (h.caches j).idlepage ≠ blockToPage l.addr := by
      intro heq
      rw [heq] at hown hlen
      exact hL.not_full hl hown hlen
    refine ⟨hown, ?_⟩
    change ((σ.setFl _ _).fl (h.caches j).idlepage).length = _
    rw [Slab.setFl_of_ne _ _ hne]
    exact hlen

/-- What the stores of `myfree` do to a page. -/
theorem PageAt.push {m : Mem} {i : Fin ncaches} {p a : Nat} {l : List Nat} (h : PageAt m i p l)
    (hslot : ∀ b ∈ l, b ∈ slots i p) (ha : a ∈ slots i p) (hnot : a ∉ l) (hlt : p + 4096 ≤ 2 ^ 64)
    (hlen : l.length < nslots i) {m' : Mem}
    (hm' : m' = freelistFree (store m (p + 24) 2 (load m (p + 24) 2 + 1)) (p + 8) a) :
    PageAt m' i p (a :: l) ∧
      ∀ x, x < p + 8 ∨ p + 26 ≤ x → x < a ∨ a + 8 ≤ x → m' x = m x := by
  have hin := slot_in ha
  have hsize := (blockSize_bounds i).1
  have hmax := (slot_bounds i).2.2.2
  have hout : ∀ x, x < p + 8 ∨ p + 26 ≤ x → x < a ∨ a + 8 ≤ x → m' x = m x := by
    intro x hx hxa
    rw [hm', freelistFree_out _ _ _ (by omega) hxa, store_apply_of_out _ _ _ _ (by omega)]
  have hlist : FreeList (store m (p + 24) 2 (load m (p + 24) 2 + 1)) (p + 8) l := by
    refine h.list.congr (fun x h1 h2 => store_apply_of_out _ _ _ _ (by omega)) ?_
    intro b hb x h1 h2
    have := slot_in (hslot b hb)
    exact store_apply_of_out _ _ _ _ (by omega)
  refine ⟨h.setList (fun x _ h1 h2 => hout x h1 (by omega)) ?_ ?_, hout⟩
  · rw [hm']
    refine hlist.push (by omega) (by omega) (by omega) fun b hb => ?_
    have hb' := slot_in (hslot b hb)
    have hap := slot_apart (hslot b hb) ha fun heq => hnot (heq ▸ hb)
    omega
  · rw [hm', load_freelistFree _ _ _ (by omega) (by omega), h.avail, List.length_cons]
    exact load_store_eq (by omega)

/-- All but `FullIdle` of the page itself. -/
theorem Bytes.push (hB : Bytes h live σ) (hL : Layout h live σ) {l : Block} {i : Fin ncaches}
    (hl : l ∈ live) (hp : h.owner (blockToPage l.addr) = some (.arena i)) {m : Mem}
    (hm : m = freelistFree (store h.mem (blockToPage l.addr + 24) 2
      (load h.mem (blockToPage l.addr + 24) 2 + 1)) (blockToPage l.addr + 8) l.addr) :
    Bytes { h with mem := m } (System.release live l.addr)
      (σ.setFl (blockToPage l.addr) (l.addr :: σ.fl (blockToPage l.addr))) := by
  obtain ⟨hmod, -, hlt⟩ := hL.page hp
  have hslot := hL.live_slot hl hp
  have hin := slot_in hslot
  have hsize := (blockSize_bounds i).1
  have hnot : l.addr ∉ σ.fl (blockToPage l.addr) := fun hmem =>
    hL.not_live_of_fl hp hmem (List.mem_map_of_mem hl)
  have hlen : (σ.fl (blockToPage l.addr)).length < nslots i := by
    have hne := hL.not_full hl hp
    have hle := (hL.parts hp).length_eq
    rw [List.length_append, length_slots] at hle
    omega
  obtain ⟨hpage, hout⟩ := (hB.pages hp).push (fun b hb => hL.fl_slot hp hb) hslot hnot hlt hlen hm
  refine hB.update_page hL hp (fun q _ => rfl) (fun x hx => hout x (by omega) (by omega))
    (fun q hq => Slab.setFl_of_ne _ _ hq) hmod ?_ ?_ fun l' hl' _ => (mem_release.mp hl').1
  · rw [Slab.setFl_self]
    exact hpage
  · intro j
    refine (hB.free j).congr fun b hb => load_congr fun x h1 h2 => ?_
    by_cases hbp : blockToPage b = blockToPage l.addr
    · obtain ⟨hown, hbs⟩ := hL.free_slot hb
      rw [hbp] at hown hbs
      obtain rfl := arena_inj hp hown
      have hbin := slot_in hbs
      have hne : b ≠ l.addr := fun heq =>
        hL.not_live_of_free hb (heq ▸ List.mem_map_of_mem hl)
      have hap := slot_apart hbs hslot hne
      exact hout x (by omega) (by omega)
    · have := hL.free_out hmod hb hbp h1 h2
      exact hout x (by omega) (by omega)

/-! ### Unmapping -/

theorem freePage_owner {p n q : Nat} {o : Owner} (hq : (h.freePage p n).owner q = some o) :
    h.owner q = some o := by
  by_cases hin : InPages p n q
  · rw [show (h.freePage p n).owner q = none from if_pos hin] at hq
    cases hq
  · rwa [show (h.freePage p n).owner q = h.owner q from if_neg hin] at hq

/-- A full page of which nothing is left is unmapped. -/
theorem Layout.unmap (hL : Layout h live σ) {p : Nat} {i : Fin ncaches}
    (hp : h.owner p = some (.arena i)) (hfull : (σ.fl p).length = nslots i)
    (hidle : ∀ j, (h.caches j).idlepage ≠ p) : Layout (h.freePage p 1) live σ := by
  have hmod := (hL.page hp).1
  have hkeep : ∀ q, q ≠ p → (h.freePage p 1).owner q = h.owner q := fun q hq =>
    if_neg fun hin => hq ((inPages_one hmod).mp hin)
  have hnone : ∀ b, b ∈ σ.free i ++ addrs live → blockToPage b ≠ p := by
    intro b hb hbp
    have hmem : b ∈ (σ.free i ++ addrs live).filter (blockToPage · = p) :=
      List.mem_filter.mpr ⟨hb, decide_eq_true hbp⟩
    rw [(hL.full_iff hp).mp hfull] at hmem
    cases hmem
  refine ⟨fun hq => hL.page (freePage_owner hq), fun hq => hL.parts (freePage_owner hq), ?_, ?_,
    hL.live_nodup, ?_⟩
  · intro j
    obtain ⟨q, hq⟩ := hL.free_page j
    refine ⟨q, fun b hb => ⟨(hq b hb).1, ?_⟩⟩
    obtain ⟨hbq, howner⟩ := hq b hb
    refine (hkeep q fun hqp => ?_).trans howner
    rw [hqp] at howner
    obtain rfl := arena_inj hp howner
    exact hnone b (List.mem_append_left _ hb) (hbq.trans hqp)
  · intro l hl
    refine (hL.live_home l hl).congr fun q o hq ho => (hkeep q fun hqp => ?_).trans hq
    rw [hqp] at hq ho
    rw [hp] at hq
    rcases ho with rfl | hpage
    · cases hq
    · exact hnone l.addr (List.mem_append_right _ (List.mem_map_of_mem hl)) hpage.symm
  · intro j hj
    obtain ⟨howner, hlen⟩ := hL.idle j hj
    exact ⟨(hkeep _ (hidle j)).trans howner, hlen⟩

theorem Bytes.unmap (hB : Bytes h live σ) {p n : Nat} {live' : List Block}
    (hlive : ∀ l ∈ live', l ∈ live) : Bytes (h.freePage p n) live' σ := by
  refine ⟨fun hq => hB.pages (freePage_owner hq), hB.free, fun l hl hlarge => ?_⟩
  exact hB.large l (hlive l hl) ⟨hlarge.1, freePage_owner hlarge.2⟩

/-- The pages of one block are unmapped. -/
theorem Layout.unmapBlock (hL : Layout h live σ) {l : Block} {p n : Nat} (hl : l ∈ live)
    (hpages : ∀ q, InPages p n q → h.owner q = some (.block l.addr))
    (hin : InPages p n (blockToPage l.addr)) :
    Layout (h.freePage p n) (System.release live l.addr) σ := by
  have hkeep : ∀ {q o}, h.owner q = some o → o ≠ .block l.addr →
      (h.freePage p n).owner q = some o := by
    intro q o hq ho
    refine (if_neg fun hin => ?_).trans hq
    rw [hpages q hin] at hq
    exact ho (Option.some.inj hq).symm
  refine ⟨fun hq => hL.page (freePage_owner hq), ?_, ?_, ?_, release_nodup hL.live_nodup _, ?_⟩
  · intro q j hq
    have hq' := freePage_owner hq
    have hne : blockToPage l.addr ≠ q := by
      rintro rfl
      rw [hpages _ hin] at hq'
      cases hq'
    have hmove := release_filter hL.live_nodup hl (σ.free j) q
    rw [List.filter_cons_of_neg (by simpa using hne)] at hmove
    exact (List.Perm.append_left _ hmove.symm).trans (hL.parts hq')
  · intro j
    obtain ⟨q, hq⟩ := hL.free_page j
    exact ⟨q, fun b hb => ⟨(hq b hb).1, hkeep (hq b hb).2 nofun⟩⟩
  · intro l' hl'
    obtain ⟨hmem, hne⟩ := mem_release.mp hl'
    refine (hL.live_home l' hmem).congr fun q o hq ho => hkeep hq ?_
    rintro rfl
    rcases ho with ho | rfl
    · exact hne (Owner.block.inj ho).symm
    · rcases hL.owner_covers hmem (x := l'.addr)
        ⟨Nat.le_refl _, by have := (hL.live_home l' hmem).len_pos; omega⟩ with ⟨j, hj, -, -⟩ | hj
      · rw [hq] at hj
        cases hj
      · rw [hq] at hj
        exact hne (Owner.block.inj (Option.some.inj hj)).symm
  · intro j hj
    obtain ⟨hown, hlen⟩ := hL.idle j hj
    exact ⟨hkeep hown nofun, hlen⟩

theorem Inv.unmapBlock (hI : Inv h live) {l : Block} {p n : Nat} (hl : l ∈ live)
    (hpages : ∀ q, InPages p n q → h.owner q = some (.block l.addr))
    (hin : InPages p n (blockToPage l.addr)) :
    Inv (h.freePage p n) (System.release live l.addr) := by
  obtain ⟨σ, hL, hF, hB⟩ := hI
  refine ⟨σ, hL.unmapBlock hl hpages hin, ?_, hB.unmap fun l' hl' => (mem_release.mp hl').1⟩
  exact fun q j hq hfull => hF q j (freePage_owner hq) hfull

/-! ### The interface -/

/-- What was given to `free_page` in between is not mapped now. -/
def Unmaps (h h' : Heap) : Prop :=
  ∃ calls, h'.freed = calls ++ h.freed ∧ ∀ c ∈ calls, ∀ q, InPages c.1 c.2 q → h'.owner q = none

theorem Unmaps.of_eq {h h' : Heap} (heq : h'.freed = h.freed) : Unmaps h h' :=
  ⟨[], heq, nofun⟩

theorem unmaps_freePage {h₀ : Heap} (heq : h₀.freed = h.freed) (p n : Nat) :
    Unmaps h (h₀.freePage p n) := by
  refine ⟨[(p, n)], congrArg _ heq, fun c hc q hq => ?_⟩
  rw [List.mem_singleton.mp hc] at hq
  exact if_pos hq

/-- How a call that releases a block returns. -/
def Releases (h : Heap) (live : List Block) (pt : Nat) (res : Except Fault Heap) : Prop :=
  ∃ h', res = .ok h' ∧ Inv h' (System.release live pt) ∧ Unmaps h h'

theorem arenaAt_succ (i : Fin ncaches) : arenaAt (i.val + 1) = .ok i := dif_pos i.isLt

/-- `arena_add_idle`, for a page that has just become full. -/
theorem Inv.addIdle (hL : Layout h live σ) (hB : Bytes h live σ) {p : Nat} {i : Fin ncaches}
    (hp : h.owner p = some (.arena i)) (hfull : (σ.fl p).length = nslots i)
    (hidle : ∀ j, (h.caches j).idlepage ≠ p)
    (hF : ∀ q j, q ≠ p → h.owner q = some (.arena j) → (σ.fl q).length = nslots j →
      (h.caches j).idlepage = q) :
    Inv (h.arenaAddIdle i p) live ∧ Unmaps h (h.arenaAddIdle i p) := by
  unfold Heap.arenaAddIdle
  by_cases hzero : (h.caches i).idlepage = 0
  · rw [if_neg (by simp [hzero])]
    refine ⟨⟨σ, ⟨hL.page, hL.parts, hL.free_page, hL.live_home, hL.live_nodup, ?_⟩, ?_,
      ⟨hB.pages, ?_, hB.large⟩⟩, .of_eq rfl⟩
    · intro j hj
      by_cases hji : j = i
      · subst hji
        rw [setArena_self]
        exact ⟨hp, hfull⟩
      · rw [setArena_of_ne _ _ hji] at hj ⊢
        exact hL.idle j hj
    · intro q j hq hfull'
      by_cases hqp : q = p
      · subst hqp
        obtain rfl := arena_inj hp hq
        rw [setArena_self]
      · have hidle' := hF q j hqp hq hfull'
        have hji : j ≠ i := by
          rintro rfl
          exact (hL.page hq).2.1 (hidle'.symm.trans hzero)
        rw [setArena_of_ne _ _ hji]
        exact hidle'
    · intro j
      rw [setArena_freelist]
      exact hB.free j
  · rw [if_pos hzero]
    refine ⟨⟨σ, hL.unmap hp hfull hidle, ?_, hB.unmap fun l hl => hl⟩, unmaps_freePage rfl _ _⟩
    intro q j hq hfull'
    refine hF q j ?_ (freePage_owner hq) hfull'
    rintro rfl
    rw [show (h.freePage q 1).owner q = none from
      if_pos ((inPages_one (hL.page hp).1).mpr rfl)] at hq
    cases hq

/-- `myfree` of a block in a slot. -/
theorem Inv.freeSlot (hI : Inv h live) {l : Block} {i : Fin ncaches} (hl : l ∈ live)
    (hp : h.owner (blockToPage l.addr) = some (.arena i)) :
    Releases h live l.addr (h.myfree l.addr) := by
  obtain ⟨σ, hL, hF, hB⟩ := hI
  obtain ⟨m, hm⟩ : ∃ m, m = freelistFree (store h.mem (blockToPage l.addr + 24) 2
      (load h.mem (blockToPage l.addr + 24) 2 + 1)) (blockToPage l.addr + 8) l.addr := ⟨_, rfl⟩
  have hL' := hL.push hl m
  have hB' := hB.push hL hl hp hm
  have hpage := hB.pages hp
  have hpage' := hB'.pages hp
  rw [Slab.setFl_self] at hpage'
  have hne : l.addr ≠ 0 := by
    have := (slot_in (hL.live_slot hl hp)).1
    omega
  -- the other pages are as full as before
  have hF' : ∀ q j, q ≠ blockToPage l.addr → h.owner q = some (.arena j) →
      ((σ.setFl (blockToPage l.addr) (l.addr :: σ.fl (blockToPage l.addr))).fl q).length = nslots j →
      (h.caches j).idlepage = q := by
    intro q j hqp hq hfull
    rw [Slab.setFl_of_ne _ _ hqp] at hfull
    exact hF q j hq hfull
  have hfree : h.myfree l.addr =
      if (l.addr :: σ.fl (blockToPage l.addr)).length = nslots i then
        .ok ({ h with mem := m }.arenaAddIdle i (blockToPage l.addr))
      else .ok { h with mem := m } := by
    unfold Heap.myfree
    rw [if_neg hne]
    simp only [hpage.magic, hpage.are, ne_eq, not_true_eq_false, if_false, Nat.add_eq_zero_iff,
      Nat.one_ne_zero, and_false, ← hm, hpage'.avail, hpage'.total, hpage'.are, arenaAt_succ]
    rfl
  by_cases hfull : (l.addr :: σ.fl (blockToPage l.addr)).length = nslots i
  · rw [if_pos hfull] at hfree
    obtain ⟨hinv, hunmaps⟩ := Inv.addIdle hL' hB' hp (by rw [Slab.setFl_self]; exact hfull) (by
      intro j hj
      have hj' : (h.caches j).idlepage = blockToPage l.addr := hj
      have hz : (h.caches j).idlepage ≠ 0 := by
        rw [hj']
        exact (hL.page hp).2.1
      obtain ⟨hown, hlen⟩ := hL.idle j hz
      rw [hj'] at hown hlen
      exact hL.not_full hl hown hlen) hF'
    exact ⟨_, hfree, hinv, hunmaps⟩
  · rw [if_neg hfull] at hfree
    refine ⟨_, hfree, ⟨_, hL', ?_, hB'⟩, .of_eq rfl⟩
    intro q j hq hfull'
    by_cases hqp : q = blockToPage l.addr
    · rw [hqp, Slab.setFl_self] at hfull'
      obtain rfl := arena_inj hp (hqp ▸ hq)
      exact absurd hfull' hfull
    · exact hF' q j hqp hq hfull'

/-- The header that `myfree` and `myrealloc` find for a large block. -/
theorem Inv.large_header (hI : Inv h live) {l : Block} {p n : Nat} (hl : l ∈ live)
    (haddr : l.addr = p + 32) (hmod : p % PGSIZE = 0) (hlen : l.len + 32 = n * PGSIZE)
    (hcpp : l.cpp = none) (hown : ∀ q, InPages p n q → h.owner q = some (.block l.addr)) :
    blockToPage l.addr = p ∧ InPages p n p ∧ LargeAt h.mem p (n * PGSIZE) := by
  obtain ⟨σ, hL, -, hB⟩ := hI
  have hpage : blockToPage l.addr = p := by
    rw [haddr]
    exact blockToPage_eq hmod (by omega)
  have hin : InPages p n p := ⟨Nat.le_refl p, by omega, hmod⟩
  have hat := hB.large l hl ⟨hcpp, by rw [hpage]; exact hown p hin⟩
  rw [haddr, Nat.add_sub_cancel, hlen] at hat
  exact ⟨hpage, hin, hat⟩

/-- **`myfree`.** -/
theorem Inv.myfree (hI : Inv h live) {l : Block} (hl : l ∈ live)
    (hc : ∀ size ∈ l.cpp, size ≤ 1024) :
    Releases h live l.addr (h.myfree l.addr) := by
  obtain ⟨σ, hL⟩ := hI.layout
  rcases hL.live_home l hl with ⟨i, hown, -, -⟩ | ⟨p, n, haddr, hmod, hlen, hcpp, hown⟩ |
    ⟨size, -, -, h1, -, hcpp, -⟩
  · exact hI.freeSlot hl hown
  · obtain ⟨hpage, hin, hat⟩ := hI.large_header hl haddr hmod hlen hcpp hown
    refine ⟨h.freePage p n, ?_, hI.unmapBlock hl hown (hpage.symm ▸ hin), unmaps_freePage rfl _ _⟩
    unfold Heap.myfree
    rw [if_neg (by omega)]
    simp only [hpage, hat.magic, hat.are, hat.alloc_size, ne_eq, not_true_eq_false, if_false, if_true]
    rw [Nat.mul_div_cancel _ (by decide)]
  · have := hc size hcpp
    omega

/-- `myfree` writes to the header of the page and to the block's first bytes. -/
theorem myfree_mem {h' : Heap} {pt x : Nat} (hfree : h.myfree pt = .ok h')
    (hheader : ¬ (blockToPage pt ≤ x ∧ x < blockToPage pt + 32)) (hblock : ¬ (pt ≤ x ∧ x < pt + 8)) :
    h'.mem x = h.mem x := by
  have hidle : ∀ (h : Heap) (i : Fin ncaches) (p : Nat), (h.arenaAddIdle i p).mem = h.mem := by
    intro h i p
    unfold Heap.arenaAddIdle
    split
    · rfl
    · rfl
  have hwrite : freelistFree (store h.mem (blockToPage pt + 24) 2
      (load h.mem (blockToPage pt + 24) 2 + 1)) (blockToPage pt + 8) pt x = h.mem x := by
    rw [freelistFree_out _ _ _ (by omega) (by omega), store_apply_of_out _ _ _ _ (by omega)]
  unfold Heap.myfree at hfree
  dsimp only at hfree
  by_cases hnull : pt = 0
  · rw [if_pos hnull] at hfree
    rw [← Except.ok.inj hfree]
  · rw [if_neg hnull] at hfree
    by_cases hmagic : load h.mem (blockToPage pt + 26) 2 ≠ MAGIC
    · rw [if_pos hmagic] at hfree
      cases hfree
    · rw [if_neg hmagic] at hfree
      by_cases hlarge : load h.mem (blockToPage pt) 8 = 0
      · rw [if_pos hlarge] at hfree
        rw [← Except.ok.inj hfree]
        rfl
      · rw [if_neg hlarge] at hfree
        split at hfree
        · cases hat : arenaAt (load (freelistFree (store h.mem (blockToPage pt + 24) 2
              (load h.mem (blockToPage pt + 24) 2 + 1)) (blockToPage pt + 8) pt) (blockToPage pt) 8) with
          | error e =>
              rw [hat] at hfree
              cases hfree
          | ok i =>
              rw [hat] at hfree
              rw [← Except.ok.inj hfree, hidle]
              exact hwrite
        · rw [← Except.ok.inj hfree]
          exact hwrite

/-- The other live blocks keep their bytes. -/
theorem Inv.myfree_keeps (hI : Inv h live) {l : Block} (hl : l ∈ live)
    (hc : ∀ size ∈ l.cpp, size ≤ 1024) {h' : Heap} (hfree : h.myfree l.addr = .ok h') :
    Keeps (System.release live l.addr) h h' := by
  obtain ⟨σ, hL⟩ := hI.layout
  intro l' hl' x hx
  obtain ⟨hmem, hne⟩ := mem_release.mp hl'
  have hmeta : ¬ Meta h live σ x := fun hmeta => (hL.meta_spec hmeta).2 l' hmem hx
  have hother : ¬ l.Covers x := fun hcover => hne (hL.covers_unique hmem hl hx hcover)
  have hhome : 8 ≤ l.len ∧ ¬ (blockToPage l.addr ≤ x ∧ x < blockToPage l.addr + 32) := by
    rcases hL.live_home l hl with ⟨i, hown, hlen, -⟩ | ⟨p, n, haddr, hmod, hlen, hcpp, hown⟩ |
      ⟨size, -, -, h1, -, hcpp, -⟩
    · have := (blockSize_bounds i).1
      exact ⟨by omega, fun hin => hmeta (.header _ i hown hin.1 hin.2)⟩
    · obtain ⟨hpage, hin, -⟩ := hI.large_header hl haddr hmod hlen hcpp hown
      have hlarge : IsLarge h.owner l := ⟨hcpp, by rw [hpage]; exact hown p hin⟩
      unfold PGSIZE at hlen
      exact ⟨by omega, fun hx' => hmeta (.large l hl hlarge (by omega) (by omega))⟩
    · have := hc size hcpp
      omega
  refine myfree_mem hfree hhome.2 fun hin => hother ⟨hin.1, ?_⟩
  omega

/-- **`cpp_free`**, with the size the block was asked for with. -/
theorem Inv.cppFree (hI : Inv h live) {l : Block} {size : Nat} (hl : l ∈ live)
    (hcpp : l.cpp = some size) :
    Releases h live l.addr (h.cppFree l.addr size) := by
  obtain ⟨σ, hL⟩ := hI.layout
  unfold Heap.cppFree
  rcases hL.live_home l hl with ⟨i, hown, -, hc⟩ | ⟨p, n, -, -, -, hnone, -⟩ |
    ⟨size', hmod, -, h1, h2, hcpp', hown⟩
  · have hle : size ≤ 1024 := hc size hcpp
    rw [if_neg (by omega)]
    exact hI.freeSlot hl hown
  · rw [hnone] at hcpp
    cases hcpp
  · obtain rfl : size = size' := Option.some.inj (hcpp.symm.trans hcpp')
    have hpos := cppPages_pos h1 h2
    have hpage : blockToPage l.addr = l.addr := blockToPage_eq hmod (by omega)
    have hin : InPages l.addr (cppPages size) l.addr := by
      refine ⟨Nat.le_refl _, ?_, hmod⟩
      unfold PGSIZE
      omega
    have hne : l.addr ≠ 0 := (hL.page (hown _ hin)).2.1
    rw [if_pos h1, if_pos hne]
    refine ⟨_, rfl, hI.unmapBlock hl hown ?_, unmaps_freePage rfl _ _⟩
    rw [hpage]
    exact hin

end LinuxUtil.Malloc
