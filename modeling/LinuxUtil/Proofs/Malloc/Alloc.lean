/-
Allocation keeps the invariant.

An allocation in an arena has up to three parts: map a page, seize the blocks of the
idle page, take the first block.  Each part keeps the invariant by itself.  A large
block gets pages of its own, and nothing that was there before is touched.
-/
import LinuxUtil.Proofs.Malloc.Layout

namespace LinuxUtil.Malloc

open ByteMem Heap

variable {h : Heap} {live : List Block} {σ : Slab}

/-! ### One arena, one page -/

theorem setArena_self (h : Heap) (i : Fin ncaches) (are : Arena) :
    (h.setArena i are).caches i = are := if_pos rfl

theorem setArena_of_ne (h : Heap) {i j : Fin ncaches} (are : Arena) (hj : j ≠ i) :
    (h.setArena i are).caches j = h.caches j := if_neg hj

theorem setArena_idlepage (h : Heap) (i j : Fin ncaches) (first : Nat) :
    ((h.setArena i { h.caches i with freelist := first }).caches j).idlepage =
      (h.caches j).idlepage := by
  by_cases hj : j = i
  · subst hj
    rw [setArena_self]
  · rw [setArena_of_ne _ _ hj]

theorem setArena_freelist (h : Heap) (i j : Fin ncaches) (p : Nat) :
    ((h.setArena i { h.caches i with idlepage := p }).caches j).freelist =
      (h.caches j).freelist := by
  by_cases hj : j = i
  · subst hj
    rw [setArena_self]
  · rw [setArena_of_ne _ _ hj]

/-- The list of one page is changed. -/
def Slab.setFl (σ : Slab) (p : Nat) (l : List Nat) : Slab :=
  { σ with fl := fun q => if q = p then l else σ.fl q }

/-- The list of one arena is changed. -/
def Slab.setFree (σ : Slab) (i : Fin ncaches) (l : List Nat) : Slab :=
  { σ with free := fun j => if j = i then l else σ.free j }

@[simp] theorem Slab.setFl_self (σ : Slab) (p : Nat) (l : List Nat) : (σ.setFl p l).fl p = l :=
  if_pos rfl

theorem Slab.setFl_of_ne (σ : Slab) {p q : Nat} (l : List Nat) (hq : q ≠ p) :
    (σ.setFl p l).fl q = σ.fl q := if_neg hq

@[simp] theorem Slab.setFree_self (σ : Slab) (i : Fin ncaches) (l : List Nat) :
    (σ.setFree i l).free i = l := if_pos rfl

theorem Slab.setFree_of_ne (σ : Slab) {i j : Fin ncaches} (l : List Nat) (hj : j ≠ i) :
    (σ.setFree i l).free j = σ.free j := if_neg hj

/-- A step that works on the page `p` of arena `i` leaves the bytes of all others. -/
theorem Bytes.update_page (hB : Bytes h live σ) (hL : Layout h live σ) {h' : Heap} {σ' : Slab}
    {live' : List Block} {p : Nat} {i : Fin ncaches} (hp : h'.owner p = some (.arena i))
    (hown : ∀ q, q ≠ p → h'.owner q = h.owner q)
    (hmem : ∀ x, x < p ∨ p + 4096 ≤ x → h'.mem x = h.mem x)
    (hfl : ∀ q, q ≠ p → σ'.fl q = σ.fl q) (hmod : p % PGSIZE = 0)
    (hpage : PageAt h'.mem i p (σ'.fl p))
    (hfree : ∀ j, Chain h'.mem (h'.caches j).freelist (σ'.free j))
    (hlive : ∀ l ∈ live', IsLarge h'.owner l → l ∈ live) : Bytes h' live' σ' := by
  have hapart : ∀ {q x : Nat}, q % PGSIZE = 0 → q ≠ p → q ≤ x → x < q + 4096 →
      h'.mem x = h.mem x := by
    intro q x hq hne h1 h2
    refine hmem x ?_
    unfold PGSIZE at hq hmod
    omega
  refine ⟨?_, hfree, ?_⟩
  · intro q j hq
    by_cases hqp : q = p
    · subst hqp
      obtain rfl := arena_inj hp hq
      exact hpage
    · rw [hown q hqp] at hq
      have hmodq := (hL.page hq).1
      rw [hfl q hqp]
      refine (hB.pages hq).congr (fun x h1 h2 => hapart hmodq hqp h1 (by omega)) ?_
      intro b hb x h1 h2
      have hin := slot_in (hL.fl_slot hq hb)
      have := (blockSize_bounds j).1
      exact hapart hmodq hqp (by omega) (by omega)
  · intro l hl hlarge
    have hold := hlive l hl hlarge
    have hne : blockToPage l.addr ≠ p := by
      intro heq
      have := hlarge.2
      rw [heq, hp] at this
      cases this
    have hlarge' : IsLarge h.owner l := ⟨hlarge.1, by rw [← hown _ hne]; exact hlarge.2⟩
    obtain ⟨q, n, haddr, hq, -, -, -⟩ := hL.large_page hold hlarge'
    have hqp : q ≠ p := by
      rwa [haddr, blockToPage_eq hq (by omega)] at hne
    refine (hB.large l hold hlarge').congr fun x h1 h2 => ?_
    exact hapart hq hqp (by omega) (by omega)

/-- The first bytes of a block of an arena's list, seen from another page. -/
theorem Layout.free_out (hL : Layout h live σ) {p b x : Nat} {j : Fin ncaches}
    (hmod : p % PGSIZE = 0) (hb : b ∈ σ.free j) (hne : blockToPage b ≠ p) (h1 : b ≤ x)
    (h2 : x < b + 8) : x < p ∨ p + 4096 ≤ x := by
  obtain ⟨hown, hbs⟩ := hL.free_slot hb
  have hbin := slot_in hbs
  have hsize := (blockSize_bounds j).1
  have hmod' := (hL.page hown).1
  unfold PGSIZE at hmod hmod'
  omega

theorem Bytes.free_congr (hB : Bytes h live σ) (hL : Layout h live σ) {p : Nat} {m : Mem}
    {j : Fin ncaches} (hmod : p % PGSIZE = 0) (hmem : ∀ x, x < p ∨ p + 4096 ≤ x → m x = h.mem x)
    (hne : h.owner p ≠ some (.arena j)) : Chain m (h.caches j).freelist (σ.free j) := by
  refine (hB.free j).congr fun b hb => load_congr fun x h1 h2 => hmem x ?_
  refine hL.free_out hmod hb ?_ h1 h2
  rintro rfl
  exact hne (hL.free_slot hb).1

/-! ### Taking a block -/

/-- A new live block counts for its own page only. -/
theorem filter_addrs_cons {l' : List Nat} (l : Block) {p : Nat} (hne : blockToPage l.addr ≠ p) :
    (l' ++ addrs (l :: live)).filter (blockToPage · = p) =
      (l' ++ addrs live).filter (blockToPage · = p) := by
  rw [List.filter_append, List.filter_append, addrs, List.map_cons,
    List.filter_cons_of_neg (by simpa using hne), addrs]

/-- A block of the arena's list becomes live. -/
theorem Layout.take (hL : Layout h live σ) {i : Fin ncaches} {pt first : Nat} {rest : List Nat}
    (hfree : σ.free i = pt :: rest) {c : Option Nat} (hc : ∀ size ∈ c, size ≤ 1024) :
    Layout (h.setArena i { h.caches i with freelist := first })
      (⟨pt, blockSize i, c⟩ :: live) (σ.setFree i rest) := by
  have hpt : pt ∈ σ.free i := by
    rw [hfree]
    exact List.mem_cons_self
  have hown := (hL.free_slot hpt).1
  refine ⟨hL.page, ?_, ?_, ?_, ?_, ?_⟩
  · intro p j hp
    have hparts := hL.parts hp
    by_cases hj : j = i
    · subst hj
      rw [hfree] at hparts
      rw [Slab.setFree_self]
      refine (List.Perm.append_left _ (List.Perm.filter _ ?_)).trans hparts
      exact List.perm_middle
    · rw [Slab.setFree_of_ne _ _ hj]
      have hne : blockToPage pt ≠ p := by
        rintro rfl
        exact hj (arena_inj hp hown)
      change (σ.fl p ++ _).Perm _
      rw [filter_addrs_cons ⟨pt, blockSize i, c⟩ hne]
      exact hparts
  · intro j
    obtain ⟨q, hq⟩ := hL.free_page j
    refine ⟨q, fun b hb => hq b ?_⟩
    by_cases hj : j = i
    · subst hj
      rw [Slab.setFree_self] at hb
      rw [hfree]
      exact List.mem_cons_of_mem pt hb
    · rwa [Slab.setFree_of_ne _ _ hj] at hb
  · intro l hl
    rcases List.mem_cons.mp hl with rfl | hl
    · exact .slot i hown rfl hc
    · exact hL.live_home l hl
  · exact List.nodup_cons.mpr ⟨hL.not_live_of_free hpt, hL.live_nodup⟩
  · intro j
    rw [setArena_idlepage]
    exact hL.idle j

/-- `arena_alloc` with a list that is not empty. -/
theorem Inv.take (hI : Inv h live) {i : Fin ncaches} (hne : (h.caches i).freelist ≠ 0)
    {c : Option Nat} (hc : ∀ size ∈ c, size ≤ 1024) :
    ∃ pt h', h.take i = .ok (pt, h') ∧ pt ≠ 0 ∧ Inv h' (⟨pt, blockSize i, c⟩ :: live) ∧
      h'.freed = h.freed ∧ h'.mem = h.mem := by
  obtain ⟨σ, hL, hF, hB⟩ := hI
  have hchain := hB.free i
  cases hfree : σ.free i with
  | nil =>
      rw [hfree] at hchain
      exact absurd hchain hne
  | cons pt rest =>
      rw [hfree] at hchain
      obtain ⟨hfirst, hpt, hrest⟩ := hchain
      have hmem : pt ∈ σ.free i := by
        rw [hfree]
        exact List.mem_cons_self
      refine ⟨(h.caches i).freelist, _, if_neg hne, hne, ?_, rfl, rfl⟩
      rw [hfirst]
      refine ⟨σ.setFree i rest, hL.take hfree hc, ?_, ?_⟩
      · intro p j hp hfull
        rw [setArena_idlepage]
        exact hF p j hp hfull
      · refine ⟨hB.pages, ?_, ?_⟩
        · intro j
          by_cases hj : j = i
          · subst hj
            rw [setArena_self, Slab.setFree_self]
            exact hrest
          · rw [setArena_of_ne _ _ hj, Slab.setFree_of_ne _ _ hj]
            exact hB.free j
        · intro l hl hlarge
          rcases List.mem_cons.mp hl with rfl | hl
          · have howner := hlarge.2
            change h.owner (blockToPage pt) = _ at howner
            rw [(hL.free_slot hmem).1] at howner
            cases howner
          · exact hB.large l hl hlarge

/-! ### Seizing the idle page -/

theorem Layout.fl_filter (hL : Layout h live σ) {p : Nat} {i : Fin ncaches}
    (hp : h.owner p = some (.arena i)) (q : Nat) :
    (σ.fl p).filter (blockToPage · = q) = if q = p then σ.fl p else [] := by
  have hpage : ∀ b ∈ σ.fl p, blockToPage b = p := fun b hb =>
    blockToPage_slot (hL.page hp).1 (hL.fl_slot hp hb)
  by_cases hq : q = p
  · subst hq
    rw [if_pos rfl]
    exact List.filter_eq_self.mpr fun b hb => decide_eq_true (hpage b hb)
  · rw [if_neg hq]
    refine List.filter_eq_nil_iff.mpr fun b hb => ?_
    rw [hpage b hb]
    simpa using Ne.symm hq

/-- The list of the idle page becomes the list of the arena. -/
theorem Layout.seize (hL : Layout h live σ) {i : Fin ncaches} {first : Nat} {m : Mem}
    (hidle : (h.caches i).idlepage ≠ 0) (hfree : σ.free i = []) :
    Layout ({ h with mem := m }.setArena i ⟨first, 0⟩) live
      ((σ.setFl (h.caches i).idlepage []).setFree i (σ.fl (h.caches i).idlepage)) := by
  obtain ⟨hp, -⟩ := hL.idle i hidle
  refine ⟨hL.page, ?_, ?_, hL.live_home, hL.live_nodup, ?_⟩
  · intro q j hq
    have hparts := hL.parts hq
    by_cases hj : j = i
    · subst hj
      rw [Slab.setFree_self, List.filter_append, hL.fl_filter hp]
      change ((σ.setFl _ []).fl q ++ _).Perm _
      rw [hfree, List.nil_append] at hparts
      by_cases hqp : q = (h.caches j).idlepage
      · subst hqp
        rw [Slab.setFl_self, if_pos rfl]
        exact hparts
      · rw [Slab.setFl_of_ne _ _ hqp, if_neg hqp]
        exact hparts
    · have hqp : q ≠ (h.caches i).idlepage := by
        rintro rfl
        exact hj (arena_inj hq hp)
      rw [Slab.setFree_of_ne _ _ hj]
      change ((σ.setFl _ []).fl q ++ (σ.free j ++ _).filter _).Perm _
      rw [Slab.setFl_of_ne _ _ hqp]
      exact hparts
  · intro j
    by_cases hj : j = i
    · subst hj
      refine ⟨(h.caches j).idlepage, fun b hb => ?_⟩
      rw [Slab.setFree_self] at hb
      exact ⟨blockToPage_slot (hL.page hp).1 (hL.fl_slot hp hb), hp⟩
    · rw [Slab.setFree_of_ne _ _ hj]
      exact hL.free_page j
  · intro j hj
    have hne : j ≠ i := by
      rintro rfl
      rw [setArena_self] at hj
      exact hj rfl
    rw [setArena_of_ne _ _ hne] at hj ⊢
    obtain ⟨hown, hlen⟩ := hL.idle j hj
    refine ⟨hown, ?_⟩
    change ((σ.setFl _ []).fl _).length = _
    rw [Slab.setFl_of_ne]
    · exact hlen
    · intro heq
      rw [heq] at hown
      exact hne (arena_inj hown hp)

theorem freelistInit_out (m : Mem) (fl : Nat) {x : Nat} (hx : x < fl ∨ fl + 16 ≤ x) :
    freelistInit m fl x = m x := by
  rw [freelistInit, store_apply_of_out _ _ _ _ (by omega), store_apply_of_out _ _ _ _ (by omega)]

theorem freelistInit_list (m : Mem) (fl : Nat) : FreeList (freelistInit m fl) fl [] := by
  refine ⟨load_store_eq (by decide), ?_⟩
  rw [freelistInit, load_store_of_apart _ _ _ _ (by omega), load_store_eq (by decide)]
  rfl

/-- What the stores of `seize` do to a page.  The last block's pointer is 0 before and after. -/
theorem PageAt.seize {m : Mem} {i : Fin ncaches} {p last : Nat} {l : List Nat} (h : PageAt m i p l)
    (hslot : ∀ b ∈ l, b ∈ slots i p) (hlast : l.getLast? = some last) {m' : Mem}
    (hm' : m' = freelistInit (store (store m (p + 24) 2 0) last 8 0) (p + 8)) :
    PageAt m' i p [] ∧ Chain m' (load m (p + 8) 8) l ∧
      ∀ x, x < p ∨ p + 4096 ≤ x → m' x = m x := by
  have hmem := List.mem_of_getLast? hlast
  have hin := slot_in (hslot last hmem)
  have hsize := (blockSize_bounds i).1
  have hout : ∀ x, x < p + 8 ∨ p + 26 ≤ x → x < last ∨ last + 8 ≤ x → m' x = m x := by
    intro x hx hl
    rw [hm', freelistInit_out _ _ (by omega), store_apply_of_out _ _ _ _ hl,
      store_apply_of_out _ _ _ _ (by omega)]
  refine ⟨h.setList (fun x _ h1 h2 => hout x h1 (by omega)) ?_ ?_, ?_,
    fun x hx => hout x (by omega) (by omega)⟩
  · rw [hm']
    exact freelistInit_list _ _
  · rw [hm', load_congr (n := store m (p + 24) 2 0) fun x h1 h2 => by
      rw [freelistInit_out _ _ (by omega), store_apply_of_out _ _ _ _ (by omega)]]
    exact load_store_eq (by decide)
  · refine h.list.chain.congr fun b hb => ?_
    have hb' := slot_in (hslot b hb)
    by_cases hbl : b = last
    · subst hbl
      rw [h.list.chain.load_getLast hlast, hm',
        load_congr (n := store (store m (p + 24) 2 0) b 8 0) fun x h1 h2 =>
          freelistInit_out _ _ (by omega)]
      exact load_store_eq (by decide)
    · have hap := slot_apart (hslot b hb) (hslot last hmem) hbl
      exact load_congr fun x h1 h2 => hout x (by omega) (by omega)

/-- `seize` with the values its loads find. -/
theorem seize_eq {i : Fin ncaches} {p last : Nat} {l : List Nat} (hp : (h.caches i).idlepage = p)
    (hpage : PageAt h.mem i p l) (hslot : ∀ b ∈ l, b ∈ slots i p) (hlast : l.getLast? = some last)
    (hzero : (h.caches i).freelist = 0) :
    h.seize i = .ok ({ h with
      mem := freelistInit (store (store h.mem (p + 24) 2 0) last 8 0) (p + 8) }.setArena i
        ⟨load h.mem (p + 8) 8, 0⟩) := by
  have hin := slot_in (hslot last (List.mem_of_getLast? hlast))
  have hload : load (store h.mem (p + 24) 2 0) (p + 16) 8 = last := by
    rw [load_store_of_apart _ _ _ _ (by omega), hpage.list.last, hlast]
    rfl
  have hfirst : load (store (store h.mem (p + 24) 2 0) last 8 0) (p + 8) 8 =
      load h.mem (p + 8) 8 := by
    rw [load_store_of_apart _ _ _ _ (by omega), load_store_of_apart _ _ _ _ (by omega)]
  unfold Heap.seize
  simp only [hp, hload, hzero, hfirst]
  rw [if_neg (by omega)]

theorem Inv.seize (hI : Inv h live) {i : Fin ncaches} (hidle : (h.caches i).idlepage ≠ 0)
    (hzero : (h.caches i).freelist = 0) :
    ∃ h', h.seize i = .ok h' ∧ Inv h' live ∧ (h'.caches i).freelist ≠ 0 ∧ h'.freed = h.freed ∧
      Keeps live h h' := by
  obtain ⟨σ, hL, hF, hB⟩ := hI
  obtain ⟨hp, hlen⟩ := hL.idle i hidle
  obtain ⟨hmod, hpne, hlt⟩ := hL.page hp
  have hpage := hB.pages hp
  have hone := (slot_bounds i).2.2.1
  have hfree : σ.free i = [] := by
    have hchain := hB.free i
    rw [hzero] at hchain
    exact hchain.eq_nil
  have hslot : ∀ b ∈ σ.fl (h.caches i).idlepage, b ∈ slots i (h.caches i).idlepage :=
    fun b hb => hL.fl_slot hp hb
  cases hlast : (σ.fl (h.caches i).idlepage).getLast? with
  | none =>
      rw [List.getLast?_eq_none_iff.mp hlast, List.length_nil] at hlen
      omega
  | some last =>
      have hmem := List.mem_of_getLast? hlast
      obtain ⟨m', hm'⟩ : ∃ m', m' = freelistInit
        (store (store h.mem ((h.caches i).idlepage + 24) 2 0) last 8 0)
        ((h.caches i).idlepage + 8) := ⟨_, rfl⟩
      have hseize := seize_eq rfl hpage hslot hlast hzero
      rw [← hm'] at hseize
      obtain ⟨hpage', hchain', hout'⟩ := hpage.seize hslot hlast hm'
      refine ⟨_, hseize, ⟨_, hL.seize hidle hfree, ?_, ?_⟩, ?_, rfl, ?_⟩
      · -- a full page would be the idle page, whose list is empty now
        intro q j hq hfull
        change ((σ.setFl _ []).fl q).length = _ at hfull
        by_cases hqp : q = (h.caches i).idlepage
        · rw [hqp, Slab.setFl_self, List.length_nil] at hfull
          have := (slot_bounds j).2.2.1
          omega
        · rw [Slab.setFl_of_ne _ _ hqp] at hfull
          have hidle' := hF q j hq hfull
          have hj : j ≠ i := by
            rintro rfl
            exact hqp hidle'.symm
          rw [setArena_of_ne _ _ hj]
          exact hidle'
      · refine hB.update_page hL (p := (h.caches i).idlepage) hp (fun q _ => rfl) hout' (fun q hq => ?_)
          hmod ?_ ?_ fun l hl _ => hl
        · exact Slab.setFl_of_ne _ _ hq
        · change PageAt m' i _ ((σ.setFl _ []).fl _)
          rw [Slab.setFl_self]
          exact hpage'
        · intro j
          by_cases hj : j = i
          · subst hj
            rw [setArena_self, Slab.setFree_self]
            exact hchain'
          · rw [setArena_of_ne _ _ hj, Slab.setFree_of_ne _ _ hj]
            exact hB.free_congr hL hmod hout' fun hown => hj (arena_inj hown hp)
      · rw [setArena_self]
        change load h.mem _ 8 ≠ 0
        intro hz
        have hnil := hpage.list.chain
        rw [hz] at hnil
        rw [hnil.eq_nil] at hmem
        cases hmem
      · refine hL.keeps fun x _ hx => ?_
        have hheader : ¬ ((h.caches i).idlepage ≤ x ∧ x < (h.caches i).idlepage + 32) :=
          fun hin => hx (.header _ i hp hin.1 hin.2)
        have hblock : ¬ (last ≤ x ∧ x < last + 8) := fun hin => hx (.fl _ i last hp hmem hin.1 hin.2)
        change m' x = h.mem x
        rw [hm', freelistInit_out _ _ (by omega), store_apply_of_out _ _ _ _ (by omega),
          store_apply_of_out _ _ _ _ (by omega)]

/-! ### Mapping pages -/

/-- Nothing is in pages that were not mapped. -/
theorem Layout.filter_fresh (hL : Layout h live σ) {p : Nat} (hp : h.owner p = none)
    (i : Fin ncaches) : (σ.free i ++ addrs live).filter (blockToPage · = p) = [] := by
  refine List.filter_eq_nil_iff.mpr fun b hb hpage => ?_
  have hpage : blockToPage b = p := of_decide_eq_true hpage
  rcases List.mem_append.mp hb with hb | hb
  · have hown := (hL.free_slot hb).1
    rw [hpage, hp] at hown
    cases hown
  · obtain ⟨l, hl, rfl⟩ := List.mem_map.mp hb
    exact hL.live_owner hl (hpage ▸ hp)

theorem Layout.free_page_mono (hL : Layout h live σ) {owner : Nat → Option Owner}
    (hkeep : ∀ q, h.owner q ≠ none → owner q = h.owner q) (j : Fin ncaches) :
    ∃ q, ∀ b ∈ σ.free j, blockToPage b = q ∧ owner q = some (.arena j) := by
  obtain ⟨q, hq⟩ := hL.free_page j
  refine ⟨q, fun b hb => ⟨(hq b hb).1, ?_⟩⟩
  have hown := (hq b hb).2
  exact (hkeep q (by rw [hown]; nofun)).trans hown

/-- Mapping leaves what was mapped. -/
theorem Bytes.map (hB : Bytes h live σ) (hL : Layout h live σ) {m : Mem}
    (hmem : ∀ x, h.owner (blockToPage x) ≠ none → m x = h.mem x) :
    Bytes { h with mem := m } live σ :=
  hB.congr hL fun x hx => hmem x (hL.meta_spec hx).1

theorem inPages_one {p q : Nat} (hp : p % PGSIZE = 0) : InPages p 1 q ↔ q = p := by
  unfold InPages
  unfold PGSIZE at hp ⊢
  omega

/-- A new page of an arena, which becomes the idle page. -/
theorem Inv.mapPage (hI : Inv h live) {i : Fin ncaches} {p : Nat} {m : Mem}
    {owner : Nat → Option Owner} (hidle : (h.caches i).idlepage = 0) (hmod : p % PGSIZE = 0)
    (hne : p ≠ 0) (hlt : p + 4096 ≤ 2 ^ 64) (hfresh : h.owner p = none)
    (hp : owner p = some (.arena i)) (hown : ∀ q, q ≠ p → owner q = h.owner q)
    (hpage : PageAt m i p (slots i p).reverse)
    (hmem : ∀ x, x < p ∨ p + 4096 ≤ x → m x = h.mem x) :
    Inv ({ h with mem := m, owner := owner }.setArena i { h.caches i with idlepage := p }) live := by
  obtain ⟨σ, hL, hF, hB⟩ := hI
  have hkeep : ∀ q, h.owner q ≠ none → owner q = h.owner q := fun q hq => hown q fun hqp => hq (hqp ▸ hfresh)
  have hother : ∀ {q j}, q ≠ p → owner q = some (.arena j) → h.owner q = some (.arena j) := by
    intro q j hqp hq
    rwa [hown q hqp] at hq
  refine ⟨σ.setFl p (slots i p).reverse, ⟨?_, ?_, ?_, ?_, hL.live_nodup, ?_⟩, ?_, ?_⟩
  · intro q o hq
    by_cases hqp : q = p
    · subst hqp
      exact ⟨hmod, hne, hlt⟩
    · change owner q = some o at hq
      rw [hown q hqp] at hq
      exact hL.page hq
  · intro q j hq
    change owner q = _ at hq
    by_cases hqp : q = p
    · subst hqp
      obtain rfl := arena_inj hp hq
      rw [Slab.setFl_self]
      change (_ ++ (σ.free i ++ addrs live).filter _).Perm _
      rw [hL.filter_fresh hfresh, List.append_nil]
      exact List.reverse_perm _
    · rw [Slab.setFl_of_ne _ _ hqp]
      exact hL.parts (hother hqp hq)
  · exact hL.free_page_mono hkeep
  · exact fun l hl => (hL.live_home l hl).mono hkeep
  · intro j hj
    by_cases hji : j = i
    · subst hji
      rw [setArena_self, Slab.setFl_self, List.length_reverse, length_slots]
      exact ⟨hp, rfl⟩
    · rw [setArena_of_ne _ _ hji] at hj ⊢
      obtain ⟨hown', hlen⟩ := hL.idle j hj
      have hqp : (h.caches j).idlepage ≠ p := by
        intro heq
        rw [heq, hfresh] at hown'
        cases hown'
      refine ⟨(hown _ hqp).trans hown', ?_⟩
      rw [Slab.setFl_of_ne _ _ hqp]
      exact hlen
  · intro q j hq hfull
    change owner q = _ at hq
    by_cases hqp : q = p
    · subst hqp
      obtain rfl := arena_inj hp hq
      rw [setArena_self]
    · rw [Slab.setFl_of_ne _ _ hqp] at hfull
      have hq' := hother hqp hq
      have hidle' := hF q j hq' hfull
      have hji : j ≠ i := by
        rintro rfl
        rw [hidle] at hidle'
        exact (hL.page hq').2.1 hidle'.symm
      rw [setArena_of_ne _ _ hji]
      exact hidle'
  · have hfree : ∀ j, Chain m (h.caches j).freelist (σ.free j) := fun j =>
      hB.free_congr hL hmod hmem (by rw [hfresh]; nofun)
    refine hB.update_page hL (p := p) hp (fun q hqp => hown q hqp) hmem
      (fun q hqp => Slab.setFl_of_ne _ _ hqp) hmod ?_ ?_ fun l hl _ => hl
    · rw [Slab.setFl_self]
      exact hpage
    · intro j
      rw [setArena_freelist { h with mem := m, owner := owner }]
      exact hfree j

/-- **`arena_alloc` hands out a block, or it fails for want of memory and leaves the heap as it was.**
The invariant is kept, and so are the bytes of live blocks. -/
theorem Inv.arenaAlloc (hI : Inv h live) (i : Fin ncaches) {mmap : Option Nat}
    (hmmap : System.Fresh h 1 mmap) {c : Option Nat} (hc : ∀ size ∈ c, size ≤ 1024) :
    ∃ pt h', h.arenaAlloc i mmap = .ok (pt, h') ∧ h'.freed = h.freed ∧ Keeps live h h' ∧
      (pt = 0 ∧ mmap = none ∧ h' = h ∨ pt ≠ 0 ∧ Inv h' (⟨pt, blockSize i, c⟩ :: live)) := by
  -- the last two parts of the function
  have hrest : ∀ {h₀ : Heap}, Inv h₀ live → (h₀.caches i).idlepage ≠ 0 →
      (h₀.caches i).freelist = 0 → h₀.freed = h.freed → Keeps live h h₀ →
      ∃ pt h', (h₀.seize i >>= fun h₁ => h₁.take i) = .ok (pt, h') ∧ h'.freed = h.freed ∧
        Keeps live h h' ∧
        (pt = 0 ∧ mmap = none ∧ h' = h ∨ pt ≠ 0 ∧ Inv h' (⟨pt, blockSize i, c⟩ :: live)) := by
    intro h₀ hI₀ hidle hzero hfreed hkeep
    obtain ⟨h₁, hseize, hI₁, hne, hfreed₁, hkeep₁⟩ := hI₀.seize hidle hzero
    obtain ⟨pt, h₂, htake, hpt, hI₂, hfreed₂, hmem⟩ := hI₁.take hne hc
    have hkeep₂ : Keeps live h₁ h₂ := fun l _ x _ => congrFun hmem x
    refine ⟨pt, h₂, ?_, by rw [hfreed₂, hfreed₁, hfreed], (hkeep.trans hkeep₁).trans hkeep₂,
      .inr ⟨hpt, hI₂⟩⟩
    rw [hseize]
    exact htake
  have hsame : Keeps live h h := fun _ _ _ _ => rfl
  unfold Heap.arenaAlloc
  by_cases hzero : (h.caches i).freelist = 0
  · rw [if_pos hzero]
    by_cases hidle : (h.caches i).idlepage = 0
    · rw [if_pos hidle]
      cases mmap with
      | none => exact ⟨0, h, rfl, rfl, hsame, .inl ⟨rfl, rfl, rfl⟩⟩
      | some p =>
          obtain ⟨hmod, hne, hlt, hfresh⟩ := hmmap p rfl
          rw [Nat.one_mul] at hlt
          have hlt : p + 4096 ≤ 2 ^ 64 := hlt
          have hnone : h.owner p = none := hfresh p ((inPages_one hmod).mpr rfl)
          simp only [Heap.allocPage]
          rw [if_neg hne]
          obtain ⟨hpage, hout⟩ := pageHeaderInit_spec (fill h.mem p (1 * PGSIZE) 0) i hlt
          have hmem : ∀ x, x < p ∨ p + 4096 ≤ x →
              pageHeaderInit (fill h.mem p (1 * PGSIZE) 0) i p x = h.mem x := by
            intro x hx
            rw [hout x hx]
            exact fill_apply_of_out _ _ _ _ hx
          refine hrest (hI.mapPage hidle hmod hne hlt hnone ?_ ?_ hpage hmem) ?_ ?_ rfl ?_
          · exact if_pos ((inPages_one hmod).mpr rfl)
          · exact fun q hq => if_neg fun hin => hq ((inPages_one hmod).mp hin)
          · rw [setArena_self]
            exact hne
          · rw [setArena_self]
            exact hzero
          · -- nothing live is in a page that was not mapped
            obtain ⟨σ, hL⟩ := hI.layout
            refine hL.keeps fun x hown _ => hmem x ?_
            by_contra hin
            have hpage : blockToPage x = p := blockToPage_eq hmod (by omega)
            exact hown (hpage.symm ▸ hnone)
    · rw [if_neg hidle]
      exact hrest hI hidle hzero rfl hsame
  · rw [if_neg hzero]
    obtain ⟨pt, h₂, htake, hpt, hI₂, hfreed, hmem⟩ := hI.take hzero hc
    exact ⟨pt, h₂, htake, hfreed, fun l _ x _ => congrFun hmem x, .inr ⟨hpt, hI₂⟩⟩

/-- Pages for one block. -/
theorem Inv.mapBlock (hI : Inv h live) {a n : Nat} {m : Mem} {l : Block}
    (hmod : a % PGSIZE = 0) (hne : a ≠ 0) (hlt : a + n * PGSIZE ≤ 2 ^ 64)
    (hfresh : ∀ p, InPages a n p → h.owner p = none) (hin : InPages a n (blockToPage l.addr))
    (hmem : ∀ x, ¬ InPages a n (blockToPage x) → m x = h.mem x)
    {owner : Nat → Option Owner}
    (howner : owner = fun p => if InPages a n p then some (.block l.addr) else h.owner p)
    (hhome : Home owner l) (hlarge : IsLarge owner l → LargeAt m (l.addr - 32) (l.len + 32)) :
    Inv { h with mem := m, owner := owner } (l :: live) := by
  obtain ⟨σ, hL, hF, hB⟩ := hI
  have hkeep : ∀ q, h.owner q ≠ none → owner q = h.owner q := by
    intro q hq
    rw [howner]
    exact if_neg fun hin => hq (hfresh q hin)
  have harena : ∀ {q j}, owner q = some (.arena j) → h.owner q = some (.arena j) ∧
      ¬ InPages a n q := by
    intro q j hq
    rw [howner] at hq
    by_cases hin : InPages a n q
    · simp only [hin, if_true] at hq
      cases hq
    · simp only [hin, if_false] at hq
      exact ⟨hq, hin⟩
  have hnew : h.owner (blockToPage l.addr) = none := hfresh _ hin
  have hB' := hB.map hL (m := m) fun x hx => hmem x fun hin => hx (hfresh _ hin)
  refine ⟨σ, ⟨?_, ?_, ?_, ?_, ?_, ?_⟩, ?_, ⟨?_, hB'.free, ?_⟩⟩
  · intro q o hq
    by_cases hqin : InPages a n q
    · obtain ⟨h1, h2, h3⟩ := hqin
      refine ⟨h3, by omega, ?_⟩
      unfold PGSIZE at *
      omega
    · rw [howner] at hq
      simp only [hqin, if_false] at hq
      exact hL.page hq
  · intro q j hq
    obtain ⟨hq', hout⟩ := harena hq
    have hpage : blockToPage l.addr ≠ q := fun heq => hout (heq ▸ hin)
    rw [filter_addrs_cons l hpage]
    exact hL.parts hq'
  · exact hL.free_page_mono hkeep
  · intro l' hl'
    rcases List.mem_cons.mp hl' with rfl | hl'
    · exact hhome
    · exact (hL.live_home l' hl').mono hkeep
  · refine List.nodup_cons.mpr ⟨fun hmem => ?_, hL.live_nodup⟩
    obtain ⟨l', hl', heq⟩ := List.mem_map.mp hmem
    exact hL.live_owner hl' (heq ▸ hnew)
  · intro j hj
    obtain ⟨hown, hlen⟩ := hL.idle j hj
    exact ⟨(hkeep _ (by rw [hown]; nofun)).trans hown, hlen⟩
  · exact fun q j hq hfull => hF q j (harena hq).1 hfull
  · exact fun hq => hB'.pages (harena hq).1
  · intro l' hl' hlarge'
    rcases List.mem_cons.mp hl' with rfl | hl'
    · exact hlarge hlarge'
    · refine hB'.large l' hl' ⟨hlarge'.1, ?_⟩
      rw [← hlarge'.2]
      exact (hkeep _ (hL.live_owner hl')).symm

end LinuxUtil.Malloc
