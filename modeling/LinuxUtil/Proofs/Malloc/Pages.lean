/-
The slots of a page, and the list in its header.

`slots i p` are the places for blocks of arena `i` in the page `p`: behind the header,
side by side, up to the end of the page.  `PageAt m i p l` says that the page has its
header and that the list in it is `l`.  `page_header_init` makes such a page with all
slots in the list, and `freelist_free` adds a slot to the list.
-/
import LinuxUtil.Lib.Chain
import LinuxUtil.Tlibc.Malloc
import Mathlib.Data.List.Nodup

namespace LinuxUtil.Malloc

open ByteMem

/-! ### Slots -/

def firstOffset (i : Fin ncaches) : Nat := skipHeader (blockSize i) headerSize 0

def nslots (i : Fin ncaches) : Nat := (PGSIZE - firstOffset i) / blockSize i

def slots (i : Fin ncaches) (p : Nat) : List Nat :=
  (List.range (nslots i)).map fun k => p + firstOffset i + k * blockSize i

theorem blockSize_bounds : ∀ i, 16 ≤ blockSize i ∧ blockSize i ≤ 1024 := by decide

theorem slot_bounds :
    ∀ i, 32 ≤ firstOffset i ∧ firstOffset i + nslots i * blockSize i = 4096 ∧ 1 ≤ nslots i ∧
      nslots i ≤ 254 := by
  decide

theorem length_slots (i : Fin ncaches) (p : Nat) : (slots i p).length = nslots i := by
  rw [slots, List.length_map, List.length_range]

theorem mem_slots {i : Fin ncaches} {p b : Nat} :
    b ∈ slots i p ↔ ∃ k, k < nslots i ∧ p + firstOffset i + k * blockSize i = b := by
  simp [slots]

/-- A slot is in the page and behind its header. -/
theorem slot_in {i : Fin ncaches} {p b : Nat} (h : b ∈ slots i p) :
    p + 32 ≤ b ∧ b + blockSize i ≤ p + 4096 := by
  obtain ⟨k, hk, rfl⟩ := mem_slots.mp h
  obtain ⟨hfirst, hend, -, -⟩ := slot_bounds i
  have hmul : (k + 1) * blockSize i ≤ nslots i * blockSize i := Nat.mul_le_mul_right _ hk
  rw [Nat.add_one_mul] at hmul
  refine ⟨by omega, by omega⟩

/-- Two slots are apart. -/
theorem slot_apart {i : Fin ncaches} {p b c : Nat} (hb : b ∈ slots i p) (hc : c ∈ slots i p)
    (hne : b ≠ c) : b + blockSize i ≤ c ∨ c + blockSize i ≤ b := by
  obtain ⟨k, -, rfl⟩ := mem_slots.mp hb
  obtain ⟨n, -, rfl⟩ := mem_slots.mp hc
  rcases Nat.lt_trichotomy k n with h | rfl | h
  · have hmul : (k + 1) * blockSize i ≤ n * blockSize i := Nat.mul_le_mul_right _ h
    rw [Nat.add_one_mul] at hmul
    left
    omega
  · exact absurd rfl hne
  · have hmul : (n + 1) * blockSize i ≤ k * blockSize i := Nat.mul_le_mul_right _ h
    rw [Nat.add_one_mul] at hmul
    right
    omega

theorem nodup_slots (i : Fin ncaches) (p : Nat) : (slots i p).Nodup := by
  have hpos := (blockSize_bounds i).1
  refine List.Nodup.map ?_ List.nodup_range
  intro k n h
  have : k * blockSize i = n * blockSize i := Nat.add_left_cancel h
  exact Nat.eq_of_mul_eq_mul_right (by omega) this

theorem blockToPage_eq {p b : Nat} (hp : p % PGSIZE = 0) (h : p ≤ b ∧ b < p + 4096) :
    Heap.blockToPage b = p := by
  unfold Heap.blockToPage
  unfold PGSIZE at hp ⊢
  omega

theorem blockToPage_slot {i : Fin ncaches} {p b : Nat} (hp : p % PGSIZE = 0)
    (h : b ∈ slots i p) : Heap.blockToPage b = p := by
  have hb := slot_in h
  have := (blockSize_bounds i).1
  exact blockToPage_eq hp (by omega)

theorem blockToPage_spec (b : Nat) :
    Heap.blockToPage b % PGSIZE = 0 ∧ Heap.blockToPage b ≤ b ∧ b < Heap.blockToPage b + 4096 := by
  unfold Heap.blockToPage PGSIZE
  omega

/-! ### The list in a header -/

theorem load_store_eq {m : Mem} {a w v : Nat} (h : v < 256 ^ w) : load (store m a w v) a w = v := by
  rw [load_store_self, Nat.mod_eq_of_lt h]

/-- A `struct freelist` with the nodes `l`. -/
structure FreeList (m : Mem) (fl : Nat) (l : List Nat) : Prop where
  chain : Chain m (load m fl 8) l
  last : load m (fl + 8) 8 = l.getLast?.getD 0

theorem freelistFree_out (m : Mem) (fl blk : Nat) {x : Nat} (hx : x < fl ∨ fl + 16 ≤ x)
    (hb : x < blk ∨ blk + 8 ≤ x) : freelistFree m fl blk x = m x := by
  unfold freelistFree
  rw [store_apply_of_out _ _ _ _ (by omega)]
  by_cases h : load (store m blk 8 (load m fl 8)) fl 8 = 0
  · rw [if_pos h, store_apply_of_out _ _ _ _ (by omega), store_apply_of_out _ _ _ _ hb]
  · rw [if_neg h, store_apply_of_out _ _ _ _ hb]

theorem load_freelistFree (m : Mem) (fl blk : Nat) {b w : Nat} (hx : b + w ≤ fl ∨ fl + 16 ≤ b)
    (hb : b + w ≤ blk ∨ blk + 8 ≤ b) : load (freelistFree m fl blk) b w = load m b w :=
  load_congr fun x h1 h2 => freelistFree_out m fl blk (by omega) (by omega)

/-- `freelist_free` adds a node in front. -/
theorem FreeList.push {m : Mem} {fl blk : Nat} {l : List Nat} (h : FreeList m fl l)
    (hblk : blk ≠ 0) (hlt : blk < 256 ^ 8) (hap : blk + 8 ≤ fl ∨ fl + 16 ≤ blk)
    (hnodes : ∀ b ∈ l, (b + 8 ≤ fl ∨ fl + 16 ≤ b) ∧ (b + 8 ≤ blk ∨ blk + 8 ≤ b)) :
    FreeList (freelistFree m fl blk) fl (blk :: l) := by
  have hfirst : load (store m blk 8 (load m fl 8)) fl 8 = load m fl 8 :=
    load_store_of_apart _ _ _ _ (by omega)
  have hnext : load (freelistFree m fl blk) blk 8 = load m fl 8 := by
    unfold freelistFree
    simp only
    rw [load_store_of_apart _ _ _ _ (by omega)]
    by_cases hz : load (store m blk 8 (load m fl 8)) fl 8 = 0
    · rw [if_pos hz, load_store_of_apart _ _ _ _ (by omega), load_store_eq (load_lt _ _ _)]
    · rw [if_neg hz, load_store_eq (load_lt _ _ _)]
  refine ⟨⟨?_, hblk, ?_⟩, ?_⟩
  · exact load_store_eq hlt
  · rw [hnext]
    exact h.chain.congr fun b hb => load_freelistFree m fl blk (hnodes b hb).1 (hnodes b hb).2
  · unfold freelistFree
    simp only
    rw [load_store_of_apart _ _ _ _ (by omega), hfirst]
    cases l with
    | nil =>
        have hzero : load m fl 8 = 0 := h.chain
        rw [if_pos hzero, load_store_eq hlt]
        rfl
    | cons b rest =>
        have hne : load m fl 8 ≠ 0 := by
          rw [h.chain.1]
          exact h.chain.2.1
        rw [if_neg hne, load_store_of_apart _ _ _ _ (by omega), h.last]
        rfl

theorem FreeList.congr {m m' : Mem} {fl : Nat} {l : List Nat} (h : FreeList m fl l)
    (hfl : ∀ x, fl ≤ x → x < fl + 16 → m' x = m x)
    (hl : ∀ b ∈ l, ∀ x, b ≤ x → x < b + 8 → m' x = m x) : FreeList m' fl l := by
  refine ⟨?_, ?_⟩
  · rw [load_congr (n := m) fun x h1 h2 => hfl x h1 (by omega)]
    exact h.chain.congr fun b hb => load_congr fun x h1 h2 => hl b hb x h1 h2
  · rw [load_congr (n := m) fun x h1 h2 => hfl x (by omega) (by omega)]
    exact h.last

/-! ### Pages -/

/-- The page `p` of arena `i`, with `l` in the list of its header. -/
structure PageAt (m : Mem) (i : Fin ncaches) (p : Nat) (l : List Nat) : Prop where
  are : load m p 8 = i.val + 1
  list : FreeList m (p + 8) l
  avail : load m (p + 24) 2 = l.length
  magic : load m (p + 26) 2 = MAGIC
  total : load m (p + 28) 2 = nslots i

/-- The header of a page whose list is changed: the other fields stay. -/
theorem PageAt.setList {m m' : Mem} {i : Fin ncaches} {p : Nat} {l l' : List Nat}
    (h : PageAt m i p l) (hp : ∀ x, p ≤ x → x < p + 8 ∨ p + 26 ≤ x → x < p + 32 → m' x = m x)
    (hlist : FreeList m' (p + 8) l') (havail : load m' (p + 24) 2 = l'.length) :
    PageAt m' i p l' := by
  refine ⟨?_, hlist, havail, ?_, ?_⟩
  · rw [← h.are]
    exact load_congr fun x h1 h2 => hp x (by omega) (by omega) (by omega)
  · rw [← h.magic]
    exact load_congr fun x h1 h2 => hp x (by omega) (by omega) (by omega)
  · rw [← h.total]
    exact load_congr fun x h1 h2 => hp x (by omega) (by omega) (by omega)

theorem PageAt.congr {m m' : Mem} {i : Fin ncaches} {p : Nat} {l : List Nat} (h : PageAt m i p l)
    (hp : ∀ x, p ≤ x → x < p + 32 → m' x = m x)
    (hl : ∀ b ∈ l, ∀ x, b ≤ x → x < b + 8 → m' x = m x) : PageAt m' i p l := by
  refine h.setList (fun x h1 _ h2 => hp x h1 h2) ?_ ?_
  · exact h.list.congr (fun x h1 h2 => hp x (by omega) (by omega)) hl
  · rw [← h.avail]
    exact load_congr fun x h1 h2 => hp x (by omega) (by omega)

/-- A block is cleared, put into the list, and counted. -/
theorem addBlock_spec {m : Mem} {p b : Nat} {l : List Nat} (hfl : FreeList m (p + 8) l)
    (hav : load m (p + 24) 2 = l.length) (hlen : l.length < 254) (hlow : p + 32 ≤ b)
    (hhigh : b + 8 ≤ 2 ^ 64) (hl : ∀ c ∈ l, p + 32 ≤ c ∧ c + 8 ≤ b) :
    FreeList (addBlock m p b) (p + 8) (b :: l) ∧
      load (addBlock m p b) (p + 24) 2 = (b :: l).length ∧
      ∀ x, x < p + 8 ∨ p + 26 ≤ x → x < b ∨ b + 8 ≤ x → addBlock m p b x = m x := by
  have hfl₁ : FreeList (store m b 8 0) (p + 8) l := by
    refine hfl.congr (fun x h1 h2 => ?_) fun c hc x h1 h2 => ?_
    · exact store_apply_of_out _ _ _ _ (by omega)
    · have := hl c hc
      exact store_apply_of_out _ _ _ _ (by omega)
  have hfl₂ : FreeList (freelistFree (store m b 8 0) (p + 8) b) (p + 8) (b :: l) := by
    refine hfl₁.push (by omega) (by omega) (by omega) fun c hc => ?_
    have := hl c hc
    omega
  have hav₂ : load (freelistFree (store m b 8 0) (p + 8) b) (p + 24) 2 = l.length := by
    rw [load_freelistFree _ _ _ (by omega) (by omega), load_store_of_apart _ _ _ _ (by omega), hav]
  unfold addBlock
  simp only [hav₂]
  refine ⟨hfl₂.congr (fun x h1 h2 => ?_) fun c hc x h1 h2 => ?_, ?_, fun x hx hb => ?_⟩
  · exact store_apply_of_out _ _ _ _ (by omega)
  · have : p + 32 ≤ c := by
      rcases List.mem_cons.mp hc with rfl | hc
      · exact hlow
      · exact (hl c hc).1
    exact store_apply_of_out _ _ _ _ (by omega)
  · exact load_store_eq (by omega)
  · rw [store_apply_of_out _ _ _ _ (by omega), freelistFree_out _ _ _ (by omega) hb,
      store_apply_of_out _ _ _ _ hb]

/-- The loop over the blocks, from the slot with number `j` on. -/
theorem addBlocks_spec (i : Fin ncaches) {p : Nat} (hlt : p + 4096 ≤ 2 ^ 64) :
    ∀ (k n j : Nat) (m : Mem) (l : List Nat), j + k = nslots i → k ≤ n → FreeList m (p + 8) l →
      load m (p + 24) 2 = l.length → l.length = j →
      (∀ b ∈ l, p + 32 ≤ b ∧ b + 8 ≤ p + firstOffset i + j * blockSize i) →
      ∃ m', addBlocks (blockSize i) p n (firstOffset i + j * blockSize i) m = m' ∧
        FreeList m' (p + 8) (((slots i p).drop j).reverse ++ l) ∧
        load m' (p + 24) 2 = nslots i ∧
        ∀ x, x < p + 8 ∨ p + 26 ≤ x ∧ x < p + 32 ∨ p + 4096 ≤ x → m' x = m x := by
  obtain ⟨hfirst, hend, -, hmax⟩ := slot_bounds i
  have hsize := blockSize_bounds i
  intro k
  induction k with
  | zero =>
      intro n j m l hj _ hfl hav hlen _
      rw [Nat.add_zero] at hj
      have hstop : ¬ firstOffset i + j * blockSize i < PGSIZE := by
        rw [hj, hend]
        exact Nat.lt_irrefl _
      refine ⟨m, ?_, ?_, ?_, fun x _ => rfl⟩
      · cases n with
        | zero => rfl
        | succ n => rw [addBlocks, if_neg hstop]
      · rw [List.drop_of_length_le (by rw [length_slots]; omega)]
        exact hfl
      · rw [hav, hlen, hj]
  | succ k ih =>
      intro n j m l hj hn hfl hav hlen hl
      obtain ⟨n, rfl⟩ := Nat.exists_eq_succ_of_ne_zero (show n ≠ 0 by omega)
      have hslot : p + firstOffset i + j * blockSize i ∈ slots i p :=
        mem_slots.mpr ⟨j, by omega, rfl⟩
      obtain ⟨hlow, hhigh⟩ := slot_in hslot
      have hgo : firstOffset i + j * blockSize i < PGSIZE := by
        unfold PGSIZE
        omega
      have hnext : firstOffset i + j * blockSize i + blockSize i =
          firstOffset i + (j + 1) * blockSize i := by
        rw [Nat.add_one_mul, Nat.add_assoc]
      have hdrop : ((slots i p).drop j).reverse ++ l =
          ((slots i p).drop (j + 1)).reverse ++ (p + firstOffset i + j * blockSize i) :: l := by
        rw [List.drop_eq_getElem_cons (by rw [length_slots]; omega), List.reverse_cons,
          List.append_assoc, List.singleton_append]
        simp [slots]
      rw [addBlocks, if_pos hgo, hnext, hdrop, ← Nat.add_assoc]
      obtain ⟨hfl₁, hav₁, hout₁⟩ := addBlock_spec (b := p + firstOffset i + j * blockSize i) hfl hav
        (by omega) hlow (by omega) hl
      obtain ⟨m', hm', hfl', hav', hout⟩ := ih n (j + 1) _ _ (by omega) (by omega) hfl₁ hav₁
        (by rw [List.length_cons, hlen]) (by
          intro b hb
          rw [Nat.add_one_mul]
          rcases List.mem_cons.mp hb with rfl | hb
          · omega
          · have := hl b hb
            omega)
      refine ⟨m', hm', hfl', hav', fun x hx => ?_⟩
      rw [hout x hx, hout₁ x (by omega) (by omega)]

/-- **A new page has all its slots in its list.** -/
theorem pageHeaderInit_spec (m : Mem) (i : Fin ncaches) {p : Nat} (hlt : p + 4096 ≤ 2 ^ 64) :
    PageAt (pageHeaderInit m i p) i p (slots i p).reverse ∧
      ∀ x, x < p ∨ p + 4096 ≤ x → pageHeaderInit m i p x = m x := by
  obtain ⟨hfirst, -, -, hmax⟩ := slot_bounds i
  have hi : i.val < 7 := i.isLt
  let m₁ := store (store (store m p 8 (i.val + 1)) (p + 26) 2 MAGIC) (p + 24) 2 0
  let m₂ := freelistInit m₁ (p + 8)
  have hout₂ : ∀ x, x < p + 8 ∨ p + 24 ≤ x → m₂ x = m₁ x := fun x hx => by
    change freelistInit m₁ (p + 8) x = m₁ x
    rw [freelistInit, store_apply_of_out _ _ _ _ (by omega), store_apply_of_out _ _ _ _ (by omega)]
  have hout₁ : ∀ x, x < p ∨ p + 32 ≤ x → m₁ x = m x := fun x hx => by
    change store _ _ _ _ x = m x
    rw [store_apply_of_out _ _ _ _ (by omega), store_apply_of_out _ _ _ _ (by omega),
      store_apply_of_out _ _ _ _ (by omega)]
  have hfl₂ : FreeList m₂ (p + 8) [] := by
    refine ⟨load_store_eq (by decide), ?_⟩
    change load (freelistInit m₁ (p + 8)) (p + 8 + 8) 8 = 0
    rw [freelistInit, load_store_of_apart _ _ _ _ (by omega), load_store_eq (by decide)]
  have hav₂ : load m₂ (p + 24) 2 = 0 := by
    rw [load_congr (n := m₁) fun x h1 h2 => hout₂ x (by omega)]
    exact load_store_eq (by decide)
  obtain ⟨m₃, hm₃, hfl₃, hav₃, hout₃⟩ := addBlocks_spec i hlt (nslots i) PGSIZE 0 m₂ []
    (Nat.zero_add _) (Nat.le_trans hmax (by decide)) hfl₂ hav₂ rfl nofun
  rw [Nat.zero_mul, Nat.add_zero] at hm₃
  rw [List.drop_zero, List.append_nil] at hfl₃
  have hfinal : pageHeaderInit m i p = store m₃ (p + 28) 2 (nslots i) := by
    rw [← hav₃, ← hm₃]
    rfl
  have hnode : ∀ b ∈ (slots i p).reverse, p + 32 ≤ b := fun b hb =>
    (slot_in (List.mem_reverse.mp hb)).1
  rw [hfinal]
  refine ⟨⟨?_, ?_, ?_, ?_, ?_⟩, fun x hx => ?_⟩
  · rw [load_store_of_apart _ _ _ _ (by omega),
      load_congr (n := m₁) fun x h1 h2 => by rw [hout₃ x (by omega), hout₂ x (by omega)],
      load_store_of_apart _ _ _ _ (by omega), load_store_of_apart _ _ _ _ (by omega),
      load_store_eq (by omega)]
  · refine hfl₃.congr (fun x h1 h2 => store_apply_of_out _ _ _ _ (by omega)) fun b hb x h1 h2 => ?_
    have := hnode b hb
    exact store_apply_of_out _ _ _ _ (by omega)
  · rw [load_store_of_apart _ _ _ _ (by omega), hav₃, List.length_reverse, length_slots]
  · rw [load_store_of_apart _ _ _ _ (by omega),
      load_congr (n := m₁) fun x h1 h2 => by rw [hout₃ x (by omega), hout₂ x (by omega)],
      load_store_of_apart _ _ _ _ (by omega), load_store_eq (by decide)]
  · exact load_store_eq (by omega)
  · rw [store_apply_of_out _ _ _ _ (by omega), hout₃ x (by omega), hout₂ x (by omega),
      hout₁ x (by omega)]

end LinuxUtil.Malloc
