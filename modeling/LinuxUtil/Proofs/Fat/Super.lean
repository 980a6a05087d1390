/-
The super block of an image, and the writes made through it.

The super block that `FAT32SuperInit` parses off an image is `Layout.super`: the
geometry, and the number of files as the next root entry.  Through it every later
step of a call is a write at an offset of the geometry.  `Layout.setEntry`,
`Layout.link` and `Layout.sync` name these writes; for each there is what it changes
and what it leaves alone.
-/
import LinuxUtil.Proofs.Fat.Create

namespace LinuxUtil.Fat

open ByteMem

variable {g : Layout} {m : Mem} {fs : List Stored}

/-! ### Parsing the super block -/

/-- The super block of a volume with `k` files. -/
def Layout.super (g : Layout) (k : Nat) : FAT32Super where
  fsInfo := some g.bps
  bytesPerSector := UInt32.ofNat g.bps
  bytesPerCluster := UInt32.ofNat g.bpc
  bytesPerFAT := UInt32.ofNat g.fatBytes
  numSector := UInt32.ofNat g.nSector
  numReserved := 8
  numFAT := UInt32.ofNat (2 * g.fatSize)
  numData := UInt32.ofNat (g.nSector - g.dataSector)
  maxCluster := UInt32.ofNat g.maxCluster
  rootCluster := 2
  tables := [g.fat1, g.fat2]
  rootDir := some g.data
  nextRootEntry := UInt32.ofNat k
  numRootEntry := UInt32.ofNat (g.bpc / 32)

theorem getSector_eq (hg : g.WF) {k : Nat} (hk : k < g.nSector) (hlt : k * g.bps < 2 ^ 32) :
    FAT32SuperGetSector (UInt32.ofNat g.nSector) (UInt32.ofNat g.bps) (UInt32.ofNat k)
      = some (k * g.bps) := by
  have hn := hg.nSector_lt
  unfold FAT32SuperGetSector
  rw [if_neg, ← UInt32.ofNat_mul, toNat_ofNat_lt hlt]
  rw [ge_iff_le, UInt32.le_iff_toNat_le, toNat_ofNat_lt hn, toNat_ofNat_lt (by omega)]
  omega

theorem firstFreeEntry_eq {root n k : Nat} (hk : k ≤ n)
    (hused : ∀ i, i < k → m (root + 32 * i) ≠ 0) (hfree : k < n → m (root + 32 * k) = 0) :
    firstFreeEntry m root n = k := by
  unfold firstFreeEntry
  by_cases hlt : k < n
  · have : (List.range n).find? (fun i => m (root + 32 * i) == 0) = some k := by
      rw [List.find?_range_eq_some]
      refine ⟨by simpa using hfree hlt, List.mem_range.mpr hlt, ?_⟩
      intro i hi
      simpa using hused i hi
    rw [this]
    rfl
  · have hkn : k = n := by omega
    subst hkn
    have : (List.range k).find? (fun i => m (root + 32 * i) == 0) = none := by
      rw [List.find?_eq_none]
      intro i hi
      simpa using hused i (List.mem_range.mp hi)
    rw [this]
    rfl

theorem rootChain_end {table fuel : Nat} {ptr count : UInt32}
    (h : load m (table + 4 * ptr.toNat) 4 = 0xFFFFFFFF) :
    rootChain m table (fuel + 1) ptr count = .ok count := by
  unfold rootChain load32
  rw [h]
  simp [endOfChain]

theorem Image.firstFree (hg : g.WF) (h : Image g m fs) :
    firstFreeEntry m g.data (g.bpc / 32) = fs.length := by
  have hbpc := hg.bpc_entries
  have hroot := h.rootFits
  refine firstFreeEntry_eq (by omega) ?_ ?_
  · intro i hi
    exact (h.dirUsed i _ (List.getElem?_eq_getElem hi)).head_ne
  · intro hlt
    exact h.dirFree _ (Nat.le_refl _) (by omega)

/-- The super block needs the BPB, the end of the root chain and the first free root entry. -/
theorem superInit_at (hg : g.WF) (hh : Header g m) (hroot : g.entry m 2 = 0xFFFFFFFF) {k : Nat}
    (hk : firstFreeEntry m g.data (g.bpc / 32) = k) : FAT32SuperInit m = .ok (g.super k) := by
  have hroom := hg.room
  have hsp := hg.spc_pos
  have hn := hg.nSector_lt
  have hsec := hg.sectors
  have hds : g.dataSector = 8 + 2 * g.fatSize := rfl
  have hbpc : UInt32.ofNat g.spc * UInt32.ofNat g.bps = UInt32.ofNat g.bpc :=
    (UInt32.ofNat_mul _ _).symm
  have hfb : UInt32.ofNat g.fatSize * UInt32.ofNat g.bps = UInt32.ofNat g.fatBytes :=
    (UInt32.ofNat_mul _ _).symm
  have hnf : UInt32.ofNat g.fatSize * UInt32.ofNat 2 = UInt32.ofNat (2 * g.fatSize) := by
    rw [← UInt32.ofNat_mul, Nat.mul_comm]
  have hnd : UInt32.ofNat g.nSector - UInt32.ofNat 8 - UInt32.ofNat (2 * g.fatSize)
      = UInt32.ofNat (g.nSector - g.dataSector) := by
    rw [hds, ← UInt32.ofNat_sub (by omega), ← UInt32.ofNat_sub (by omega)]
    congr 1
    omega
  have hmax : UInt32.ofNat (g.nSector - g.dataSector) / UInt32.ofNat g.spc
      = UInt32.ofNat g.maxCluster :=
    (UInt32.ofNat_div (by omega) (by omega)).symm
  have ht0 : (UInt32.ofNat g.bps * UInt32.ofNat 8).toNat = g.fat1 := by
    have := hg.data_lt
    rw [← UInt32.ofNat_mul, toNat_ofNat_lt, Nat.mul_comm]
    · rfl
    · unfold Layout.data Layout.fat2 Layout.fat1 at this
      omega
  have hstride : 4 * (UInt32.ofNat g.fatBytes / 4).toNat = g.fatBytes := by
    have := hg.fatBytes_lt
    rw [UInt32.toNat_div, toNat_ofNat_lt this]
    exact hg.fatBytes_entries
  have hre : 1 * UInt32.ofNat g.bpc / 32 = UInt32.ofNat (g.bpc / 32) := by
    rw [UInt32.one_mul, UInt32.ofNat_div hg.bpc_lt (by omega)]
    rfl
  have hren : UInt32.ofNat (g.bpc / 32) ≠ 0 := by
    intro hc
    have := congrArg UInt32.toNat hc
    have := hg.bpc_ge
    have := hg.bpc_lt
    rw [toNat_ofNat_lt (by omega)] at *
    simp at *
    omega
  have hwalk : rootChain m g.fat1 (2 ^ 32) (UInt32.ofNat 2) 1 = .ok 1 :=
    rootChain_end hroot
  have hsec1 : FAT32SuperGetSector (UInt32.ofNat g.nSector) (UInt32.ofNat g.bps) 1
      = some g.bps := by
    have := getSector_eq hg (k := 1) (by omega) (by have := hg.bps_le; omega)
    rwa [Nat.one_mul] at this
  have hsecD : FAT32SuperGetSector (UInt32.ofNat g.nSector) (UInt32.ofNat g.bps)
      (UInt32.ofNat 8 + UInt32.ofNat (2 * g.fatSize)) = some g.data := by
    rw [← UInt32.ofNat_add, g.data_eq]
    exact getSector_eq hg (by omega) (g.data_eq ▸ hg.data_lt)
  unfold FAT32SuperInit
  simp only [load32, hh.bytesPerSector, hh.secPerCluster, hh.reserved,
    hh.numTables, hh.numSector, hh.fatSize, hh.rootCluster, hbpc, hfb,
    hnf, hnd, hmax, ht0, hstride, hwalk, bind, Except.bind, hre, if_neg hren, hsec1, hsecD, deref,
    toNat_ofNat_lt (show g.bpc / 32 < 2 ^ 32 by have := hg.bpc_lt; omega), hk]
  rfl

theorem superInit_eq (hg : g.WF) (h : Image g m fs) :
    FAT32SuperInit m = .ok (g.super fs.length) :=
  superInit_at hg h.header h.rootChain (h.firstFree hg)

/-! ### The writes of a call -/

/-- `FAT32SuperFree`: bring the backups at sectors 6 and 7 up to date. -/
def Layout.sync (g : Layout) (m : Mem) : Mem :=
  copy (copy m (6 * g.bps) 0 g.bps) (7 * g.bps) g.bps g.bps

/-- `FAT32SuperWriteEntry`: entry `c` of both tables. -/
def Layout.setEntry (g : Layout) (m : Mem) (c v : Nat) : Mem :=
  store (store m (g.fat1 + 4 * c) 4 v) (g.fat2 + 4 * c) 4 v

/-- Link the `n` clusters from `c` on, each to the one after it. -/
def Layout.link (g : Layout) : Nat → Mem → Nat → Mem
  | 0, m, _ => m
  | n + 1, m, c => g.link n (g.setEntry m c (c + 1)) (c + 1)

/-- A chain of `k` clusters from `c` on. -/
def Layout.writeChain (g : Layout) (m : Mem) (c k : Nat) : Mem :=
  g.setEntry (g.link (k - 1) m c) (c + (k - 1)) 0xFFFFFFFF

theorem superFree_eq (hg : g.WF) (k : Nat) (m : Mem) :
    FAT32SuperFree (g.super k) m = .ok (g.sync m) := by
  have hsec := hg.sectors
  have hb := hg.bps_le
  have h1 : FAT32SuperGetSector (UInt32.ofNat g.nSector) (UInt32.ofNat g.bps) 1
      = some g.bps := by
    have := getSector_eq hg (k := 1) (by omega) (by omega)
    rwa [Nat.one_mul] at this
  have h6 : FAT32SuperGetSector (UInt32.ofNat g.nSector) (UInt32.ofNat g.bps) 6
      = some (6 * g.bps) := getSector_eq hg (k := 6) (by omega) (by omega)
  have h7 : FAT32SuperGetSector (UInt32.ofNat g.nSector) (UInt32.ofNat g.bps) 7
      = some (7 * g.bps) := getSector_eq hg (k := 7) (by omega) (by omega)
  unfold FAT32SuperFree Layout.super
  simp only [h1, h6, h7, deref, bind, Except.bind, pure, Except.pure,
    toNat_ofNat_lt (show g.bps < 2 ^ 32 by omega)]
  rfl

theorem writeEntry_eq (hg : g.WF) (k : Nat) (m : Mem) {c : Nat} (v : UInt32)
    (h1 : 1 ≤ c) (hc : c < g.maxCluster) :
    FAT32SuperWriteEntry (g.super k) m (UInt32.ofNat c) v = .ok (g.setEntry m c v.toNat) := by
  have hmax := hg.maxCluster_lt
  have hcn : (UInt32.ofNat c).toNat = c := toNat_ofNat_lt (by omega)
  have hlt : UInt32.ofNat c < UInt32.ofNat g.maxCluster := by
    rw [UInt32.lt_iff_toNat_lt, hcn, toNat_ofNat_lt (by omega)]
    exact hc
  have hge : UInt32.ofNat c ≥ 1 := by
    rw [ge_iff_le, UInt32.le_iff_toNat_le, hcn]
    exact h1
  unfold FAT32SuperWriteEntry Layout.super
  simp only [assert, hlt, hge, decide_true, if_true, bind, Except.bind, pure, Except.pure,
    List.foldl_cons, List.foldl_nil, hcn]
  rfl

theorem linkClusters_eq (hg : g.WF) (k : Nat) :
    ∀ (n : Nat) (m : Mem) (c : Nat), 1 ≤ c → c + n ≤ g.maxCluster →
      linkClusters (g.super k) n m (UInt32.ofNat c)
        = .ok (g.link n m c, UInt32.ofNat (c + n)) := by
  have hmax := hg.maxCluster_lt
  intro n
  induction n with
  | zero => intro m c _ _; rfl
  | succ n ih =>
      intro m c h1 hc
      have hv : (1 + UInt32.ofNat c) = UInt32.ofNat (c + 1) := by
        rw [Nat.add_comm, UInt32.ofNat_add]
        rfl
      have hv' : (UInt32.ofNat c + 1) = UInt32.ofNat (c + 1) := by
        rw [UInt32.ofNat_add]
        rfl
      unfold linkClusters
      rw [writeEntry_eq hg k m _ h1 (by omega)]
      simp only [bind, Except.bind, hv, hv', toNat_ofNat_lt (show c + 1 < 2 ^ 32 by omega)]
      rw [ih _ _ (by omega) (by omega), show c + 1 + n = c + (n + 1) by omega]
      rfl

/-! ### What each write changes -/

theorem sync_apply_of_out (m : Mem) {x : Nat} (hx : x < 6 * g.bps ∨ 8 * g.bps ≤ x) :
    g.sync m x = m x := by
  unfold Layout.sync
  rw [copy_apply_of_out _ _ _ _ (by omega), copy_apply_of_out _ _ _ _ (by omega)]

theorem sync_bpb (m : Mem) {x : Nat} (hx : x < g.bps) : g.sync m (6 * g.bps + x) = m x := by
  unfold Layout.sync
  rw [copy_apply_of_out _ _ _ _ (by omega), copy_apply_of_in _ _ _ _ hx, Nat.zero_add]

theorem sync_fsInfo (m : Mem) {x : Nat} (hx : x < g.bps) :
    g.sync m (7 * g.bps + x) = m (g.bps + x) := by
  unfold Layout.sync
  rw [copy_apply_of_in _ _ _ _ hx, copy_apply_of_out _ _ _ _ (by omega)]

theorem setEntry_apply_of_out (m : Mem) {c v x : Nat}
    (h1 : x < g.fat1 + 4 * c ∨ g.fat1 + 4 * c + 4 ≤ x)
    (h2 : x < g.fat2 + 4 * c ∨ g.fat2 + 4 * c + 4 ≤ x) : g.setEntry m c v x = m x := by
  unfold Layout.setEntry
  rw [store_apply_of_out _ _ _ _ h2, store_apply_of_out _ _ _ _ h1]

/-- The second table gets the same bytes. -/
theorem setEntry_mirror (m : Mem) {c v : Nat} (hc : 4 * c + 4 ≤ g.fatBytes)
    (h : ∀ x, g.fat1 ≤ x → x < g.fat2 → m (x + g.fatBytes) = m x) :
    ∀ x, g.fat1 ≤ x → x < g.fat2 →
      g.setEntry m c v (x + g.fatBytes) = g.setEntry m c v x := by
  intro x h1 h2
  have hf2 : g.fat2 = g.fat1 + g.fatBytes := rfl
  unfold Layout.setEntry store
  by_cases hin : g.fat1 + 4 * c ≤ x ∧ x < g.fat1 + 4 * c + 4
  · obtain ⟨i, rfl⟩ := Nat.exists_eq_add_of_le hin.1
    have hi : i < (leBytes 4 v).length := by simp; omega
    rw [show g.fat1 + 4 * c + i + g.fatBytes = g.fat2 + 4 * c + i by omega,
      write_apply_of_in _ _ _ hi,
      write_apply_of_out _ _ _ (x := g.fat1 + 4 * c + i) (Or.inl (by omega)),
      write_apply_of_in _ _ _ hi]
  · rw [write_apply_of_out _ _ _ (by simp; omega), write_apply_of_out _ _ _ (by simp; omega),
      write_apply_of_out _ _ _ (by simp; omega), write_apply_of_out _ _ _ (by simp; omega), h x h1 h2]

theorem entry_setEntry_self (m : Mem) {c v : Nat} (hc : 4 * c + 4 ≤ g.fatBytes)
    (hv : v < 2 ^ 32) : g.entry (g.setEntry m c v) c = v := by
  unfold Layout.entry Layout.setEntry
  rw [load_store_of_apart _ _ _ _ (Or.inl (by unfold Layout.fat2; omega)), load_store_self,
    Nat.mod_eq_of_lt (by omega)]

theorem entry_setEntry_ne (m : Mem) {c d v : Nat} (hd : 4 * d + 4 ≤ g.fatBytes) (hne : d ≠ c) :
    g.entry (g.setEntry m c v) d = g.entry m d := by
  refine entry_congr fun x h1 h2 => setEntry_apply_of_out m ?_ ?_
  · omega
  · unfold Layout.fat2
    omega

theorem link_apply_of_out :
    ∀ (n : Nat) (m : Mem) (c : Nat) {x : Nat},
      (x < g.fat1 + 4 * c ∨ g.fat1 + 4 * (c + n) ≤ x) →
      (x < g.fat2 + 4 * c ∨ g.fat2 + 4 * (c + n) ≤ x) → g.link n m c x = m x := by
  intro n
  induction n with
  | zero => intro m c x _ _; rfl
  | succ n ih =>
      intro m c x h1 h2
      unfold Layout.link
      rw [ih _ _ (by omega) (by omega), setEntry_apply_of_out m (by omega) (by omega)]

theorem link_mirror :
    ∀ (n : Nat) (m : Mem) (c : Nat), 4 * (c + n) ≤ g.fatBytes →
      (∀ x, g.fat1 ≤ x → x < g.fat2 → m (x + g.fatBytes) = m x) →
      ∀ x, g.fat1 ≤ x → x < g.fat2 → g.link n m c (x + g.fatBytes) = g.link n m c x := by
  intro n
  induction n with
  | zero => intro m c _ h; exact h
  | succ n ih =>
      intro m c hc h
      unfold Layout.link
      exact ih _ _ (by omega) (setEntry_mirror m (by omega) h)

theorem entry_link :
    ∀ (n : Nat) (m : Mem) (c : Nat), 4 * (c + n) ≤ g.fatBytes → c + n < 2 ^ 32 →
      ∀ i, i < n → g.entry (g.link n m c) (c + i) = c + i + 1 := by
  intro n
  induction n with
  | zero => intro m c _ _ i hi; omega
  | succ n ih =>
      intro m c hc hlt i hi
      unfold Layout.link
      cases i with
      | zero =>
          have hlater : g.entry (g.link n (g.setEntry m c (c + 1)) (c + 1)) c
              = g.entry (g.setEntry m c (c + 1)) c :=
            entry_congr fun x h1 h2 => link_apply_of_out n _ _ (Or.inl (by omega))
              (Or.inl (by unfold Layout.fat2; omega))
          show g.entry _ c = c + 1
          rw [hlater, entry_setEntry_self m (by omega) (by omega)]
      | succ i =>
          have := ih (g.setEntry m c (c + 1)) (c + 1) (by omega) (by omega) i (by omega)
          rw [show c + (i + 1) = c + 1 + i by omega]
          exact this

theorem writeChain_apply_of_out (m : Mem) {c k x : Nat} (hk : 1 ≤ k)
    (h1 : x < g.fat1 + 4 * c ∨ g.fat1 + 4 * (c + k) ≤ x)
    (h2 : x < g.fat2 + 4 * c ∨ g.fat2 + 4 * (c + k) ≤ x) : g.writeChain m c k x = m x := by
  unfold Layout.writeChain
  rw [setEntry_apply_of_out _ (by omega) (by omega), link_apply_of_out _ _ _ (by omega) (by omega)]

theorem writeChain_mirror (m : Mem) {c k : Nat} (hk : 1 ≤ k) (hc : 4 * (c + k) ≤ g.fatBytes)
    (h : ∀ x, g.fat1 ≤ x → x < g.fat2 → m (x + g.fatBytes) = m x) :
    ∀ x, g.fat1 ≤ x → x < g.fat2 →
      g.writeChain m c k (x + g.fatBytes) = g.writeChain m c k x :=
  setEntry_mirror _ (by omega) (link_mirror _ m c (by omega) h)

theorem writeChain_chain (m : Mem) {c k : Nat} (hk : 1 ≤ k) (hc : 4 * (c + k) ≤ g.fatBytes)
    (hlt : c + k < 2 ^ 32) : ChainAt g (g.writeChain m c k) c k := by
  intro i hi
  unfold Layout.writeChain
  by_cases hlast : i + 1 = k
  · rw [if_pos hlast, show i = k - 1 by omega, entry_setEntry_self _ (by omega) (by omega)]
  · rw [if_neg hlast, entry_setEntry_ne _ (by omega) (by omega),
      entry_link _ _ _ (by omega) (by omega) _ (by omega)]

end LinuxUtil.Fat
