/-
Where `createFAT32` puts things.

A volume of at most `2 ^ 32` bytes is laid out as `Layout` says: `createFAT32_layout` has
its regions one behind the other inside the volume, nothing written elsewhere, and the
super block found where it was put.  The size of a table is taken from the clusters of the
whole volume, and `covered_iff` says when that leaves an entry for every data cluster.
`noWrap_iff` is the bound itself: the 32-bit offsets are the right ones up to `2 ^ 32`
bytes, and on any larger volume the last sector is found at a wrapped one.
-/
import LinuxUtil.Proofs.Fat.FreeCount

namespace LinuxUtil.Fat

open ByteMem

variable {g : Layout} {m : Mem}

/-! ### Regions -/

/-- Start and length of the regions of a volume, at the offsets `createFAT32` computes: the
sectors of the BPB, of FSInfo and of their backups, the two tables and the root cluster. -/
def FATConfig.regions (config : FATConfig) : List (Nat × Nat) :=
  let sectorSize := config.bytesPerSector
  let fatSize := fatSizeInSector config
  [(0, sectorSize.toNat),
   ((sectorSize * 1).toNat, sectorSize.toNat),
   ((sectorSize * 6).toNat, sectorSize.toNat),
   ((sectorSize * 7).toNat, sectorSize.toNat),
   ((sectorSize * numResevedSector).toNat, (sectorSize * fatSize).toNat),
   ((sectorSize * (numResevedSector + fatSize)).toNat, (sectorSize * fatSize).toNat),
   ((sectorSize * (numResevedSector + fatSize * 2)).toNat, (sectorSize * config.clusterSize).toNat)]

/-- The regions of a geometry. -/
def Layout.regions (g : Layout) : List (Nat × Nat) :=
  [(0, g.bps), (g.bps, g.bps), (6 * g.bps, g.bps), (7 * g.bps, g.bps), (g.fat1, g.fatBytes),
   (g.fat2, g.fatBytes), (g.data, g.bpc)]

/-- The super block has the geometry that was laid out, and an empty root directory of one
cluster. -/
structure FATConfig.Recovered (config : FATConfig) (sb : FAT32Super) : Prop where
  fsInfo : sb.fsInfo = some config.bytesPerSector.toNat
  bytesPerSector : sb.bytesPerSector = config.bytesPerSector
  bytesPerCluster :
    sb.bytesPerCluster.toNat = config.clusterSize.toNat * config.bytesPerSector.toNat
  bytesPerFAT :
    sb.bytesPerFAT.toNat = (fatSizeInSector config).toNat * config.bytesPerSector.toNat
  numSector : sb.numSector = config.nSector
  numData : sb.maxCluster.toNat = config.numDataCluster
  tables : sb.tables = [(config.bytesPerSector * numResevedSector).toNat,
    (config.bytesPerSector * (numResevedSector + fatSizeInSector config)).toNat]
  rootDir : sb.rootDir = some
    (config.bytesPerSector * (numResevedSector + fatSizeInSector config * 2)).toNat
  rootCluster : sb.rootCluster = 2
  numRootEntry :
    sb.numRootEntry.toNat = config.clusterSize.toNat * config.bytesPerSector.toNat / 32
  nextRootEntry : sb.nextRootEntry = 0

section Regions

theorem regions_eq {config : FATConfig} (hg : config.layout.WF) :
    config.regions = config.layout.regions := by
  have h1 : (config.bytesPerSector * 1).toNat = config.layout.bps := by
    rw [UInt32.mul_one]
    rfl
  have h6 : (config.bytesPerSector * 6).toNat = 6 * config.layout.bps :=
    toNat_sectors hg (k := 6) (by unfold Layout.dataSector; omega)
  have h7 : (config.bytesPerSector * 7).toNat = 7 * config.layout.bps :=
    toNat_sectors hg (k := 7) (by unfold Layout.dataSector; omega)
  have hlen : (config.bytesPerSector * UInt32.ofNat config.layout.fatSize).toNat
      = config.layout.fatBytes :=
    toNat_sectors hg (by unfold Layout.dataSector; omega)
  unfold FATConfig.regions Layout.regions
  simp only [fatSizeInSector_eq hg, h1, h6, h7, hlen, toNat_fat1 hg, toNat_fat2 hg, toNat_data hg,
    toNat_clusterBytes hg]
  rfl

theorem regions_apart (g : Layout) : g.regions.Pairwise fun r s => r.1 + r.2 ≤ s.1 := by
  have h1 : g.fat1 = 8 * g.bps := rfl
  have h2 : g.fat2 = g.fat1 + g.fatBytes := rfl
  have h3 : g.data = g.fat2 + g.fatBytes := rfl
  simp only [Layout.regions, List.pairwise_cons, List.mem_cons, List.not_mem_nil, or_false,
    forall_eq_or_imp, forall_eq, List.Pairwise.nil, and_true, false_imp_iff, implies_true]
  omega

theorem regions_inside (hg : g.WF) : ∀ r ∈ g.regions, r.1 + r.2 ≤ g.nSector * g.bps := by
  have h1 : g.fat1 = 8 * g.bps := rfl
  have h2 : g.fat2 = g.fat1 + g.fatBytes := rfl
  have h3 : g.data = g.fat2 + g.fatBytes := rfl
  have h4 := hg.root_fit
  simp only [Layout.regions, List.mem_cons, List.not_mem_nil, or_false, forall_eq_or_imp, forall_eq]
  omega

/-- A write of `createFAT32` lies in one of the regions. -/
theorem format_apply_of_out (hg : g.WF) {bpb fsInfo table : List Field} (hbpb : Packed 0 bpb 512)
    (hfs : Packed 0 fsInfo 512) (htab : Packed 0 table 12) (buf : Mem) {x : Nat}
    (hx : ∀ r ∈ g.regions, x < r.1 ∨ r.1 + r.2 ≤ x) : g.format buf bpb fsInfo table x = buf x := by
  have hb := hg.bps_ge
  have hf := hg.fatBytes_ge
  have h2 : g.fat2 = g.fat1 + g.fatBytes := rfl
  simp only [Layout.regions, List.mem_cons, List.not_mem_nil, or_false, forall_eq_or_imp,
    forall_eq] at hx
  obtain ⟨h0, h1, h6, h7, ht1, ht2, hd⟩ := hx
  unfold Layout.format
  rw [fill_apply_of_out _ _ _ _ hd, htab.put_out _ _ (by omega), htab.put_out _ _ (by omega),
    fill_apply_of_out _ _ _ _ (by omega), copy_apply_of_out _ _ _ _ (by omega),
    hfs.put_out _ _ (by omega), copy_apply_of_out _ _ _ _ (by omega), hbpb.put_out _ _ (by omega),
    fill_apply_of_out _ _ _ _ (by omega)]

theorem recovered (config : FATConfig) (hg : config.layout.WF) :
    config.Recovered (config.layout.super 0) := by
  have hbpc := hg.bpc_lt
  have hmax := hg.maxCluster_lt
  refine ⟨rfl, UInt32.ofNat_toNat, toNat_ofNat_lt hbpc, ?_, UInt32.ofNat_toNat, ?_, ?_, ?_, rfl,
    toNat_ofNat_lt (by omega), rfl⟩
  · rw [fatSizeInSector_toNat hg]
    exact toNat_ofNat_lt hg.fatBytes_lt
  · rw [numDataCluster_eq hg]
    exact toNat_ofNat_lt (by omega)
  · rw [fatSizeInSector_eq hg, toNat_fat1 hg, toNat_fat2 hg]
    rfl
  · rw [fatSizeInSector_eq hg, toNat_data hg]
    rfl

end Regions

/-- **A volume is laid out in disjoint regions**: they lie one behind the other inside the
volume, every byte that is written is in one of them, and `FAT32SuperInit` finds them there. -/
theorem createFAT32_layout {buf image : Mem} {config : FATConfig}
    (hc : createFAT32 buf config = .ok (0, image))
    (hsize : config.nSector.toNat * config.bytesPerSector.toNat ≤ 2 ^ 32) :
    (config.regions.Pairwise fun r s => r.1 + r.2 ≤ s.1)
      ∧ (∀ r ∈ config.regions, r.1 + r.2 ≤ config.nSector.toNat * config.bytesPerSector.toNat)
      ∧ (∀ x, (∀ r ∈ config.regions, x < r.1 ∨ r.1 + r.2 ≤ x) → image x = buf x)
      ∧ (∀ x, config.nSector.toNat * config.bytesPerSector.toNat ≤ x → image x = buf x)
      ∧ ∃ sb, FAT32SuperInit image = .ok sb ∧ config.Recovered sb := by
  obtain ⟨hg, himg⟩ := createFAT32_image hc hsize
  obtain ⟨rfl, -⟩ := createFAT32_accepts hc
  obtain ⟨media, hformat⟩ := formatImage_eq buf hg
  have hkeep : ∀ x, (∀ r ∈ config.layout.regions, x < r.1 ∨ r.1 + r.2 ≤ x) →
      formatImage buf config x = buf x := by
    intro x hx
    rw [hformat]
    exact format_apply_of_out hg (packed_bpb _ _ _ _) (packed_fsInfo _) (packed_table _) buf hx
  rw [regions_eq hg]
  refine ⟨regions_apart _, regions_inside hg, hkeep, fun x hx => hkeep x fun r hr => ?_, ?_⟩
  · exact Or.inr (Nat.le_trans (regions_inside hg r hr) hx)
  · exact ⟨_, superInit_eq hg himg, recovered config hg⟩

theorem createFAT32_layout_small :
    smallVolume.regions = [(0, 512), (512, 512), (3072, 512), (3584, 512), (4096, 512), (4608, 512),
        (5120, 512)]
      ∧ ∃ sb, FAT32SuperInit (formatImage (fun _ => 0) smallVolume) = .ok sb
        ∧ smallVolume.Recovered sb :=
  ⟨by decide, (createFAT32_layout (show createFAT32 (fun _ => 0) smallVolume = .ok (0, _) from rfl)
    (by decide)).2.2.2.2⟩

/-! ### One entry for every cluster -/

section Rounding

/-- `CDIV` of a number at most `d` short of a multiple is the quotient of that multiple. -/
theorem ceil_eq_of_dvd {n e d : Nat} (hd : d < e) (h : e ∣ n + d) : (n + e - 1) / e = (n + d) / e := by
  obtain ⟨q, hq⟩ := h
  rw [hq, Nat.mul_div_cancel_left _ (Nat.zero_lt_of_lt hd)]
  refine Nat.div_eq_of_lt_le ?_ ?_
  · rw [Nat.mul_comm]
    omega
  · rw [Nat.add_mul, Nat.mul_comm]
    omega

/-- `CDIV` rounds up to a multiple, by less than a divisor. -/
theorem ceil_mul {n e : Nat} (he : 0 < e) :
    n ≤ (n + e - 1) / e * e ∧ (n + e - 1) / e * e < n + e := by
  have h1 := Nat.div_add_mod (n + e - 1) e
  have h2 := Nat.mod_lt (n + e - 1) he
  rw [Nat.mul_comm e] at h1
  omega

/-- The clusters `t` sectors take away, against the entries that are left over.  `x` entries
are enough if two are spare, if one is and a cluster is lost, or if two clusters are lost. -/
theorem enough_iff {n s t x : Nat} (hs : 0 < s) (ht : t ≤ n) (hn : 0 < n / s) (hx : n / s ≤ x) :
    2 + (n - t) / s ≤ x ↔
      n / s + 2 ≤ x ∨ (x = n / s + 1 ∧ n % s < t) ∨ (x = n / s ∧ n % s + s < t) := by
  have hdiv := Nat.div_add_mod n s
  have hle : (n - t) / s ≤ n / s := Nat.div_le_div_right (Nat.sub_le _ _)
  rcases (by omega : n / s + 2 ≤ x ∨ x = n / s + 1 ∨ x = n / s) with h | h | h
  · exact ⟨fun _ => Or.inl h, fun _ => by omega⟩
  · have hlost : (n - t) / s < n / s ↔ n % s < t := by
      rw [Nat.div_lt_iff_lt_mul hs, Nat.mul_comm]
      omega
    rw [h]
    omega
  · have hlost : (n - t) / s < n / s - 1 ↔ n % s + s < t := by
      have hmul : s * (n / s - 1) + s = s * (n / s) := by
        rw [← Nat.mul_succ]
        congr 1
        omega
      rw [Nat.div_lt_iff_lt_mul hs, Nat.mul_comm]
      omega
    rw [h]
    omega

end Rounding

/-- Entries of one table. -/
def FATConfig.numTableEntry (config : FATConfig) : Nat :=
  (fatSizeInSector config).toNat * config.bytesPerSector.toNat / 4

/-- Every data cluster has its own entry in the first table, behind the two reserved ones. -/
structure FATConfig.Covered (config : FATConfig) : Prop where
  size : 2 + config.numDataCluster ≤ config.numTableEntry
  entry : ∀ c, 2 ≤ c → c ≤ config.numDataCluster + 1 → c < config.numTableEntry

/-- The table has an entry for each cluster of the whole volume, and the two reserved ones have
to be spare.  They are unless the table is full, or full but for one entry, and the reserved
sectors and the tables take fewer clusters away than are missing. -/
def FATConfig.Spare (config : FATConfig) : Prop :=
  let perSector := config.bytesPerSector.toNat / 4
  let clusters := config.nSector.toNat / config.clusterSize.toNat
  let rest := config.nSector.toNat % config.clusterSize.toNat
  ¬ (perSector ∣ clusters ∧ 8 + 2 * (clusters / perSector) ≤ rest + config.clusterSize.toNat)
    ∧ ¬ (perSector ∣ clusters + 1 ∧ 8 + 2 * ((clusters + 1) / perSector) ≤ rest)

instance (config : FATConfig) : Decidable config.Spare :=
  inferInstanceAs (Decidable (¬ _ ∧ ¬ _))

section Covered

variable {config : FATConfig}

theorem numTableEntry_eq (hg : config.layout.WF) :
    config.numTableEntry = config.layout.fatSize * (config.layout.bps / 4) := by
  have hb := hg.bps
  simp only [List.mem_cons, List.not_mem_nil, or_false] at hb
  unfold FATConfig.numTableEntry
  rw [fatSizeInSector_toNat hg]
  refine Nat.mul_div_assoc _ ?_
  show 4 ∣ config.layout.bps
  omega

theorem covered_spare (hg : config.layout.WF) :
    2 + config.numDataCluster ≤ config.numTableEntry ↔ config.Spare := by
  have hb := hg.bps_ge
  have hroom := hg.room
  have hclusters := hg.clusters
  have hdata : config.numDataCluster
      = (config.layout.nSector - config.layout.dataSector) / config.layout.spc :=
    numDataCluster_eq hg
  have hmul := ceil_mul (n := config.layout.nSector / config.layout.spc)
    (show 0 < config.layout.bps / 4 by omega)
  have hfat : config.layout.fatSize = (config.layout.nSector / config.layout.spc
      + config.layout.bps / 4 - 1) / (config.layout.bps / 4) := rfl
  have hsec : config.layout.dataSector = 8 + 2 * config.layout.fatSize := rfl
  have hspare : config.Spare ↔
      ¬ (config.layout.bps / 4 ∣ config.layout.nSector / config.layout.spc
        ∧ 8 + 2 * (config.layout.nSector / config.layout.spc / (config.layout.bps / 4))
          ≤ config.layout.nSector % config.layout.spc + config.layout.spc)
      ∧ ¬ (config.layout.bps / 4 ∣ config.layout.nSector / config.layout.spc + 1
        ∧ 8 + 2 * ((config.layout.nSector / config.layout.spc + 1) / (config.layout.bps / 4))
          ≤ config.layout.nSector % config.layout.spc) := Iff.rfl
  rw [← hfat] at hmul
  rw [numTableEntry_eq hg, hdata, enough_iff hg.spc_pos (by omega) (by omega) hmul.1, hspare]
  generalize hN : config.layout.nSector / config.layout.spc = N at *
  generalize hE : config.layout.bps / 4 = E at *
  have hfull : config.layout.fatSize * E = N ↔ E ∣ N := by
    refine ⟨fun h => ⟨_, by rw [Nat.mul_comm, h]⟩, fun h => ?_⟩
    rw [hfat, ceil_eq_of_dvd (d := 0) (by omega) h]
    exact Nat.div_mul_cancel h
  have hone : config.layout.fatSize * E = N + 1 ↔ E ∣ N + 1 := by
    refine ⟨fun h => ⟨_, by rw [Nat.mul_comm, h]⟩, fun h => ?_⟩
    rw [hfat, ceil_eq_of_dvd (by omega) h, Nat.div_mul_cancel h]
  by_cases h0 : E ∣ N
  · have hf : config.layout.fatSize = N / E := by
      rw [hfat]
      exact ceil_eq_of_dvd (d := 0) (by omega) h0
    have h1 : ¬ E ∣ N + 1 := fun h => by
      have := hone.mpr h
      have := hfull.mpr h0
      omega
    have := hfull.mpr h0
    rw [← hf]
    simp only [h0, h1, true_and, false_and, not_false_eq_true, and_true]
    omega
  · by_cases h1 : E ∣ N + 1
    · have hf : config.layout.fatSize = (N + 1) / E := by
        rw [hfat]
        exact ceil_eq_of_dvd (by omega) h1
      have := hone.mpr h1
      rw [← hf]
      simp only [h0, h1, true_and, false_and, not_false_eq_true]
      omega
    · have := mt hfull.mp h0
      have := mt hone.mp h1
      simp only [h0, h1, false_and, not_false_eq_true, and_true, iff_true]
      omega

end Covered

/-- **When the table is large enough.** -/
theorem covered_iff {buf image : Mem} {config : FATConfig}
    (hc : createFAT32 buf config = .ok (0, image))
    (hsize : config.nSector.toNat * config.bytesPerSector.toNat ≤ 2 ^ 32) :
    config.Covered ↔ config.Spare := by
  rw [← covered_spare (createFAT32_image hc hsize).1]
  exact ⟨fun h => h.size, fun h => ⟨h, fun c _ hlast => by omega⟩⟩

theorem covered_small : smallVolume.Covered :=
  (covered_iff (show createFAT32 (fun _ => 0) smallVolume = .ok (0, _) from rfl) (by decide)).mpr
    (by decide)

/-- 1026 sectors in clusters of 8: the table has 128 entries, and 128 is a data cluster. -/
def fullTable : FATConfig := ⟨1026, 512, 8, false, true⟩

theorem covered_fails :
    ¬ ∀ (buf image : Mem) (config : FATConfig), createFAT32 buf config = .ok (0, image) →
      config.nSector.toNat * config.bytesPerSector.toNat ≤ 2 ^ 32 → config.Covered := by
  intro h
  have hcov := h (fun _ => 0) _ fullTable rfl (by decide)
  exact absurd hcov.size (by decide)

/-! ### Offsets -/

/-- What `createFAT32` computes is what its expressions give over unbounded integers. -/
structure FATConfig.CreateExact (config : FATConfig) : Prop where
  fatSize : (fatSizeInSector config).toNat = config.layout.fatSize
  numFAT : (fatSizeInSector config * 2).toNat = 2 * config.layout.fatSize
  first : (config.bytesPerSector * numResevedSector).toNat = config.layout.fat1
  tables : (config.bytesPerSector * (fatSizeInSector config * 2)).toNat = 2 * config.layout.fatBytes
  second : (config.bytesPerSector * (numResevedSector + fatSizeInSector config)).toNat
    = config.layout.fat2
  root : (config.bytesPerSector * (numResevedSector + fatSizeInSector config * 2)).toNat
    = config.layout.data
  rootLen : (config.bytesPerSector * config.clusterSize).toNat = config.layout.bpc

/-- So is what the super block `sb` of `image` is used to compute. -/
structure FATConfig.SuperExact (config : FATConfig) (image : Mem) (sb : FAT32Super) : Prop where
  bytesPerFAT : sb.bytesPerFAT.toNat = config.layout.fatBytes
  sector : ∀ s, s < sb.numSector →
    FAT32SuperGetSector sb.numSector sb.bytesPerSector s = some (s.toNat * config.layout.bps)
  cluster : ∀ c p, FAT32SuperCluster sb c = some p → p = config.layout.cluster c.toNat
  maxFileSize : ∀ fiPtr nextFree, sb.fsInfo = some fiPtr → nextFree = load32 image (fiPtr + 492) 4 →
    sb.maxCluster ≥ nextFree → (sb.bytesPerCluster * (sb.maxCluster - nextFree)).toNat
      = config.layout.bpc * (config.layout.maxCluster - nextFree.toNat)

/-- No offset or length wraps. -/
structure FATConfig.NoWrap (config : FATConfig) (image : Mem) : Prop where
  create : config.CreateExact
  super : ∀ sb, FAT32SuperInit image = .ok sb → config.SuperExact image sb

section Exact

theorem createExact {config : FATConfig} (hg : config.layout.WF) : config.CreateExact := by
  have hf := hg.fatSize_lt
  have hfat := fatSizeInSector_eq hg
  refine ⟨fatSizeInSector_toNat hg, ?_, toNat_fat1 hg, ?_, ?_, ?_, toNat_clusterBytes hg⟩
  · rw [UInt32.toNat_mul, fatSizeInSector_toNat hg, show (2 : UInt32).toNat = 2 from rfl,
      Nat.mod_eq_of_lt (by omega), Nat.mul_comm]
  · rw [hfat]
    exact toNat_fatSectors hg
  · rw [hfat]
    exact toNat_fat2 hg
  · rw [hfat]
    exact toNat_data hg

/-- A pointer to a cluster is one the super block admits. -/
theorem superCluster_bounds (hg : g.WF) {k : Nat} {c : UInt32} {p : Nat}
    (h : FAT32SuperCluster (g.super k) c = some p) : 2 ≤ c.toNat ∧ c.toNat < g.maxCluster := by
  have hmax := hg.maxCluster_lt
  have hmc : (g.super k).maxCluster = UInt32.ofNat g.maxCluster := rfl
  unfold FAT32SuperCluster at h
  split at h
  · simp at h
  · rename_i hin
    simp only [hmc, Bool.or_eq_true, decide_eq_true_eq, not_or, ge_iff_le, UInt32.le_iff_toNat_le,
      UInt32.lt_iff_toNat_lt, toNat_ofNat_lt (show g.maxCluster < 2 ^ 32 by omega)] at hin
    exact ⟨Nat.not_lt.mp hin.1, Nat.not_le.mp hin.2⟩

theorem superExact {config : FATConfig} (hg : config.layout.WF)
    (hsz : config.layout.nSector * config.layout.bps ≤ 2 ^ 32) (image : Mem) (k : Nat) :
    config.SuperExact image (config.layout.super k) := by
  have hn := hg.nSector_lt
  refine ⟨toNat_ofNat_lt hg.fatBytes_lt, ?_, ?_, ?_⟩
  · intro s hs
    have hlt : s.toNat < config.layout.nSector := by
      have := UInt32.lt_iff_toNat_lt.mp hs
      rwa [show (config.layout.super k).numSector = UInt32.ofNat config.layout.nSector from rfl,
        toNat_ofNat_lt hn] at this
    have hbytes : s.toNat * config.layout.bps < 2 ^ 32 :=
      Nat.lt_of_lt_of_le (Nat.mul_lt_mul_of_pos_right hlt (by have := hg.bps_ge; omega)) hsz
    conv_lhs => rw [← UInt32.ofNat_toNat (x := s)]
    exact getSector_eq hg hlt hbytes
  · intro c p hp
    obtain ⟨h2, hlt⟩ := superCluster_bounds hg hp
    rw [← UInt32.ofNat_toNat (x := c), cluster_pointer hg hsz k h2 hlt] at hp
    exact (Option.some.inj hp).symm
  · intro fiPtr nextFree _ _ hge
    have hle : nextFree.toNat ≤ config.layout.maxCluster := by
      have := UInt32.le_iff_toNat_le.mp hge
      rwa [show (config.layout.super k).maxCluster = UInt32.ofNat config.layout.maxCluster from rfl,
        toNat_ofNat_lt (by have := hg.maxCluster_lt; omega)] at this
    rw [← quota_eq hg hsz]
    exact maxFileSize_eq hle

end Exact

/-- Sector sizes divide `2 ^ 32`, so the last sector of a larger volume is at a wrapped offset. -/
theorem lastSector_bound {config : FATConfig} (hb : config.layout.bps ∈ [512, 1024, 2048, 4096])
    (hlast : (config.layout.nSector - 1) * config.layout.bps < 2 ^ 32) :
    config.layout.nSector * config.layout.bps ≤ 2 ^ 32 := by
  simp only [List.mem_cons, List.not_mem_nil, or_false] at hb
  rcases hb with hb | hb | hb | hb <;> rw [hb] at hlast ⊢ <;> omega

/-- **Offsets are right up to `2 ^ 32` bytes, and not beyond.** -/
theorem noWrap_iff {buf image : Mem} {config : FATConfig}
    (hc : createFAT32 buf config = .ok (0, image)) :
    config.NoWrap image ↔ config.nSector.toNat * config.bytesPerSector.toNat ≤ 2 ^ 32 := by
  constructor
  · -- Where the offsets of `createFAT32` are right there is a super block, and it has a last sector.
    intro h
    obtain ⟨hg, himg⟩ := createFAT32_image_of_low hc (h.create.root ▸ UInt32.toNat_lt _)
    have hs := hg.sectors
    have hn := hg.nSector_lt
    have hlast : (UInt32.ofNat (config.layout.nSector - 1)).toNat = config.layout.nSector - 1 :=
      toNat_ofNat_lt (by omega)
    have hlt : UInt32.ofNat (config.layout.nSector - 1) < UInt32.ofNat config.layout.nSector := by
      rw [UInt32.lt_iff_toNat_lt, hlast, toNat_ofNat_lt hn]
      omega
    have hsec : FAT32SuperGetSector (UInt32.ofNat config.layout.nSector)
        (UInt32.ofNat config.layout.bps) (UInt32.ofNat (config.layout.nSector - 1)) = some _ :=
      (h.super _ (superInit_eq hg himg)).sector _ hlt
    unfold FAT32SuperGetSector at hsec
    rw [if_neg (UInt32.not_le.mpr hlt), hlast] at hsec
    refine lastSector_bound hg.bps ?_
    rw [← Option.some.inj hsec]
    exact UInt32.toNat_lt _
  · intro hsize
    obtain ⟨hg, himg⟩ := createFAT32_image hc hsize
    refine ⟨createExact hg, fun sb hsb => ?_⟩
    rw [superInit_eq hg himg] at hsb
    rw [← Except.ok.inj hsb]
    exact superExact hg hsize image 0

theorem noWrap_small : smallVolume.NoWrap (formatImage (fun _ => 0) smallVolume) :=
  (noWrap_iff (show createFAT32 (fun _ => 0) smallVolume = .ok (0, _) from rfl)).mpr (by decide)

/-- One sector more than `2 ^ 32` bytes. -/
def largeVolume : FATConfig := ⟨8388609, 512, 8, false, true⟩

/-- Its last sector is found at the start of the volume. -/
theorem noWrap_fails :
    ¬ ∀ (buf image : Mem) (config : FATConfig), createFAT32 buf config = .ok (0, image) →
      config.NoWrap image := by
  intro h
  have hexact := h (fun _ => 0) _ largeVolume rfl
  have hnum : (FAT32SuperInit (formatImage (fun _ => 0) largeVolume)).toOption.map
      (fun sb => (sb.numSector, sb.bytesPerSector)) = some (8388609, 512) := by decide +kernel
  cases hinit : FAT32SuperInit (formatImage (fun _ => 0) largeVolume) with
  | error e => simp [hinit, Except.toOption] at hnum
  | ok sb =>
      simp only [hinit, Except.toOption, Option.map_some, Option.some.injEq, Prod.mk.injEq] at hnum
      have hsec := (hexact.super sb hinit).sector 8388608 (by rw [hnum.1]; decide)
      rw [hnum.1, hnum.2] at hsec
      exact absurd hsec (by decide)

end LinuxUtil.Fat
