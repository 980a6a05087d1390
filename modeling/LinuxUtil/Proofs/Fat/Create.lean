/-
A freshly formatted volume.

`createFAT32` accepts a configuration, computes the geometry in 32-bit arithmetic
and writes the reserved sectors, the two tables and the root directory.  Here the
geometry is shown to be that of `Layout` whenever the volume has at most `2 ^ 32`
bytes, and the bytes it leaves to be the image of a volume with no file.

`Layout.format` is the writer over unbounded offsets.  Its regions are looked at
one by one: each byte of a region was decided by the last write that covers it, and
the writes after that one lie in other regions.
-/
import LinuxUtil.Proofs.Fat.Image

namespace LinuxUtil.Fat

open ByteMem

theorem toNat_ofNat_lt {n : Nat} (h : n < 2 ^ 32) : (UInt32.ofNat n).toNat = n := by
  rw [UInt32.toNat_ofNat', Nat.mod_eq_of_lt h]

/-! ### The geometry of a configuration -/

/-- The geometry a configuration asks for, over unbounded integers. -/
def FATConfig.layout (config : FATConfig) : Layout where
  bps := config.bytesPerSector.toNat
  spc := config.clusterSize.toNat
  nSector := config.nSector.toNat
  fatSize := (config.nSector.toNat / config.clusterSize.toNat + config.bytesPerSector.toNat / 4 - 1)
    / (config.bytesPerSector.toNat / 4)

theorem mem_of_contains {l : List UInt32} {x : UInt32} (h : l.contains x = true) :
    x.toNat ∈ l.map UInt32.toNat :=
  List.mem_map.mpr ⟨x, by simpa using h, rfl⟩

/-- What the call returning 0 says about the configuration. -/
theorem createFAT32_accepts {buf buf' : Mem} {config : FATConfig}
    (h : createFAT32 buf config = .ok (0, buf')) :
    buf' = formatImage buf config ∧ 16 ≤ config.layout.nSector ∧
      config.layout.bps ∈ [512, 1024, 2048, 4096] ∧
      config.layout.spc ∈ [1, 2, 4, 8, 16, 32, 64, 128] ∧
      2 < config.layout.nSector / config.layout.spc := by
  unfold createFAT32 at h
  by_cases hv : configValid config = true
  · rw [if_pos hv] at h
    by_cases hc : config.nSector / config.clusterSize > 2
    · simp only [assert, hc, decide_true, if_true, bind, Except.bind, pure, Except.pure,
        Except.ok.injEq, Prod.mk.injEq, true_and] at h
      simp only [configValid, Bool.and_eq_true, decide_eq_true_eq] at hv
      obtain ⟨⟨h1, h2⟩, h3⟩ := hv
      refine ⟨h.symm, UInt32.le_iff_toNat_le.mp h1, mem_of_contains h2, mem_of_contains h3, ?_⟩
      have := UInt32.lt_iff_toNat_lt.mp hc
      rwa [UInt32.toNat_div] at this
    · simp [assert, hc, bind, Except.bind] at h
  · rw [if_neg hv] at h
    simp [pure, Except.pure] at h

/-- The tables are a small fraction of the volume, for each of the 32 geometries. -/
theorem layout_room {config : FATConfig} (hs : 16 ≤ config.layout.nSector)
    (hb : config.layout.bps ∈ [512, 1024, 2048, 4096])
    (hc : config.layout.spc ∈ [1, 2, 4, 8, 16, 32, 64, 128])
    (h2 : 2 < config.layout.nSector / config.layout.spc) :
    config.layout.dataSector + config.layout.spc ≤ config.layout.nSector := by
  simp only [Layout.dataSector, FATConfig.layout] at *
  simp only [List.mem_cons, List.not_mem_nil, or_false] at hb hc
  rcases hb with hb | hb | hb | hb <;>
    rcases hc with hc | hc | hc | hc | hc | hc | hc | hc <;>
    rw [hb, hc] <;> rw [hc] at h2 <;> omega

/-- An accepted volume is well formed if its data region starts below `2 ^ 32`. -/
theorem layout_wf {config : FATConfig} (hs : 16 ≤ config.layout.nSector)
    (hb : config.layout.bps ∈ [512, 1024, 2048, 4096])
    (hc : config.layout.spc ∈ [1, 2, 4, 8, 16, 32, 64, 128])
    (h2 : 2 < config.layout.nSector / config.layout.spc)
    (hlow : config.layout.data < 2 ^ 32) : config.layout.WF := by
  refine ⟨hb, hc, hs, layout_room hs hb hc h2, ?_, h2, config.nSector.toNat_lt, hlow⟩
  simp only [Layout.fatBytes, FATConfig.layout] at *
  simp only [List.mem_cons, List.not_mem_nil, or_false] at hb
  rcases hb with hb | hb | hb | hb <;> rw [hb] <;> omega

/-- The data region of a volume of at most `2 ^ 32` bytes does. -/
theorem layout_low {config : FATConfig} (hs : 16 ≤ config.layout.nSector)
    (hb : config.layout.bps ∈ [512, 1024, 2048, 4096])
    (hc : config.layout.spc ∈ [1, 2, 4, 8, 16, 32, 64, 128])
    (h2 : 2 < config.layout.nSector / config.layout.spc)
    (hsize : config.layout.nSector * config.layout.bps ≤ 2 ^ 32) : config.layout.data < 2 ^ 32 := by
  have hroom := layout_room hs hb hc h2
  have hlt : config.layout.dataSector < config.layout.nSector := by
    simp only [List.mem_cons, List.not_mem_nil, or_false] at hc
    omega
  rw [config.layout.data_eq]
  refine Nat.lt_of_lt_of_le (Nat.mul_lt_mul_of_pos_right hlt ?_) hsize
  simp only [List.mem_cons, List.not_mem_nil, or_false] at hb
  omega

section Fits

variable {config : FATConfig} (hg : config.layout.WF)
include hg

theorem fatSizeInSector_eq : fatSizeInSector config = UInt32.ofNat config.layout.fatSize := by
  have hb := hg.bps_le
  have h512 := hg.bps_ge
  have hcl : config.layout.nSector / config.layout.spc < 2 ^ 30 := by
    have := hg.entries
    have := hg.fatBytes_lt
    omega
  apply UInt32.toNat.inj
  unfold fatSizeInSector cdiv
  simp only [FATConfig.layout] at *
  rw [UInt32.toNat_div, UInt32.toNat_sub, UInt32.toNat_add, UInt32.toNat_div, UInt32.toNat_div,
    UInt32.toNat_ofNat']
  have h4 : (4 : UInt32).toNat = 4 := rfl
  have h1 : (1 : UInt32).toNat = 1 := rfl
  rw [h4, h1]
  generalize config.nSector.toNat / config.clusterSize.toNat = a at *
  generalize config.bytesPerSector.toNat = b at *
  have hq : (a + b / 4 - 1) / (b / 4) ≤ a + b / 4 - 1 := Nat.div_le_self _ _
  rw [Nat.mod_eq_of_lt (show a + b / 4 < 2 ^ 32 by omega),
    show 2 ^ 32 - 1 + (a + b / 4) = (a + b / 4 - 1) + 2 ^ 32 by omega, Nat.add_mod_right,
    Nat.mod_eq_of_lt (show a + b / 4 - 1 < 2 ^ 32 by omega), Nat.mod_eq_of_lt (by omega)]

/-- The offsets of `createFAT32` do not wrap. -/
theorem toNat_sectors {k : Nat} (hk : k ≤ config.layout.dataSector) :
    (config.bytesPerSector * UInt32.ofNat k).toNat = k * config.layout.bps := by
  have hle : k * config.layout.bps ≤ config.layout.data := by
    rw [config.layout.data_eq]
    exact Nat.mul_le_mul_right _ hk
  have hlt := hg.data_lt
  rw [show config.bytesPerSector = UInt32.ofNat config.layout.bps from UInt32.ofNat_toNat.symm,
    ← UInt32.ofNat_mul, toNat_ofNat_lt (by rw [Nat.mul_comm]; omega), Nat.mul_comm]

theorem toNat_fatSectors :
    (config.bytesPerSector * (UInt32.ofNat config.layout.fatSize * 2)).toNat
      = 2 * config.layout.fatBytes := by
  have hle : 2 * config.layout.fatSize ≤ config.layout.dataSector := by
    unfold Layout.dataSector
    omega
  rw [show UInt32.ofNat config.layout.fatSize * 2 = UInt32.ofNat (2 * config.layout.fatSize) by
      rw [Nat.mul_comm, UInt32.ofNat_mul]; rfl, toNat_sectors hg hle]
  unfold Layout.fatBytes
  rw [Nat.mul_assoc]

theorem toNat_fat1 : (config.bytesPerSector * numResevedSector).toNat = config.layout.fat1 :=
  toNat_sectors hg (k := 8) (by unfold Layout.dataSector; omega)

theorem toNat_fat2 : (config.bytesPerSector *
    (numResevedSector + UInt32.ofNat config.layout.fatSize)).toNat = config.layout.fat2 := by
  rw [show numResevedSector + UInt32.ofNat config.layout.fatSize
      = UInt32.ofNat (8 + config.layout.fatSize) by rw [UInt32.ofNat_add]; rfl,
    toNat_sectors hg (by unfold Layout.dataSector; omega), Nat.add_mul]
  rfl

theorem toNat_data : (config.bytesPerSector *
    (numResevedSector + UInt32.ofNat config.layout.fatSize * 2)).toNat = config.layout.data := by
  rw [show numResevedSector + UInt32.ofNat config.layout.fatSize * 2
      = UInt32.ofNat config.layout.dataSector by
        unfold Layout.dataSector
        rw [UInt32.ofNat_add, UInt32.ofNat_mul, UInt32.mul_comm]; rfl,
    toNat_sectors hg (Nat.le_refl _), config.layout.data_eq]

theorem toNat_clusterBytes :
    (config.bytesPerSector * config.clusterSize).toNat = config.layout.bpc := by
  rw [UInt32.toNat_mul, Nat.mul_comm]
  exact Nat.mod_eq_of_lt hg.bpc_lt

theorem toNat_initialFree :
    (UInt32.ofNat config.layout.fatSize * 2 * (config.bytesPerSector / 4) - 3).toNat
      = config.layout.initialFree := by
  have hge := hg.fatBytes_ge
  have hlt := hg.data_lt
  have h4 : config.layout.fatSize * (config.layout.bps / 4) * 4 ≤ config.layout.fatBytes := by
    unfold Layout.fatBytes
    rw [Nat.mul_assoc]
    exact Nat.mul_le_mul_left _ (Nat.div_mul_le_self _ _)
  have hdvd : config.layout.fatBytes = config.layout.fatSize * (config.layout.bps / 4) * 4 := by
    have hb := hg.bps
    simp only [List.mem_cons, List.not_mem_nil, or_false] at hb
    unfold Layout.fatBytes
    rw [Nat.mul_assoc]
    congr 1
    omega
  have hdata : 2 * config.layout.fatBytes ≤ config.layout.data := by
    unfold Layout.data Layout.fat2
    omega
  rw [show config.bytesPerSector / 4 = UInt32.ofNat (config.layout.bps / 4) by
      apply UInt32.toNat.inj
      rw [UInt32.toNat_div, toNat_ofNat_lt (by have := hg.bps_le; omega)]
      rfl,
    show UInt32.ofNat config.layout.fatSize * 2 * UInt32.ofNat (config.layout.bps / 4) - 3
      = UInt32.ofNat config.layout.initialFree by
      unfold Layout.initialFree
      rw [UInt32.ofNat_sub (by rw [Nat.mul_assoc]; omega), UInt32.ofNat_mul, UInt32.ofNat_mul,
        UInt32.mul_comm (UInt32.ofNat 2)]
      rfl]
  refine toNat_ofNat_lt ?_
  unfold Layout.initialFree
  rw [Nat.mul_assoc]
  omega

end Fits

/-! ### The writer over unbounded offsets -/

/-- `formatImage` with the offsets of the geometry. -/
def Layout.format (g : Layout) (buf : Mem) (bpb fsInfo table : List Field) : Mem :=
  let m := put (fill buf 0 512 0) 0 bpb
  let m := copy m (6 * g.bps) 0 512
  let m := put m g.bps fsInfo
  let m := copy m (7 * g.bps) g.bps 512
  let m := fill m g.fat1 (2 * g.fatBytes) 0
  let m := put m g.fat1 table
  let m := put m g.fat2 table
  fill m g.data g.bpc 0

theorem formatImage_all {config : FATConfig} (hg : config.layout.WF) :
    ∃ media, ∀ buf, formatImage buf config = config.layout.format buf
      (bpbFields config media (UInt32.ofNat config.layout.fatSize) numResevedSector)
      (fsInfoFields (UInt32.ofNat config.layout.initialFree)) (tableFields media) := by
  have hds : 8 ≤ config.layout.dataSector := by unfold Layout.dataSector; omega
  refine ⟨if config.isFixed then 0xF8 else 0xF0, fun buf => ?_⟩
  unfold formatImage Layout.format
  have h6 : (config.bytesPerSector * 6).toNat = 6 * config.layout.bps :=
    toNat_sectors hg (k := 6) (by omega)
  have h1 : (config.bytesPerSector * 1).toNat = config.layout.bps := by
    rw [show (1 : UInt32) = UInt32.ofNat 1 from rfl, toNat_sectors hg (by omega), Nat.one_mul]
  have h7 : (config.bytesPerSector * 7).toNat = 7 * config.layout.bps :=
    toNat_sectors hg (k := 7) (by omega)
  have hfree : UInt32.ofNat config.layout.fatSize * 2 * (config.bytesPerSector / 4) - 3
      = UInt32.ofNat config.layout.initialFree :=
    by rw [← toNat_initialFree hg, UInt32.ofNat_toNat]
  simp only [fatSizeInSector_eq hg, h6, h1, h7, toNat_fat1 hg, toNat_fat2 hg, toNat_data hg, hfree,
    toNat_fatSectors hg, toNat_clusterBytes hg]

theorem formatImage_eq (buf : Mem) {config : FATConfig} (hg : config.layout.WF) :
    ∃ media, formatImage buf config = config.layout.format buf
      (bpbFields config media (UInt32.ofNat config.layout.fatSize) numResevedSector)
      (fsInfoFields (UInt32.ofNat config.layout.initialFree)) (tableFields media) := by
  obtain ⟨media, hall⟩ := formatImage_all hg
  exact ⟨media, hall buf⟩

/-! ### Region by region -/

section Regions

variable {g : Layout} (hg : g.WF) {bpb fsInfo table : List Field}
variable (hfs : Packed 0 fsInfo 512) (htab : Packed 0 table 12)
include htab

/-- What comes after the reserved sectors does not touch them. -/
theorem format_reserved (buf : Mem) {x : Nat} (hx : x < g.fat1) :
    g.format buf bpb fsInfo table x
      = copy (put (copy (put (fill buf 0 512 0) 0 bpb) (6 * g.bps) 0 512) g.bps fsInfo)
          (7 * g.bps) g.bps 512 x := by
  unfold Layout.format
  rw [fill_apply_of_out _ _ _ _ (Or.inl (by unfold Layout.data Layout.fat2; omega)),
    htab.put_out _ _ (Or.inl (by unfold Layout.fat2; omega)),
    htab.put_out _ _ (Or.inl (by omega)), fill_apply_of_out _ _ _ _ (Or.inl hx)]

theorem format_fat1 (buf : Mem) {x : Nat} (hx : x < g.fatBytes) :
    g.format buf bpb fsInfo table (g.fat1 + x) = put (fun _ => 0) 0 table (0 + x) := by
  unfold Layout.format
  rw [fill_apply_of_out _ _ _ _ (Or.inl (by unfold Layout.data Layout.fat2; omega)),
    htab.put_out _ _ (Or.inl (by unfold Layout.fat2; omega))]
  exact put_shift _ _ _ _ _ (fill_apply_of_in _ _ _ _ (by omega) (by omega))

theorem load_format_fat1 (buf : Mem) {off w v : Nat} (hw : off + w ≤ g.fatBytes)
    (hmem : Field.int off w v ∈ table) (hv : v < 256 ^ w) :
    load (g.format buf bpb fsInfo table) (g.fat1 + off) w = v := by
  unfold Layout.format
  rw [load_congr fun x h1 h2 => by
      rw [fill_apply_of_out _ _ _ _ (Or.inl (by unfold Layout.data Layout.fat2; omega)),
        htab.put_out _ _ (Or.inl (by unfold Layout.fat2; omega))],
    load_put _ _ _ htab.apart hmem, Nat.mod_eq_of_lt hv]

include hg

theorem format_fsInfo (buf : Mem) {x : Nat} (hx : x < 512) :
    g.format buf bpb fsInfo table (g.bps + x)
      = put (copy (put (fill buf 0 512 0) 0 bpb) (6 * g.bps) 0 512) g.bps fsInfo (g.bps + x) := by
  have := hg.bps_ge
  rw [format_reserved htab buf (by unfold Layout.fat1; omega),
    copy_apply_of_out _ _ _ _ (Or.inl (by omega))]

theorem format_fsInfoCopy (buf : Mem) {x : Nat} (hx : x < 512) :
    g.format buf bpb fsInfo table (7 * g.bps + x)
      = g.format buf bpb fsInfo table (g.bps + x) := by
  have := hg.bps_ge
  rw [format_fsInfo hg htab buf hx, format_reserved htab buf (by unfold Layout.fat1; omega),
    copy_apply_of_in _ _ _ _ hx]

include hfs

theorem format_bpb (buf : Mem) {x : Nat} (hx : x < 512) :
    g.format buf bpb fsInfo table x = put (fill buf 0 512 0) 0 bpb x := by
  have := hg.bps_ge
  rw [format_reserved htab buf (by unfold Layout.fat1; omega),
    copy_apply_of_out _ _ _ _ (Or.inl (by omega)), hfs.put_out _ _ (Or.inl (by omega)),
    copy_apply_of_out _ _ _ _ (Or.inl (by omega))]

theorem format_bpbCopy (buf : Mem) {x : Nat} (hx : x < 512) :
    g.format buf bpb fsInfo table (6 * g.bps + x) = g.format buf bpb fsInfo table x := by
  have := hg.bps_ge
  rw [format_bpb hg hfs htab buf hx, format_reserved htab buf (by unfold Layout.fat1; omega),
    copy_apply_of_out _ _ _ _ (Or.inl (by omega)), hfs.put_out _ _ (Or.inr (by omega)),
    copy_apply_of_in _ _ _ _ hx, Nat.zero_add]

theorem load_format_fsInfo (buf : Mem) {off w v : Nat} (hw : off + w ≤ 512)
    (hmem : Field.int off w v ∈ fsInfo) (hv : v < 256 ^ w) :
    load (g.format buf bpb fsInfo table) (g.bps + off) w = v := by
  rw [load_congr fun x h1 h2 => by
      rw [show x = g.bps + (x - g.bps) by omega, format_fsInfo hg htab buf (by omega)],
    load_put _ _ _ hfs.apart hmem, Nat.mod_eq_of_lt hv]

omit hfs

theorem format_fat2 (buf : Mem) {x : Nat} (hx : x < g.fatBytes) :
    g.format buf bpb fsInfo table (g.fat2 + x) = put (fun _ => 0) 0 table (0 + x) := by
  have := hg.fatBytes_ge
  unfold Layout.format
  rw [fill_apply_of_out _ _ _ _ (Or.inl (by unfold Layout.data; omega))]
  refine put_shift _ _ _ _ _ ?_
  rw [htab.put_out _ _ (Or.inr (by unfold Layout.fat2; omega))]
  exact fill_apply_of_in _ _ _ _ (by unfold Layout.fat2; omega) (by unfold Layout.fat2; omega)

omit hg htab in
theorem format_root (buf : Mem) {x : Nat} (h1 : g.data ≤ x) (h2 : x < g.data + g.bpc) :
    g.format buf bpb fsInfo table x = 0 := by
  unfold Layout.format
  exact fill_apply_of_in _ _ _ _ h1 h2

end Regions

/-! ### The image of an empty volume -/

theorem packed_bpb (config : FATConfig) (media : UInt8) (a b : UInt32) :
    Packed 0 (bpbFields config media a b) 512 := by
  simp [Packed, bpbFields, Field.int, ascii]

theorem packed_fsInfo (a : UInt32) : Packed 0 (fsInfoFields a) 512 := by
  simp [Packed, fsInfoFields, Field.int]

theorem packed_table (media : UInt8) : Packed 0 (tableFields media) 12 := by
  simp [Packed, tableFields, Field.int]

/-- The integer fields of the BPB read back as stored. -/
theorem load_bpb (m : Mem) (config : FATConfig) (media : UInt8) (a b : UInt32) (i : Nat)
    {off w v : Nat} (hf : (bpbFields config media a b)[i]? = some (Field.int off w v))
    (hv : v < 256 ^ w) : load (put m 0 (bpbFields config media a b)) off w = v := by
  have := load_put m 0 _ (packed_bpb config media a b).apart (List.mem_of_getElem? hf)
  rwa [Nat.zero_add, Nat.mod_eq_of_lt hv] at this

theorem header_put_of (m : Mem) {config : FATConfig} (hb : config.layout.bps < 65536)
    (hc : config.layout.spc < 256) (media : UInt8) {fatSize : UInt32}
    (hf : fatSize.toNat = config.layout.fatSize) :
    Header config.layout (put m 0 (bpbFields config media fatSize numResevedSector)) := by
  refine ⟨?_, ?_, ?_, ?_, ?_, ?_, ?_⟩
  · exact load_bpb _ _ _ _ _ 2 rfl hb
  · exact load_bpb _ _ _ _ _ 3 rfl hc
  · exact load_bpb _ _ _ _ _ 4 rfl (by decide)
  · exact load_bpb _ _ _ _ _ 5 rfl (by omega)
  · exact load_bpb _ _ _ _ _ 12 rfl (UInt32.toNat_lt _)
  · rw [load_bpb _ _ _ _ _ 13 rfl (UInt32.toNat_lt _), hf]
  · exact load_bpb _ _ _ _ _ 16 rfl (by omega)

theorem header_put (m : Mem) {config : FATConfig} (hg : config.layout.WF) (media : UInt8) :
    Header config.layout (put m 0
      (bpbFields config media (UInt32.ofNat config.layout.fatSize) numResevedSector)) := by
  have hf := hg.fatSize_lt
  exact header_put_of m (Nat.lt_of_le_of_lt hg.bps_le (by omega))
    (Nat.lt_of_le_of_lt hg.spc_le (by omega)) media (toNat_ofNat_lt (by omega))

/-- **`createFAT32` leaves the image of a volume with no file.** -/
theorem createFAT32_image_of_low {buf buf' : Mem} {config : FATConfig}
    (h : createFAT32 buf config = .ok (0, buf')) (hlow : config.layout.data < 2 ^ 32) :
    config.layout.WF ∧ Image config.layout buf' [] := by
  obtain ⟨rfl, hs, hb, hc, h2⟩ := createFAT32_accepts h
  have hg : config.layout.WF := layout_wf hs hb hc h2 hlow
  refine ⟨hg, ?_⟩
  obtain ⟨media, heq⟩ := formatImage_eq buf hg
  rw [heq]
  have hfs := packed_fsInfo (UInt32.ofNat config.layout.initialFree)
  have htab := packed_table media
  set g := config.layout with hgdef
  set bpb := bpbFields config media (UInt32.ofNat g.fatSize) numResevedSector
  set m := g.format buf bpb (fsInfoFields (UInt32.ofNat g.initialFree)) (tableFields media)
  have hfree : g.initialFree < 2 ^ 32 := by
    rw [← toNat_initialFree hg]
    exact UInt32.toNat_lt _
  have hge := hg.fatBytes_ge
  have htable : ∀ x, g.fat1 ≤ x → x < g.fat2 →
      m x = put (fun _ => 0) 0 (tableFields media) (0 + (x - g.fat1)) := by
    intro x h1 h2
    have hx : x - g.fat1 < g.fatBytes := by unfold Layout.fat2 at h2; omega
    have : m (g.fat1 + (x - g.fat1))
        = put (fun _ => 0) 0 (tableFields media) (0 + (x - g.fat1)) := format_fat1 htab buf hx
    rwa [show g.fat1 + (x - g.fat1) = x by omega] at this
  refine ⟨?_, ?_, ?_, by simp, by simp, ?_, by simp, ?_, ?_, by simp, ?_, by simp, ?_, ?_⟩
  · exact (header_put _ hg media).congr fun x hx => format_bpb hg hfs htab buf hx
  · exact load_format_fsInfo hg hfs htab buf (v := 3) (by omega) (by simp [fsInfoFields]) (by omega)
  · rw [load_format_fsInfo hg hfs htab buf (v := g.initialFree) (by omega) ?_ (by omega)]
    · simp [Layout.charged]
    · simp [fsInfoFields, toNat_ofNat_lt hfree]
  · -- Entry 2 is the third field of the table.
    exact load_format_fat1 htab buf (by omega) (by simp [tableFields, endOfChain])
      (by omega)
  · intro x h1 h2
    have h3 : g.next [] = 3 := by simp [Layout.next, Layout.used]
    rw [h3] at h1
    rw [htable x (by omega) h2]
    exact htab.put_out _ _ (Or.inr (by omega))
  · intro x h1 h2
    rw [htable x h1 h2]
    have : m (g.fat2 + (x - g.fat1))
        = put (fun _ => 0) 0 (tableFields media) (0 + (x - g.fat1)) :=
      format_fat2 hg htab buf (by unfold Layout.fat2 at h2; omega)
    rwa [show g.fat2 + (x - g.fat1) = x + g.fatBytes by unfold Layout.fat2; omega] at this
  · intro x h1 h2
    exact format_root buf (by simpa using h1) h2
  · intro x hx
    exact format_bpbCopy hg hfs htab buf hx
  · intro x hx
    exact format_fsInfoCopy hg htab buf hx

theorem createFAT32_low {buf buf' : Mem} {config : FATConfig}
    (h : createFAT32 buf config = .ok (0, buf'))
    (hsize : config.nSector.toNat * config.bytesPerSector.toNat ≤ 2 ^ 32) :
    config.layout.data < 2 ^ 32 := by
  obtain ⟨-, hs, hb, hc, h2⟩ := createFAT32_accepts h
  exact layout_low hs hb hc h2 hsize

theorem createFAT32_image {buf buf' : Mem} {config : FATConfig}
    (h : createFAT32 buf config = .ok (0, buf'))
    (hsize : config.nSector.toNat * config.bytesPerSector.toNat ≤ 2 ^ 32) :
    config.layout.WF ∧ Image config.layout buf' [] :=
  createFAT32_image_of_low h (createFAT32_low h hsize)

end LinuxUtil.Fat
