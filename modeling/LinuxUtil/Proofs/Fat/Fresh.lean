/-
What a new volume keeps of the old disk.

`createFAT32` clears the BPB, both tables and the root cluster before it fills them in.
FSInfo it only fills in, field by field, and then copies to sector 7.  `fresh_iff` compares
two runs of it: what was on the disk before shows in the reserved bytes of FSInfo, and
nowhere else.
-/
import LinuxUtil.Proofs.Fat.Geometry

namespace LinuxUtil.Fat

open ByteMem

variable {g : Layout}

/-- Start and length of the structures of a volume, at the offsets `createFAT32` computes: the
BPB and its copy, FSInfo and its copy, the two tables and the root cluster. -/
def FATConfig.structures (config : FATConfig) : List (Nat × Nat) :=
  let sectorSize := config.bytesPerSector
  let fatSize := fatSizeInSector config
  [(0, 512),
   ((sectorSize * 6).toNat, 512),
   ((sectorSize * 1).toNat, 512),
   ((sectorSize * 7).toNat, 512),
   ((sectorSize * numResevedSector).toNat, (sectorSize * fatSize).toNat),
   ((sectorSize * (numResevedSector + fatSize)).toNat, (sectorSize * fatSize).toNat),
   ((sectorSize * (numResevedSector + fatSize * 2)).toNat, (sectorSize * config.clusterSize).toNat)]

/-- The two images agree on every byte of the structures. -/
def FATConfig.SameVolume (config : FATConfig) (m m' : Mem) : Prop :=
  ∀ r ∈ config.structures, read m r.1 r.2 = read m' r.1 r.2

/-- Byte `k` of FSInfo belongs to `reserved` or `reserved1`. -/
def Reserved (k : Nat) : Prop := (4 ≤ k ∧ k < 484) ∨ (496 ≤ k ∧ k < 508)

/-- The structures of a geometry. -/
def Layout.structures (g : Layout) : List (Nat × Nat) :=
  [(0, 512), (6 * g.bps, 512), (g.bps, 512), (7 * g.bps, 512), (g.fat1, g.fatBytes),
   (g.fat2, g.fatBytes), (g.data, g.bpc)]

theorem structures_eq {config : FATConfig} (hg : config.layout.WF) :
    config.structures = config.layout.structures := by
  have h := regions_eq hg
  unfold FATConfig.regions Layout.regions at h
  simp only [List.cons.injEq, Prod.mk.injEq] at h
  unfold FATConfig.structures Layout.structures
  simp only [h]

/-! ### FSInfo -/

/-- The fields of FSInfo leave out its reserved bytes, and only these. -/
theorem fsInfo_covers (free : UInt32) {k : Nat} (hk : k < 512) (hres : ¬ Reserved k) :
    ∃ f ∈ fsInfoFields free, f.off ≤ k ∧ k < f.off + f.bytes.length := by
  unfold Reserved at hres
  rcases (by omega : k < 4 ∨ (484 ≤ k ∧ k < 488) ∨ (488 ≤ k ∧ k < 492) ∨ (492 ≤ k ∧ k < 496)
    ∨ (508 ≤ k ∧ k < 512)) with h | h | h | h | h
  · exact ⟨.int 0 4 0x41615252, by simp [fsInfoFields], Nat.zero_le _, by simpa [Field.int] using h⟩
  · exact ⟨.int 484 4 0x61417272, by simp [fsInfoFields], h.1, by simpa [Field.int] using h.2⟩
  · exact ⟨.int 488 4 free.toNat, by simp [fsInfoFields], h.1, by simpa [Field.int] using h.2⟩
  · exact ⟨.int 492 4 0x3, by simp [fsInfoFields], h.1, by simpa [Field.int] using h.2⟩
  · exact ⟨.int 508 4 0xAA550000, by simp [fsInfoFields], h.1, by simpa [Field.int] using h.2⟩

theorem fsInfo_reserved (free : UInt32) {k : Nat} (hres : Reserved k) :
    ∀ f ∈ fsInfoFields free, k < f.off ∨ f.off + f.bytes.length ≤ k := by
  unfold Reserved at hres
  intro f hf
  simp only [fsInfoFields, List.mem_cons, List.not_mem_nil, or_false] at hf
  rcases hf with rfl | rfl | rfl | rfl | rfl
  all_goals
    simp only [Field.int, length_leBytes]
    omega

section Format

variable {bpb table : List Field} {free : UInt32} (hg : g.WF) (htab : Packed 0 table 12)
include hg htab

theorem format_reserved_kept (hbpb : Packed 0 bpb 512) (buf : Mem) {k : Nat} (hres : Reserved k) :
    g.format buf bpb (fsInfoFields free) table (g.bps + k) = buf (g.bps + k) := by
  have hb := hg.bps_ge
  have hk : k < 508 := by
    unfold Reserved at hres
    omega
  have hout : ∀ f ∈ fsInfoFields free,
      g.bps + k < g.bps + f.off ∨ g.bps + f.off + f.bytes.length ≤ g.bps + k := by
    intro f hf
    have := fsInfo_reserved free hres f hf
    omega
  rw [format_fsInfo hg htab buf (by omega), put_apply_of_out _ _ _ hout,
    copy_apply_of_out _ _ _ _ (by omega), hbpb.put_out _ _ (by omega),
    fill_apply_of_out _ _ _ _ (by omega)]

/-- The bytes the fields cover are the same in every run. -/
theorem format_filled (buf buf' : Mem) {k : Nat} (hk : k < 512) (hres : ¬ Reserved k) :
    g.format buf bpb (fsInfoFields free) table (g.bps + k)
      = g.format buf' bpb (fsInfoFields free) table (g.bps + k) := by
  obtain ⟨f, hf, hlo, hhi⟩ := fsInfo_covers free hk hres
  rw [format_fsInfo hg htab buf hk, format_fsInfo hg htab buf' hk]
  exact put_apply_of_in _ _ _ _ ⟨f, hf, by omega, by omega⟩

/-- FSInfo is the same in two runs if its reserved bytes were. -/
theorem format_fsInfo_same (hbpb : Packed 0 bpb 512) {buf buf' : Mem}
    (hsame : ∀ k, Reserved k → buf (g.bps + k) = buf' (g.bps + k)) {k : Nat} (hk : k < 512) :
    g.format buf bpb (fsInfoFields free) table (g.bps + k)
      = g.format buf' bpb (fsInfoFields free) table (g.bps + k) := by
  by_cases hres : Reserved k
  · rw [format_reserved_kept hg htab hbpb buf hres, format_reserved_kept hg htab hbpb buf' hres,
      hsame k hres]
  · exact format_filled hg htab buf buf' hk hres

/-- All structures are then, as the others do not depend on the disk at all. -/
theorem format_same (hbpb : Packed 0 bpb 512) {buf buf' : Mem}
    (hsame : ∀ k, Reserved k → buf (g.bps + k) = buf' (g.bps + k)) :
    ∀ r ∈ g.structures, ∀ k, k < r.2 →
      g.format buf bpb (fsInfoFields free) table (r.1 + k)
        = g.format buf' bpb (fsInfoFields free) table (r.1 + k) := by
  have hfs := packed_fsInfo free
  have hbpb0 : ∀ {k : Nat}, k < 512 → g.format buf bpb (fsInfoFields free) table k
      = g.format buf' bpb (fsInfoFields free) table k := by
    intro k hk
    rw [format_bpb hg hfs htab buf hk, format_bpb hg hfs htab buf' hk]
    refine put_congr 0 bpb ?_
    rw [fill_apply_of_in _ _ _ _ (Nat.zero_le k) (by omega),
      fill_apply_of_in _ _ _ _ (Nat.zero_le k) (by omega)]
  simp only [Layout.structures, List.mem_cons, List.not_mem_nil, or_false, forall_eq_or_imp,
    forall_eq]
  refine ⟨?_, ?_, ?_, ?_, ?_, ?_, ?_⟩
  · intro k hk
    rw [Nat.zero_add]
    exact hbpb0 hk
  · intro k hk
    rw [format_bpbCopy hg hfs htab buf hk, format_bpbCopy hg hfs htab buf' hk]
    exact hbpb0 hk
  · exact fun k hk => format_fsInfo_same hg htab hbpb hsame hk
  · intro k hk
    rw [format_fsInfoCopy hg htab buf hk, format_fsInfoCopy hg htab buf' hk]
    exact format_fsInfo_same hg htab hbpb hsame hk
  · intro k hk
    rw [format_fat1 htab buf hk, format_fat1 htab buf' hk]
  · intro k hk
    rw [format_fat2 hg htab buf hk, format_fat2 hg htab buf' hk]
  · intro k hk
    rw [format_root buf (by omega) (by omega), format_root buf' (by omega) (by omega)]

end Format

/-! ### Two runs -/

/-- **What was on the disk shows in FSInfo**: two new volumes of one configuration have the same
structures exactly if the two disks had the same bytes where FSInfo has its reserved ones. -/
theorem fresh_iff {buf₁ buf₂ image₁ image₂ : Mem} {config : FATConfig}
    (h₁ : createFAT32 buf₁ config = .ok (0, image₁)) (h₂ : createFAT32 buf₂ config = .ok (0, image₂))
    (hsize : config.nSector.toNat * config.bytesPerSector.toNat ≤ 2 ^ 32) :
    config.SameVolume image₁ image₂ ↔ ∀ k, Reserved k →
      buf₁ (config.bytesPerSector.toNat + k) = buf₂ (config.bytesPerSector.toNat + k) := by
  have hg := (createFAT32_image h₁ hsize).1
  obtain ⟨rfl, -⟩ := createFAT32_accepts h₁
  obtain ⟨rfl, -⟩ := createFAT32_accepts h₂
  obtain ⟨media, hformat⟩ := formatImage_all hg
  have htab := packed_table media
  have hbpb := packed_bpb config media (UInt32.ofNat config.layout.fatSize) numResevedSector
  unfold FATConfig.SameVolume
  rw [structures_eq hg, hformat buf₁, hformat buf₂]
  constructor
  · intro hsame k hres
    have hk : k < 512 := by
      unfold Reserved at hres
      omega
    have hbyte := read_eq_iff.mp (hsame (config.layout.bps, 512) (by simp [Layout.structures])) k hk
    rw [format_reserved_kept hg htab hbpb buf₁ hres,
      format_reserved_kept hg htab hbpb buf₂ hres] at hbyte
    exact hbyte
  · intro hsame r hr
    exact read_eq_iff.mpr (format_same hg htab hbpb hsame r hr)

theorem fresh_small : smallVolume.SameVolume (formatImage (fun _ => 0) smallVolume)
    (formatImage (fun x => if x < 1024 then 0 else 1) smallVolume) := by
  refine (fresh_iff rfl rfl (by decide)).mpr fun k hk => ?_
  unfold Reserved at hk
  have h512 : smallVolume.bytesPerSector.toNat = 512 := rfl
  rw [if_pos (by omega)]

/-- A disk full of ones leaves a one in FSInfo. -/
theorem fresh_fails :
    ¬ ∀ (buf₁ buf₂ image₁ image₂ : Mem) (config : FATConfig),
      createFAT32 buf₁ config = .ok (0, image₁) → createFAT32 buf₂ config = .ok (0, image₂) →
      config.nSector.toNat * config.bytesPerSector.toNat ≤ 2 ^ 32 →
      config.SameVolume image₁ image₂ := by
  intro h
  have hsame := h (fun _ => 0) (fun _ => 1) _ _ smallVolume rfl rfl (by decide)
  have hbyte := read_eq_iff.mp (hsame (512, 512) (by decide)) 4 (by decide)
  exact absurd hbyte (by decide +kernel)

end LinuxUtil.Fat
