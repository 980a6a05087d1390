/-
Where the partitions lie, and where the headers say they may.

`generate_places` is the placement as a whole: the longest run of partitions that fits,
one behind the other between the entry array and the two sectors at the end.  The headers
give the sectors a partition may use.  The first of them is taken from the cursor the
placement has moved behind the last partition, so no partition lies in that range:
`usable_never`.
-/
import LinuxUtil.Proofs.Gpt.RoundTrip

namespace LinuxUtil.Gpt

open ByteMem

variable {config : GPTConfig}

/-! ### Placement -/

theorem volumeTo_succ {cps : List PartitionConfig} {i : Nat} {cp : PartitionConfig}
    (h : cps[i]? = some cp) : volumeTo cps (i + 1) = volumeTo cps i + cp.volume.toNat := by
  obtain ⟨hi, rfl⟩ := List.getElem?_eq_some_iff.mp h
  unfold volumeTo
  rw [List.take_succ_eq_append_getElem hi, List.map_append, List.sum_append]
  simp

/-- A partition among the first `k` ends with them. -/
theorem volumeTo_add_le {cps : List PartitionConfig} {i k : Nat} {cp : PartitionConfig} (hi : i < k)
    (hcp : cps[i]? = some cp) : volumeTo cps i + cp.volume.toNat ≤ volumeTo cps k := by
  rw [← volumeTo_succ hcp]
  exact volumeTo_mono cps hi

section Placed

variable {cps placed : List PartitionConfig} {start room k last : Nat}
  (hp : Placed cps start room k last placed)
include hp

/-- No longer run fits. -/
theorem Placed.maximal {j : Nat} (hj : j ≤ cps.length) (hfit : volumeTo cps j ≤ room) : j ≤ k := by
  by_contra hlt
  have h1 := hp.longest (by omega)
  have h2 := volumeTo_mono cps (show k + 1 ≤ j by omega)
  omega

/-- The sector a partition is given, without wrapping. -/
theorem Placed.startLBA {i : Nat} (hlt : start + room < 2 ^ 64) (hi : i < k) :
    ∃ cp q, cps[i]? = some cp ∧ placed[i]? = some q
      ∧ q = { cp with startLBA := UInt64.ofNat (start + volumeTo cps i) }
      ∧ q.startLBA.toNat = start + volumeTo cps i := by
  have hle := hp.le
  have hcp : cps[i]? = some cps[i] := List.getElem?_eq_getElem (by omega)
  have h1 := volumeTo_add_le hi hcp
  have h2 := hp.fits
  refine ⟨_, _, hcp, hp.part i _ hi hcp, rfl, ?_⟩
  exact UInt64.toNat_ofNat_of_lt' (show _ < 2 ^ 64 by omega)

end Placed

/-- A disk too small for the table, or a table without partitions, is refused. -/
theorem generate_small (buf : Mem)
    (h : config.volume.toNat < 4 + config.arraySectors ∨ config.partitions = []) :
    GPTGenerate buf config = .ok (0, buf, config.partitions) := by
  unfold GPTGenerate
  dsimp only
  rw [if_pos ((tooSmall_iff config (toNat_arraySectors config)).mpr h)]

/-- **Placement.**  The longest run of partitions that fits is placed, each behind the one before
it, in the sectors between the entry array and the last two; nothing else changes in the array.
A disk too small for the table, or a table without partitions, is refused. -/
theorem generate_places (buf : Mem) (config : GPTConfig) :
    (config.Servable → ∃ k buf' placed, GPTGenerate buf config = .ok (k, buf', placed)
      ∧ k.toNat ≤ config.partitions.length
      ∧ volumeTo config.partitions k.toNat ≤ config.volume.toNat - 4 - config.arraySectors
      ∧ (∀ j, j ≤ config.partitions.length →
          volumeTo config.partitions j ≤ config.volume.toNat - 4 - config.arraySectors →
          j ≤ k.toNat)
      ∧ placed.length = config.partitions.length
      ∧ (∀ i, i < k.toNat → ∃ cp q, config.partitions[i]? = some cp ∧ placed[i]? = some q
          ∧ q = { cp with startLBA := q.startLBA }
          ∧ q.startLBA.toNat = 2 + config.arraySectors + volumeTo config.partitions i
          ∧ q.startLBA.toNat + q.volume.toNat ≤ config.volume.toNat - 2)
      ∧ (∀ i j p q, i < j → j < k.toNat → placed[i]? = some p → placed[j]? = some q →
          p.startLBA.toNat + p.volume.toNat ≤ q.startLBA.toNat)
      ∧ ∀ i, k.toNat ≤ i → placed[i]? = config.partitions[i]?)
    ∧ (config.volume.toNat < 4 + config.arraySectors ∨ config.partitions = [] →
        GPTGenerate buf config = .ok (0, buf, config.partitions)) := by
  refine ⟨?_, ?_⟩
  · intro h
    have hfits := h.fits
    have hvol := config.buf_fits
    have hlen := config.partitions_fit
    obtain ⟨k, last, m', placed, hgen, hp, hrest, -⟩ := generate_eq h buf
    have hle := hp.le
    have hk : (UInt64.ofNat k).toNat = k := UInt64.toNat_ofNat_of_lt' (show _ < 2 ^ 64 by omega)
    have hroom : config.room = config.volume.toNat - 4 - config.arraySectors := rfl
    have hstart := fun i => hp.startLBA (i := i) (by omega)
    refine ⟨_, _, _, hgen, ?_⟩
    rw [hk]
    refine ⟨hle, hp.fits, fun j => hp.maximal, hp.length, ?_, ?_, hrest⟩
    · intro i hi
      obtain ⟨cp, q, hcp, hq, rfl, hs⟩ := hstart i hi
      have h1 := volumeTo_add_le hi hcp
      have h2 := hp.fits
      refine ⟨cp, _, hcp, hq, rfl, hs, ?_⟩
      rw [hs]
      show _ + cp.volume.toNat ≤ _
      omega
    · intro i j p q hij hj hpi hqj
      obtain ⟨cp, p', hcp, hp', rfl, hsp⟩ := hstart i (by omega)
      obtain ⟨cq, q', hcq, hq', rfl, hsq⟩ := hstart j hj
      obtain rfl := Option.some.inj (hp'.symm.trans hpi)
      obtain rfl := Option.some.inj (hq'.symm.trans hqj)
      have h1 := volumeTo_add_le hij hcp
      rw [hsp, hsq]
      show _ + cp.volume.toNat ≤ _
      omega
  · intro hsmall
    exact generate_small buf hsmall

theorem generate_places_two : ∃ k buf' placed,
    GPTGenerate (fun _ => 0) (bootDisk 2 (by decide)) = .ok (k, buf', placed) ∧ 2 ≤ k.toNat := by
  have hserve := bootDisk_servable 2 (by decide) (by decide)
  obtain ⟨k, buf', placed, hgen, -, -, hmax, -⟩ :=
    (generate_places (fun _ => 0) (bootDisk 2 (by decide))).1 hserve
  refine ⟨k, buf', placed, hgen, hmax 2 ?_ ?_⟩
  · rw [bootDisk_length]
  · have hroom := bootDisk_room 2 (by decide)
    unfold GPTConfig.room at hroom
    rw [bootDisk_volumeTo, hroom]

/-! ### The usable range -/

/-- Entry `i` of the array lies in the range the header at `header` announces:
`firstUsableLBA <= startLBA <= endLBA <= lastUsableLBA`. -/
def InUsableRange (m : Mem) (header i : Nat) : Prop :=
  load m (header + 40) 8 ≤ load m (1024 + 128 * i + 32) 8
    ∧ load m (1024 + 128 * i + 32) 8 ≤ load m (1024 + 128 * i + 40) 8
    ∧ load m (1024 + 128 * i + 40) 8 ≤ load m (header + 48) 8

section Backup

variable {m : Mem} {nBlock start nPartition : UInt64} {diskId : GUID} {crc : UInt32}

/-- Behind the two sector numbers the backup header is a copy of the primary one. -/
theorem writeHeaders_backup (hlast : 604 ≤ getSector (nBlock - 1)) {k w : Nat} (hk : 40 ≤ k)
    (hw : k + w ≤ 92) :
    load (writeHeaders m nBlock start nPartition diskId crc) (getSector (nBlock - 1) + k) w
      = load (writeHeaders m nBlock start nPartition diskId crc) (512 + k) w := by
  have hs : getSector 1 = 512 := rfl
  refine load_shift fun i hi => ?_
  unfold writeHeaders
  rw [hs]
  iterate 8 rw [store_apply_of_out _ _ _ _ (by omega)]
  rw [Nat.add_assoc, copy_apply_of_in _ _ _ _ (show k + i < 92 by omega),
    copy_apply_of_out _ _ _ _ (by omega), Nat.add_assoc]

end Backup

/-- A call that created a partition got past the check; the names do not matter. -/
theorem generate_created {buf buf' : Mem} {k : UInt64} {placed : List PartitionConfig}
    (hgen : GPTGenerate buf config = .ok (k, buf', placed)) (hk : 1 ≤ k.toNat) :
    ∃ nS last m crc, 4 + config.arraySectors ≤ config.volume.toNat ∧ config.partitions ≠ []
      ∧ Placed config.partitions (2 + config.arraySectors) config.room k.toNat last.toNat placed
      ∧ writeEntries nS (placed.take k.toNat)
          (createProtectGPT buf 0 BLOCK_SIZE config.volume) 1024 = .ok m
      ∧ buf' = writeHeaders m config.volume last k config.diskId crc := by
  have hlen := config.partitions_fit
  by_cases hsmall : config.volume.toNat < 4 + config.arraySectors ∨ config.partitions = []
  · rw [generate_small buf hsmall] at hgen
    obtain rfl := (Prod.mk.inj (Except.ok.inj hgen)).1
    simp at hk
  · rw [not_or, Nat.not_lt] at hsmall
    obtain ⟨hfits, hne⟩ := hsmall
    obtain ⟨nS, n, last, placed', -, hp, -, hshape⟩ := generate_shape buf hne hfits
    have hle := hp.le
    have hn : (UInt64.ofNat n).toNat = n := UInt64.toNat_ofNat_of_lt' (show _ < 2 ^ 64 by omega)
    rw [hgen] at hshape
    cases hm : writeEntries nS (placed'.take n)
        (createProtectGPT buf 0 BLOCK_SIZE config.volume) 1024 with
    | error e => simp [hm, bind, Except.bind] at hshape
    | ok m =>
        rw [hm] at hshape
        obtain ⟨rfl, hrest⟩ := Prod.mk.inj (Except.ok.inj hshape)
        obtain ⟨rfl, rfl⟩ := Prod.mk.inj hrest
        refine ⟨nS, last, m, _, hfits, hne, ?_, ?_, rfl⟩
        · rwa [hn]
        · rwa [hn]

/-- A partition that was created ends before the last two sectors. -/
theorem generate_bounds {buf buf' : Mem} {k : UInt64} {placed : List PartitionConfig}
    (hgen : GPTGenerate buf config = .ok (k, buf', placed)) {i : Nat} (hi : i < k.toNat)
    {q : PartitionConfig} (hq : placed[i]? = some q) :
    q.startLBA.toNat + q.volume.toNat + 2 ≤ config.volume.toNat := by
  obtain ⟨nS, last, m, crc, hfits, -, hp, -, -⟩ := generate_created hgen (by omega)
  have hvol := config.buf_fits
  have hroom : config.room = config.volume.toNat - 4 - config.arraySectors := rfl
  obtain ⟨cp, q', hcp, hq', rfl, hs⟩ := hp.startLBA (i := i) (by omega) hi
  obtain rfl := Option.some.inj (hq'.symm.trans hq)
  have hone := volumeTo_add_le hi hcp
  have hfit := hp.fits
  rw [hs]
  show _ + cp.volume.toNat + 2 ≤ _
  omega

/-- The sectors in the headers and the entries of a disk that `GPTGenerate` wrote. -/
structure Sectors (config : GPTConfig) (m : Mem) (k : Nat) : Prop where
  fits : volumeTo config.partitions k ≤ config.room
  backup : 4 + config.arraySectors ≤ config.volume.toNat
  first : ∀ header ∈ [512, (config.volume.toNat - 1) * 512],
    load m (header + 40) 8 = 2 + config.arraySectors + volumeTo config.partitions k
  last : ∀ header ∈ [512, (config.volume.toNat - 1) * 512],
    load m (header + 48) 8 = config.volume.toNat - 2
  entry : ∀ i, i < k → ∃ cp, config.partitions[i]? = some cp
    ∧ load m (1024 + 128 * i + 32) 8 = 2 + config.arraySectors + volumeTo config.partitions i
    ∧ (1 ≤ cp.volume.toNat → load m (1024 + 128 * i + 40) 8 + 1
        = 2 + config.arraySectors + volumeTo config.partitions i + cp.volume.toNat)

theorem generate_sectors {buf buf' : Mem} {k : UInt64} {placed : List PartitionConfig}
    (hgen : GPTGenerate buf config = .ok (k, buf', placed)) (hk : 1 ≤ k.toNat) :
    Sectors config buf' k.toNat := by
  obtain ⟨nS, last, m, crc, hfits, hne, hp, hm, rfl⟩ := generate_created hgen hk
  have hvol := config.buf_fits
  have hle := hp.le
  have hfit := hp.fits
  have hlast := lastSector_eq hfits
  have hpos := arraySectors_pos hne
  have hroom : config.room = config.volume.toNat - 4 - config.arraySectors := rfl
  have h604 : 604 ≤ getSector (config.volume - 1) := by omega
  have hheader : ∀ {j v : Nat}, 40 ≤ j → j + 8 ≤ 92 → v < 2 ^ 64 →
      Field.int j 8 v ∈ headerFields config.volume last k config.diskId crc →
      ∀ header ∈ [512, (config.volume.toNat - 1) * 512],
        load (writeHeaders m config.volume last k config.diskId crc) (header + j) 8 = v := by
    intro j v h40 h92 hv hf header hmem
    have hprimary := writeHeaders_load (m := m) h604 h92 (Or.inr (by omega)) hf
    rw [Nat.mod_eq_of_lt (show v < 256 ^ 8 by omega)] at hprimary
    rcases List.mem_cons.mp hmem with rfl | hmem
    · exact hprimary
    · rw [List.mem_singleton.mp hmem, ← hlast, writeHeaders_backup h604 h40 h92]
      exact hprimary
  refine ⟨hfit, hfits, ?_, ?_, ?_⟩
  · rw [← hp.last]
    exact hheader (by omega) (by omega) last.toNat_lt (by simp [headerFields])
  · have h2 : (config.volume - 2).toNat = config.volume.toNat - 2 :=
      UInt64.toNat_sub_of_le _ _ (UInt64.le_iff_toNat_le.mpr (show 2 ≤ _ by omega))
    rw [← h2]
    exact hheader (by omega) (by omega) (UInt64.toNat_lt _) (by simp [headerFields])
  · intro i hi
    obtain ⟨cp, q, hcp, hq, rfl, hs⟩ := hp.startLBA (i := i) (by omega) hi
    obtain ⟨-, hlba⟩ := writeEntries_lba nS _ _ _ _ hm
    obtain ⟨h32, h40⟩ := hlba i _ (by rwa [List.getElem?_take_of_lt hi])
    have hone := volumeTo_add_le hi hcp
    have hk4 : k.toNat ≤ 4 * config.arraySectors := by
      unfold GPTConfig.arraySectors
      omega
    -- The entries lie between the two headers.
    have hout : ∀ j, j ≤ 48 →
        load (writeHeaders m config.volume last k config.diskId crc) (1024 + 128 * i + j) 8
          = load m (1024 + 128 * i + j) 8 :=
      fun j hj => load_congr fun x _ _ => writeHeaders_out (by omega) (by omega)
    have hsum : (UInt64.ofNat (2 + config.arraySectors + volumeTo config.partitions i)
        + cp.volume).toNat
        = 2 + config.arraySectors + volumeTo config.partitions i + cp.volume.toNat := by
      rw [UInt64.toNat_add, hs]
      exact Nat.mod_eq_of_lt (by omega)
    refine ⟨cp, hcp, ?_, ?_⟩
    · rw [hout 32 (by omega), h32, hs]
    · intro hv
      rw [hout 40 (by omega), h40, UInt64.toNat_sub_of_le _ _ (UInt64.le_iff_toNat_le.mpr ?_)]
      · rw [hsum]
        show _ - 1 + 1 = _
        omega
      · rw [hsum]
        show 1 ≤ _
        omega

/-- **No partition lies in the usable range.**  Whatever the configuration, `firstUsableLBA` is
larger than `endLBA` of every entry in both headers, although the other bounds hold. -/
theorem usable_never {buf buf' : Mem} {k : UInt64} {placed : List PartitionConfig}
    (hgen : GPTGenerate buf config = .ok (k, buf', placed)) (hk : 1 ≤ k.toNat)
    (hvol : ∀ cp ∈ config.partitions, 1 ≤ cp.volume.toNat) :
    ∀ i, i < k.toNat → ∀ header ∈ [512, (config.volume.toNat - 1) * 512],
      load buf' (1024 + 128 * i + 32) 8 ≤ load buf' (1024 + 128 * i + 40) 8
        ∧ load buf' (1024 + 128 * i + 40) 8 < load buf' (header + 40) 8
        ∧ load buf' (1024 + 128 * i + 40) 8 ≤ load buf' (header + 48) 8
        ∧ ¬ InUsableRange buf' header i := by
  intro i hi header hmem
  have hs := generate_sectors hgen hk
  obtain ⟨cp, hcp, hstart, hend⟩ := hs.entry i hi
  have hv := hvol cp (List.mem_of_getElem? hcp)
  have hfirst := hs.first header hmem
  have hlast := hs.last header hmem
  have hone := volumeTo_add_le hi hcp
  have hfits := hs.fits
  have hbackup := hs.backup
  have hroom : config.room = config.volume.toNat - 4 - config.arraySectors := rfl
  have hend' := hend hv
  refine ⟨by omega, by omega, by omega, fun hin => ?_⟩
  have := hin.1
  omega

/-- Two partitions of a sector each are created. -/
theorem generate_two : ∃ buf' placed,
    GPTGenerate (fun _ => 0) (bootDisk 2 (by decide)) = .ok (2, buf', placed) := by
  have hok : ((GPTGenerate (fun _ => 0) (bootDisk 2 (by decide))).toOption.map fun r => r.1)
      = some 2 := by decide +kernel
  cases hgen : GPTGenerate (fun _ => 0) (bootDisk 2 (by decide)) with
  | error e =>
      rw [hgen] at hok
      exact absurd hok (by simp [Except.toOption])
  | ok r =>
      rw [hgen] at hok
      have hk : r.1 = 2 := Option.some.inj hok
      exact ⟨r.2.1, r.2.2, by rw [← hk]⟩

theorem usable_never_two : ∃ buf' placed,
    GPTGenerate (fun _ => 0) (bootDisk 2 (by decide)) = .ok (2, buf', placed)
      ∧ ¬ InUsableRange buf' 512 0 ∧ ¬ InUsableRange buf' (6 * 512) 1 := by
  obtain ⟨buf', placed, hgen⟩ := generate_two
  have hserve := bootDisk_servable 2 (by decide) (by decide)
  have hall := usable_never hgen (by decide) hserve.volumes
  refine ⟨buf', placed, hgen, ?_, ?_⟩
  · exact (hall 0 (by decide) 512 (by decide)).2.2.2
  · exact (hall 1 (by decide) (6 * 512) (by decide)).2.2.2

/-- They lie at sectors 3 and 4, and in both headers the first usable sector is 5. -/
theorem usable_counterexample :
    ¬ ∀ (buf buf' : Mem) (config : GPTConfig) (k : UInt64) (placed : List PartitionConfig),
      GPTGenerate buf config = .ok (k, buf', placed) → 1 ≤ k.toNat →
      (∀ cp ∈ config.partitions, 1 ≤ cp.volume.toNat) →
      ∀ i, i < k.toNat → ∀ header ∈ [512, (config.volume.toNat - 1) * 512],
        InUsableRange buf' header i := by
  intro h
  obtain ⟨buf', placed, hgen⟩ := generate_two
  have hin := h (fun _ => 0) buf' _ 2 placed hgen (by decide)
    (bootDisk_servable 2 (by decide) (by decide)).volumes 0 (by decide) 512 (by decide)
  have hnum : ((GPTGenerate (fun _ => 0) (bootDisk 2 (by decide))).toOption.map fun r =>
      (load r.2.1 (512 + 40) 8, load r.2.1 (1024 + 128 * 0 + 32) 8)) = some (5, 3) := by
    decide +kernel
  rw [hgen] at hnum
  obtain ⟨hfirst, hstart⟩ := Prod.mk.inj (Option.some.inj hnum)
  have hle := hin.1
  rw [hfirst, hstart] at hle
  omega

end LinuxUtil.Gpt
