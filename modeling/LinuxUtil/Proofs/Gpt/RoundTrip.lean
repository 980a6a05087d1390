/-
`GPTParse` reads back what `GPTGenerate` wrote.

`generate_eq` says what `GPTGenerate` leaves behind on a configuration it can serve.
The number of partitions goes into a 32-bit field of the header, and nothing checks
that it fits.  So the round trip holds exactly when fewer than `2 ^ 32` partitions
were placed, which `roundTrip_iff` says about the configuration: it asks for fewer, or
the first `2 ^ 32` of them do not fit on the disk.
-/
import LinuxUtil.Proofs.Gpt.Layout

namespace LinuxUtil.Gpt

open ByteMem

/-! ### The headers -/

section Headers

variable {m : Mem} {nBlock start nPartition : UInt64} {diskId : GUID} {crc : UInt32}

theorem packed_header : Packed 0 (headerFields nBlock start nPartition diskId crc) 92 := by
  simp [Packed, headerFields, Field.int, ascii]

theorem packed_mbr_apart (blockSize nBlock : UInt64) :
    (mbrFields blockSize nBlock).Pairwise Field.Apart := by
  simp [mbrFields, Field.Apart, Field.int]

/-- The last sector starts behind the primary header. -/
theorem writeHeaders_out {x : Nat} (h1 : x < 512 ∨ 604 ≤ x)
    (h2 : x < getSector (nBlock - 1) ∨ getSector (nBlock - 1) + 92 ≤ x) :
    writeHeaders m nBlock start nPartition diskId crc x = m x := by
  have hs : getSector 1 = 512 := rfl
  unfold writeHeaders
  rw [hs, store_apply_of_out _ _ _ _ (by omega), store_apply_of_out _ _ _ _ (by omega),
    store_apply_of_out _ _ _ _ (by omega), store_apply_of_out _ _ _ _ (by omega),
    copy_apply_of_out _ _ _ _ (by omega), packed_header.put_out _ _ (by omega),
    fill_apply_of_out _ _ _ _ (by omega), fill_apply_of_out _ _ _ _ (by omega)]

/-- The primary header reads as it was assigned, but for its checksum. -/
theorem writeHeaders_primary (hlast : 604 ≤ getSector (nBlock - 1)) {k w : Nat} (hw : k + w ≤ 92)
    (hcrc : k + w ≤ 16 ∨ 20 ≤ k) :
    read (writeHeaders m nBlock start nPartition diskId crc) (512 + k) w
      = read (put (fill (fill m 512 92 0) (getSector (nBlock - 1)) 92 0) 512
          (headerFields nBlock start nPartition diskId crc)) (512 + k) w := by
  have hs : getSector 1 = 512 := rfl
  refine read_congr fun x _ _ => ?_
  unfold writeHeaders
  rw [hs, store_apply_of_out _ _ _ _ (by omega), store_apply_of_out _ _ _ _ (by omega),
    store_apply_of_out _ _ _ _ (by omega), store_apply_of_out _ _ _ _ (by omega),
    copy_apply_of_out _ _ _ _ (by omega)]

theorem writeHeaders_load (hlast : 604 ≤ getSector (nBlock - 1)) {k w v : Nat} (hw : k + w ≤ 92)
    (hcrc : k + w ≤ 16 ∨ 20 ≤ k)
    (hf : Field.int k w v ∈ headerFields nBlock start nPartition diskId crc) :
    load (writeHeaders m nBlock start nPartition diskId crc) (512 + k) w = v % 256 ^ w := by
  rw [← load_put (fill (fill m 512 92 0) (getSector (nBlock - 1)) 92 0) 512 _ packed_header.apart hf]
  unfold load
  rw [writeHeaders_primary hlast hw hcrc]

theorem writeHeaders_signature (hlast : 604 ≤ getSector (nBlock - 1)) :
    read (writeHeaders m nBlock start nPartition diskId crc) 512 8 = ascii "EFI PART" := by
  refine (writeHeaders_primary hlast (k := 0) (w := 8) (by omega) (by omega)).trans ?_
  exact read_put _ 512 _ packed_header.apart (f := ⟨0, ascii "EFI PART"⟩) (by simp [headerFields])

end Headers

/-! ### Generating -/

namespace GPTConfig

/-- Sectors of the entry array. -/
def arraySectors (config : GPTConfig) : Nat := (config.partitions.length + 3) / 4

/-- Sectors left for the partitions. -/
def room (config : GPTConfig) : Nat := config.volume.toNat - 4 - config.arraySectors

/-- A configuration `GPTGenerate` is meant for. -/
structure Servable (config : GPTConfig) : Prop where
  nonempty : config.partitions ≠ []
  volumes : ∀ cp ∈ config.partitions, 1 ≤ cp.volume.toNat
  names : ∀ cp ∈ config.partitions, ∃ name, cp.name = some name ∧ name.length ≤ 36 ∧ 0 ∉ name
  fits : 4 + config.arraySectors ≤ config.volume.toNat

end GPTConfig

/-- What a reader of the table relies on. -/
structure TableAt (m : Mem) (k : Nat) (placed : List PartitionConfig) : Prop where
  mbr : load m 510 2 = 0xAA55
  signature : read m 512 8 = ascii "EFI PART"
  startEntryArray : load m (512 + 72) 8 = 2
  numEntries : load m (512 + 80) 4 = k % 2 ^ 32
  entries : ∀ i cp, i < k → placed[i]? = some cp →
    ∃ name, cp.name = some name ∧ EntryAt m (1024 + 128 * i) cp name

section Generate

variable {config : GPTConfig}

theorem toNat_numPart (config : GPTConfig) : config.numPart.toNat = config.partitions.length := by
  have := config.partitions_fit
  exact UInt64.toNat_ofNat_of_lt' (show _ < 2 ^ 64 by omega)

theorem toNat_arraySectors (config : GPTConfig) :
    ((BLOCK_SIZE / 128 - 1 + config.numPart) / (BLOCK_SIZE / 128)).toNat = config.arraySectors := by
  have hlen := config.partitions_fit
  have h4 : BLOCK_SIZE / 128 = 4 := rfl
  have h3 : (4 : UInt64) - 1 = 3 := rfl
  rw [h4, h3, UInt64.toNat_div, UInt64.toNat_add, toNat_numPart]
  show (3 + config.partitions.length) % 2 ^ 64 / 4 = _
  rw [Nat.mod_eq_of_lt (by omega), Nat.add_comm]
  rfl

section Fits

variable (hfits : 4 + config.arraySectors ≤ config.volume.toNat)
include hfits

theorem toNat_room {nS : UInt64} (hnS : nS.toNat = config.arraySectors) :
    (config.volume - 4 - nS).toNat = config.room := by
  have h4 : (config.volume - 4).toNat = config.volume.toNat - 4 :=
    UInt64.toNat_sub_of_le _ _ (UInt64.le_iff_toNat_le.mpr (show 4 ≤ _ by omega))
  rw [UInt64.toNat_sub_of_le _ _ (UInt64.le_iff_toNat_le.mpr (by omega)), h4, hnS]
  rfl

theorem lastSector_eq : getSector (config.volume - 1) = (config.volume.toNat - 1) * 512 := by
  have hbuf := config.buf_fits
  have hlt : (config.volume.toNat - 1) * 512 < 2 ^ 64 :=
    Nat.lt_of_le_of_lt (Nat.mul_le_mul_right _ (Nat.sub_le _ _)) hbuf
  unfold getSector
  rw [UInt64.toNat_mul,
    UInt64.toNat_sub_of_le _ _ (UInt64.le_iff_toNat_le.mpr (show 1 ≤ _ by omega))]
  exact Nat.mod_eq_of_lt hlt

end Fits

theorem arraySectors_pos (hne : config.partitions ≠ []) : 1 ≤ config.arraySectors := by
  have := List.length_pos_of_ne_nil hne
  unfold GPTConfig.arraySectors
  omega

/-- The check in front of the first write. -/
theorem tooSmall_iff (config : GPTConfig) {nS : UInt64} (hnS : nS.toNat = config.arraySectors) :
    (decide (config.volume < 4 + nS) || nS == 0) = true
      ↔ config.volume.toNat < 4 + config.arraySectors ∨ config.partitions = [] := by
  have hlen := config.partitions_fit
  have h4 : (4 + nS).toNat = 4 + config.arraySectors := by
    rw [UInt64.toNat_add, hnS]
    refine Nat.mod_eq_of_lt ?_
    show 4 + config.arraySectors < 2 ^ 64
    unfold GPTConfig.arraySectors
    omega
  have hzero : nS = 0 ↔ config.partitions = [] := by
    rw [← UInt64.toNat_inj, hnS, ← List.length_eq_zero_iff]
    unfold GPTConfig.arraySectors
    show (config.partitions.length + 3) / 4 = 0 ↔ _
    omega
  rw [Bool.or_eq_true, decide_eq_true_eq, beq_iff_eq, UInt64.lt_iff_toNat_lt, h4, hzero]

/-- A call that gets past the check places partitions, writes their entries and both headers. -/
theorem generate_shape (buf : Mem) (hne : config.partitions ≠ [])
    (hfits : 4 + config.arraySectors ≤ config.volume.toNat) :
    ∃ (nS : UInt64) (k : Nat) (last : UInt64) (placed : List PartitionConfig),
      (nS * BLOCK_SIZE).toNat = config.arraySectors * 512
        ∧ Placed config.partitions (2 + config.arraySectors) config.room k last.toNat placed
        ∧ (∀ i, k ≤ i → placed[i]? = config.partitions[i]?)
        ∧ GPTGenerate buf config = do
            let m ← writeEntries nS (placed.take k)
              (createProtectGPT buf 0 BLOCK_SIZE config.volume) 1024
            return (UInt64.ofNat k, writeHeaders m config.volume last (UInt64.ofNat k) config.diskId
              (crc32 (read m 1024 (128 * UInt64.ofNat k).toNat)), placed) := by
  have hnS := toNat_arraySectors config
  have hbuf := config.buf_fits
  have hroom := toNat_room hfits hnS
  have hcheck := tooSmall_iff config hnS
  -- `nS` stands for the sectors of the entry array from here on.
  unfold GPTGenerate
  dsimp only
  generalize (BLOCK_SIZE / 128 - 1 + config.numPart) / (BLOCK_SIZE / 128) = nS at hnS hroom hcheck ⊢
  have hstart : (2 + nS).toNat = 2 + config.arraySectors := by
    rw [UInt64.toNat_add, hnS]
    show (2 + config.arraySectors) % 2 ^ 64 = _
    rw [Nat.mod_eq_of_lt (by omega)]
  have hclear : (nS * BLOCK_SIZE).toNat = config.arraySectors * 512 := by
    have hlt : config.arraySectors * 512 < 2 ^ 64 :=
      Nat.lt_of_le_of_lt (Nat.mul_le_mul_right _ (by omega)) hbuf
    rw [UInt64.toNat_mul, hnS]
    exact Nat.mod_eq_of_lt hlt
  have hplaced := allocate_placed config.partitions (2 + nS) (config.volume - 4 - nS)
    (by rw [hstart, hroom]; unfold GPTConfig.room; omega)
  have hrest := allocate_rest config.partitions (2 + nS) (config.volume - 4 - nS)
  rw [hstart, hroom] at hplaced
  rw [if_neg (fun hc => (hcheck.mp hc).elim (by omega) hne)]
  exact ⟨nS, _, _, _, hclear, hplaced, hrest, rfl⟩

variable (h : config.Servable)
include h

/-- Placed partitions have the names they came with. -/
theorem Placed.names {start k last : Nat} {placed : List PartitionConfig}
    (hp : Placed config.partitions start config.room k last placed) :
    ∀ cp ∈ placed.take k, ∃ name, cp.name = some name ∧ name.length ≤ 36 ∧ 0 ∉ name := by
  intro q hq
  obtain ⟨cp, hcp, start, rfl⟩ := hp.mem_take hq
  exact h.names cp hcp

/-- **What `GPTGenerate` leaves behind.** -/
theorem generate_eq (buf : Mem) : ∃ k last m' placed,
    GPTGenerate buf config = .ok (UInt64.ofNat k, m', placed)
      ∧ Placed config.partitions (2 + config.arraySectors) config.room k last placed
      ∧ (∀ i, k ≤ i → placed[i]? = config.partitions[i]?)
      ∧ TableAt m' k placed := by
  have hfits := h.fits
  have hlast := lastSector_eq hfits
  obtain ⟨nS, k, last, placed, hclear, hplaced, hrest, hgen⟩ := generate_shape buf h.nonempty hfits
  have hpos := arraySectors_pos h.nonempty
  obtain ⟨m1, hm1, hbelow, hentries⟩ :=
    writeEntries_entries nS (by omega) (placed.take k) (createProtectGPT buf 0 BLOCK_SIZE config.volume)
      1024 (hplaced.names h)
  have hk : 4 * config.arraySectors ≥ k := by
    have := hplaced.le
    unfold GPTConfig.arraySectors
    omega
  have hlt : k < 2 ^ 64 := by
    have := hplaced.le
    have := config.partitions_fit
    omega
  rw [hm1] at hgen
  refine ⟨k, last.toNat, _, placed, hgen, hplaced, hrest, ?_, ?_, ?_, ?_, ?_⟩
  · rw [load_congr fun x _ _ => writeHeaders_out (by omega) (by omega),
      load_congr fun x _ _ => hbelow x (by omega)]
    exact load_put (v := 0xAA55) _ 0 _ (packed_mbr_apart _ _) List.mem_cons_self
  · exact writeHeaders_signature (by omega)
  · rw [writeHeaders_load (v := 2) (by omega) (by omega) (by omega) (by simp [headerFields])]
    rfl
  · rw [writeHeaders_load (v := (UInt64.ofNat k).toNat) (by omega) (by omega) (by omega)
      (by simp [headerFields]), UInt64.toNat_ofNat_of_lt' hlt]
    rfl
  · intro i cp hi hcp
    obtain ⟨name, hname, hentry⟩ := hentries i cp (by rwa [List.getElem?_take_of_lt hi])
    exact ⟨name, hname, hentry.congr fun x _ _ => writeHeaders_out (by omega) (by omega)⟩

end Generate

/-! ### Parsing -/

/-- The two allocations of `GPTParse` succeed. -/
structure Heap.Succeeds (heap : Heap) : Prop where
  malloc : ∀ size, heap.malloc size = true
  strdup : ∀ s, heap.strdup s = some s

theorem parseEntry_eq {heap : Heap} (hheap : heap.Succeeds) {m : Mem} {e : Nat}
    {cp : PartitionConfig} {name : List UInt8} (hname : cp.name = some name)
    (h : EntryAt m e cp name) : parseEntry heap m e = cp := by
  have hvolume : cp.startLBA + cp.volume - 1 - cp.startLBA + 1 = cp.volume := by
    grind
  unfold parseEntry
  rw [GUID.at_eq h.partType, GUID.at_eq h.partId, h.name, hheap.strdup, h.startLBA, h.endLBA,
    ← hname]
  simp only [UInt64.ofNat_toNat, hvolume]

/-- Parsing gives as many partitions as the header field can say. -/
theorem parse_eq {heap : Heap} (hheap : heap.Succeeds) {m : Mem} {k : Nat}
    {placed : List PartitionConfig} (h : TableAt m k placed) (hlen : k ≤ placed.length) :
    GPTParse heap m = .ok (UInt64.ofNat (k % 2 ^ 32), placed.take (k % 2 ^ 32)) := by
  have hlt : k % 2 ^ 32 < 2 ^ 32 := Nat.mod_lt _ (by omega)
  have hle : k % 2 ^ 32 ≤ k := Nat.mod_le _ _
  have h0 : getSector 0 = 0 := rfl
  have h1 : getSector 1 = 512 := rfl
  have h2 : getSector (UInt64.ofNat 2) = 1024 := rfl
  have hsig : ¬ UInt16.ofNat 0xAA55 ≠ GPT_SIGNATURE := by decide
  have hnum : (UInt32.ofNat (k % 2 ^ 32)).toNat = k % 2 ^ 32 := UInt32.toNat_ofNat_of_lt' hlt
  have h64 : (UInt32.ofNat (k % 2 ^ 32)).toUInt64 = UInt64.ofNat (k % 2 ^ 32) := by
    rw [← UInt64.toNat_inj, UInt32.toNat_toUInt64, hnum,
      UInt64.toNat_ofNat_of_lt' (show _ < 2 ^ 64 by omega)]
  have hparts : (List.range (k % 2 ^ 32)).map (fun i => parseEntry heap m (1024 + 128 * i))
      = placed.take (k % 2 ^ 32) := by
    apply List.ext_getElem
    · simp
      omega
    · intro i hi1 hi2
      simp only [List.length_map, List.length_range] at hi1
      obtain ⟨name, hname, hentry⟩ :=
        h.entries i placed[i] (by omega) (List.getElem?_eq_getElem (by omega))
      rw [List.getElem_map, List.getElem_range, List.getElem_take]
      exact parseEntry_eq hheap hname hentry
  unfold GPTParse
  dsimp only
  rw [h0, h1, Nat.zero_add, h.mbr, if_neg hsig, h.signature, if_neg (by simp), h.startEntryArray,
    h.numEntries, hheap.malloc, if_pos rfl, h2, hnum, hparts, h64]

/-! ### The round trip -/

/-- `GPTGenerate` returns a number of partitions, and `GPTParse` on the buffer returns 0 with that
many: each as it was asked for, at the sector `GPTGenerate` assigned to it. -/
def RoundTrip (heap : Heap) (buf : Mem) (config : GPTConfig) : Prop :=
  ∃ k buf' placed, GPTGenerate buf config = .ok (k, buf', placed)
    ∧ ∃ parsed, GPTParse heap buf' = .ok (k, parsed) ∧ parsed.length = k.toNat
      ∧ ∀ i, i < k.toNat → ∃ cp q, config.partitions[i]? = some cp ∧ placed[i]? = some q
        ∧ parsed[i]? = some { cp with startLBA := q.startLBA }

/-- Fewer than `2 ^ 32` partitions are asked for, or that many do not fit. -/
def GPTConfig.Countable (config : GPTConfig) : Prop :=
  config.partitions.length < 2 ^ 32 ∨ config.room < volumeTo config.partitions (2 ^ 32)

theorem Placed.countable_iff {config : GPTConfig} {start k last : Nat}
    {placed : List PartitionConfig}
    (hp : Placed config.partitions start config.room k last placed) :
    config.Countable ↔ k < 2 ^ 32 := by
  have hle := hp.le
  have hfits := hp.fits
  refine ⟨?_, ?_⟩
  · rintro (hfew | hfull)
    · omega
    · by_contra hk
      have := volumeTo_mono config.partitions (show 2 ^ 32 ≤ k by omega)
      omega
  · intro hk
    by_cases hall : k = config.partitions.length
    · exact Or.inl (by omega)
    · have := hp.longest (by omega)
      have := volumeTo_mono config.partitions (show k + 1 ≤ 2 ^ 32 by omega)
      exact Or.inr (by omega)

section RoundTrip

variable {heap : Heap} (hheap : heap.Succeeds) {buf : Mem} {config : GPTConfig}
  (h : config.Servable)
include hheap h

/-- What comes out of `GPTGenerate` and then of `GPTParse`. -/
theorem generate_parse (buf : Mem) : ∃ k last buf' placed,
    GPTGenerate buf config = .ok (UInt64.ofNat k, buf', placed)
      ∧ Placed config.partitions (2 + config.arraySectors) config.room k last placed
      ∧ (UInt64.ofNat k).toNat = k
      ∧ GPTParse heap buf' = .ok (UInt64.ofNat (k % 2 ^ 32), placed.take (k % 2 ^ 32)) := by
  obtain ⟨k, last, buf', placed, hgen, hplaced, -, htable⟩ := generate_eq h buf
  have hle := hplaced.le
  have hlen := hplaced.length
  have hfit := config.partitions_fit
  exact ⟨k, last, buf', placed, hgen, hplaced, UInt64.toNat_ofNat_of_lt' (show _ < 2 ^ 64 by omega),
    parse_eq hheap htable (by omega)⟩

theorem RoundTrip.countable (hround : RoundTrip heap buf config) : config.Countable := by
  obtain ⟨k, last, m', placed, hgen, hplaced, hk64, hparse⟩ := generate_parse hheap h buf
  obtain ⟨k', buf', placed', hgen', parsed, hparse', _⟩ := hround
  rw [hgen] at hgen'
  obtain ⟨rfl, hrest⟩ := Prod.mk.inj (Except.ok.inj hgen')
  obtain ⟨rfl, rfl⟩ := Prod.mk.inj hrest
  rw [hparse] at hparse'
  have hcount := congrArg UInt64.toNat (Prod.mk.inj (Except.ok.inj hparse')).1
  have hlt := Nat.mod_lt k (show 0 < 2 ^ 32 by omega)
  rw [hk64, UInt64.toNat_ofNat_of_lt' (show k % 2 ^ 32 < 2 ^ 64 by omega)] at hcount
  exact hplaced.countable_iff.mpr (hcount ▸ hlt)

theorem GPTConfig.Countable.roundTrip (hcount : config.Countable) : RoundTrip heap buf config := by
  obtain ⟨k, last, m', placed, hgen, hplaced, hk64, hparse⟩ := generate_parse hheap h buf
  have hle := hplaced.le
  have hlen := hplaced.length
  rw [Nat.mod_eq_of_lt (hplaced.countable_iff.mp hcount)] at hparse
  refine ⟨_, _, _, hgen, _, hparse, ?_, ?_⟩
  · rw [List.length_take, hk64]
    omega
  · intro i hi
    rw [hk64] at hi
    have hcp := List.getElem?_eq_getElem (show i < config.partitions.length by omega)
    have hq := hplaced.part i _ hi hcp
    refine ⟨_, _, hcp, hq, ?_⟩
    rw [List.getElem?_take_of_lt hi, hq]

end RoundTrip

/-- **The round trip holds exactly for the configurations whose partitions the header can
count.** -/
theorem roundTrip_iff (heap : Heap) (hheap : heap.Succeeds) (buf : Mem) (config : GPTConfig)
    (h : config.Servable) : RoundTrip heap buf config ↔ config.Countable :=
  ⟨RoundTrip.countable hheap h, GPTConfig.Countable.roundTrip hheap h⟩

/-- An allocator that never fails. -/
def ampleHeap : Heap := ⟨fun _ => true, some⟩

theorem ampleHeap_succeeds : ampleHeap.Succeeds := ⟨fun _ => rfl, fun _ => rfl⟩

def sampleGuid : GUID := ⟨0xc12a7328, 0xf81f, 0x11d2, 0xba, 0x4b, #v[0, 0xa0, 0xc9, 0x3e, 0xc9, 0x3b]⟩

/-- A partition of one sector. -/
def bootPart : PartitionConfig := ⟨sampleGuid, sampleGuid, some (ascii "boot"), 1, 0⟩

theorem volumeTo_replicate (n : Nat) : volumeTo (List.replicate n bootPart) n = n := by
  have hv : bootPart.volume.toNat = 1 := rfl
  unfold volumeTo
  rw [List.take_replicate, Nat.min_self, List.map_replicate, hv, List.sum_replicate]
  simp

/-- A disk just large enough for `n` of them. -/
def bootDisk (n : Nat) (hn : n ≤ 2 ^ 32) : GPTConfig where
  volume := UInt64.ofNat (4 + (n + 3) / 4 + n)
  partitions := List.replicate n bootPart
  diskId := sampleGuid
  buf_fits := by
    rw [UInt64.toNat_ofNat_of_lt' (show _ < 2 ^ 64 by omega)]
    omega
  partitions_fit := by
    rw [List.length_replicate]
    omega

section BootDisk

variable (n : Nat) (hn : n ≤ 2 ^ 32)

theorem bootDisk_length : (bootDisk n hn).partitions.length = n := by
  unfold bootDisk
  rw [List.length_replicate]

theorem bootDisk_volume : (bootDisk n hn).volume.toNat = 4 + (bootDisk n hn).arraySectors + n := by
  unfold GPTConfig.arraySectors
  rw [bootDisk_length]
  exact UInt64.toNat_ofNat_of_lt' (show _ < 2 ^ 64 by omega)

theorem bootDisk_servable (hpos : n ≠ 0) : (bootDisk n hn).Servable := by
  have hmem : ∀ cp ∈ (bootDisk n hn).partitions, cp = bootPart :=
    fun cp hcp => List.eq_of_mem_replicate hcp
  refine ⟨?_, ?_, ?_, ?_⟩
  · intro hnil
    have := bootDisk_length n hn
    rw [hnil] at this
    exact hpos this.symm
  · intro cp hcp
    rw [hmem cp hcp]
    decide
  · intro cp hcp
    rw [hmem cp hcp]
    exact ⟨ascii "boot", rfl, by decide, by decide⟩
  · rw [bootDisk_volume]
    exact Nat.le_add_right _ _

theorem bootDisk_volumeTo : volumeTo (bootDisk n hn).partitions n = n :=
  volumeTo_replicate n

theorem bootDisk_room : (bootDisk n hn).room = n := by
  unfold GPTConfig.room
  rw [bootDisk_volume]
  omega

end BootDisk

theorem roundTrip_two : RoundTrip ampleHeap (fun _ => 0) (bootDisk 2 (by decide)) :=
  (roundTrip_iff ampleHeap ampleHeap_succeeds (fun _ => 0) _
    (bootDisk_servable 2 (by decide) (by decide))).mpr (Or.inl (by rw [bootDisk_length]; decide))

/-- All of `2 ^ 32` partitions are created, and the header says there is none. -/
theorem roundTrip_fails : ampleHeap.Succeeds ∧ (bootDisk (2 ^ 32) (Nat.le_refl _)).Servable
    ∧ ¬ RoundTrip ampleHeap (fun _ => 0) (bootDisk (2 ^ 32) (Nat.le_refl _)) := by
  have hserve := bootDisk_servable (2 ^ 32) (Nat.le_refl _) (by decide)
  refine ⟨ampleHeap_succeeds, hserve, fun hround => ?_⟩
  rcases hround.countable ampleHeap_succeeds hserve with hfew | hfull
  · rw [bootDisk_length] at hfew
    exact Nat.lt_irrefl _ hfew
  · rw [bootDisk_volumeTo, bootDisk_room] at hfull
    exact Nat.lt_irrefl _ hfull

end LinuxUtil.Gpt
