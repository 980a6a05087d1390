/-
The partition table does not depend on what the partitions hold.

`Tabled` is what `GPTGenerate` leaves on a disk, and it is about the last 72 bytes of the first
sector, the primary header, the entry array and the backup header.  A disk whose other bytes
are written over is still `Tabled`, and a reader finds the same partitions on it.
-/
import LinuxUtil.Proofs.Gpt.Headers

namespace LinuxUtil.Gpt

open ByteMem

variable {config : GPTConfig} {m m' : Mem} {placed : List PartitionConfig}

/-! ### What a reader looks at -/

theorem TableAt.congr {k : Nat} (h : TableAt m k placed)
    (heq : ∀ x, 440 ≤ x → x < 1024 + 128 * k → m' x = m x) : TableAt m' k placed := by
  refine ⟨?_, ?_, ?_, ?_, fun i cp hi hcp => ?_⟩
  · rw [load_congr fun x _ _ => heq x (by omega) (by omega)]
    exact h.mbr
  · rw [read_congr fun x _ _ => heq x (by omega) (by omega)]
    exact h.signature
  · rw [load_congr fun x _ _ => heq x (by omega) (by omega)]
    exact h.startEntryArray
  · rw [load_congr fun x _ _ => heq x (by omega) (by omega)]
    exact h.numEntries
  · obtain ⟨name, hname, hentry⟩ := h.entries i cp hi hcp
    have hlow : 440 ≤ 1024 + 128 * i := by omega
    have hhigh : 1024 + 128 * i + 128 ≤ 1024 + 128 * k := by omega
    exact ⟨name, hname,
      hentry.congr fun x h1 h2 => heq x (hlow.trans h1) (h2.trans_le hhigh)⟩

theorem Announced.congr {lba other : Nat} (h : Announced config m lba other)
    (heq : ∀ x, lba * 512 ≤ x → x < lba * 512 + 92 → m' x = m x) :
    Announced config m' lba other := by
  have hload : ∀ k w, k + w ≤ 92 → load m' (lba * 512 + k) w = load m (lba * 512 + k) w := by
    intro k w hw
    refine load_congr fun x h1 h2 => heq x (Nat.le_trans (Nat.le_add_right _ _) h1) ?_
    rw [Nat.add_assoc] at h2
    exact h2.trans_le (Nat.add_le_add_left hw _)
  have hsum : read (fill m' (lba * 512 + 16) 4 0) (lba * 512) 92
      = read (fill m (lba * 512 + 16) 4 0) (lba * 512) 92 :=
    read_congr fun x h1 h2 => by
      unfold fill
      rw [heq x h1 h2]
  refine ⟨?_, ?_, ?_, ?_, ?_, ?_⟩
  · rw [hload _ _ (by omega), hsum]
    exact h.headerCRC32
  · rw [hload _ _ (by omega)]
    exact h.crc32EntryArray
  · rw [hload _ _ (by omega)]
    exact h.startEntryArray
  · rw [hload _ _ (by omega)]
    exact h.numEntries
  · rw [hload _ _ (by omega)]
    exact h.thisLBA
  · rw [hload _ _ (by omega)]
    exact h.alternateLBA

/-- The record in the first sector that protects the disk: of the kind that says so, from sector 1
on. -/
structure Protective (m : Mem) : Prop where
  kind : load m 450 1 = 0xEE
  first : load m 454 4 = 1

theorem Protective.congr (h : Protective m) (heq : ∀ x, 440 ≤ x → x < 512 → m' x = m x) :
    Protective m' := by
  refine ⟨?_, ?_⟩
  · rw [load_congr fun x _ _ => heq x (by omega) (by omega)]
    exact h.kind
  · rw [load_congr fun x _ _ => heq x (by omega) (by omega)]
    exact h.first

/-- The table of a disk, in both places. -/
structure Tabled (config : GPTConfig) (m : Mem) (placed : List PartitionConfig) : Prop where
  protective : Protective m
  table : TableAt m config.fitting placed
  array : read m 1024 (128 * config.fitting) = config.entryArray
  primary : Announced config m 1 (config.volume.toNat - 1)
  backup : Announced config m (config.volume.toNat - 1) 1

/-- The bytes a table is about. -/
def GPTConfig.IsTable (config : GPTConfig) (x : Nat) : Prop :=
  (440 ≤ x ∧ x < 1024 + 128 * config.fitting)
    ∨ ((config.volume.toNat - 1) * 512 ≤ x ∧ x < (config.volume.toNat - 1) * 512 + 92)

theorem Tabled.congr (h : Tabled config m placed)
    (heq : ∀ x, config.IsTable x → m' x = m x) : Tabled config m' placed := by
  refine ⟨h.protective.congr fun x h1 h2 => heq x (Or.inl ⟨h1, by omega⟩),
    h.table.congr fun x h1 h2 => heq x (Or.inl ⟨h1, h2⟩), ?_,
    h.primary.congr fun x _ _ => heq x (Or.inl (by omega)),
    h.backup.congr fun x h1 h2 => heq x (Or.inr ⟨h1, h2⟩)⟩
  rw [read_congr fun x _ h2 => heq x (Or.inl ⟨by omega, h2⟩)]
  exact h.array

/-! ### What a reader finds -/

section Found

variable (h : Tabled config m placed) (hlen : config.fitting ≤ placed.length)
  (hfew : config.fitting < 2 ^ 32)
include h hfew

include hlen in
theorem Tabled.parse {heap : Heap} (hheap : heap.Succeeds) :
    GPTParse heap m = .ok (UInt64.ofNat config.fitting, placed.take config.fitting) := by
  have hparse := parse_eq hheap h.table hlen
  rwa [Nat.mod_eq_of_lt hfew] at hparse

theorem Tabled.headers : HeaderAt m 1 (config.volume.toNat - 1)
    ∧ HeaderAt m (config.volume.toNat - 1) 1
    ∧ ∀ heap, partitionsAt heap m 1 = partitionsAt heap m (config.volume.toNat - 1) := by
  have hcrc := GPTConfig.Checked.crc (Or.inl hfew) (show config.entryArray.length
    = 128 * config.fitting by rw [← h.array, length_read])
  refine ⟨(h.primary.headerAt_iff h.array).mpr hcrc, (h.backup.headerAt_iff h.array).mpr hcrc,
    fun heap => ?_⟩
  unfold partitionsAt
  rw [h.primary.startEntryArray, h.primary.numEntries, h.backup.startEntryArray, h.backup.numEntries]

end Found

/-! ### What is generated -/

theorem createProtectGPT_protective (buf : Mem) (nBlock : UInt64) :
    Protective (createProtectGPT buf 0 BLOCK_SIZE nBlock) := by
  have hfield : ∀ f ∈ mbrFields BLOCK_SIZE nBlock,
      read (createProtectGPT buf 0 BLOCK_SIZE nBlock) (0 + f.off) f.bytes.length = f.bytes :=
    fun f hf => read_put _ 0 _ (packed_mbr_apart _ _) hf
  refine ⟨?_, ?_⟩
  · exact congrArg leNat (hfield (.int 450 1 0xEE) (by simp [mbrFields]))
  · exact congrArg leNat (hfield (.int 454 4 1) (by simp [mbrFields]))

/-- Where a partition that was placed lies. -/
structure Within (config : GPTConfig) (q : PartitionConfig) : Prop where
  start : 2 + config.arraySectors ≤ q.startLBA.toNat
  stop : q.startLBA.toNat + q.volume.toNat ≤ config.volume.toNat - 2

/-- **What `GPTGenerate` leaves behind**: a table, and every sector behind the entry array but the
last one as it was, up to the bytes the loop over the entries clears. -/
theorem generate_tabled (buf : Mem) (h : config.Servable) : ∃ k buf' placed last,
    GPTGenerate buf config = .ok (k, buf', placed) ∧ k.toNat = config.fitting
      ∧ Placed config.partitions (2 + config.arraySectors) config.room config.fitting last placed
      ∧ Tabled config buf' placed
      ∧ ∀ x, (2 + config.arraySectors) * 512 + 128 * (config.fitting - 1) ≤ x →
        x < (config.volume.toNat - 1) * 512 ∨ config.volume.toNat * 512 ≤ x → buf' x = buf x := by
  have hfits := h.fits
  have hlast := lastSector_eq hfits
  have hpos := arraySectors_pos h.nonempty
  have hnames : ∀ cp ∈ config.partitions, ∃ name, cp.name = some name ∧ name.length ≤ 36 := by
    intro cp hcp
    obtain ⟨name, hname, hshort, -⟩ := h.names cp hcp
    exact ⟨name, hname, hshort⟩
  obtain ⟨k, buf', placed, last, hgen, hk, hp, hbehind⟩ := generate_behind hnames buf h.nonempty hfits
  obtain ⟨k', last', m₁, placed', hgen₁, hp₁, -, htable⟩ := generate_eq h buf
  obtain ⟨k₂, m₂, placed₂, hgen₂, hprimary, hbackup, harray⟩ := generate_announced buf h
  -- The three describe one call.
  rw [hgen] at hgen₁ hgen₂
  obtain ⟨-, hsame₁⟩ := Prod.mk.inj (Except.ok.inj hgen₁)
  obtain ⟨rfl, rfl⟩ := Prod.mk.inj hsame₁
  obtain ⟨-, hsame₂⟩ := Prod.mk.inj (Except.ok.inj hgen₂)
  obtain ⟨rfl, rfl⟩ := Prod.mk.inj hsame₂
  obtain rfl := hp₁.fitting
  rw [hk] at hp
  refine ⟨k, _, _, last, hgen, hk, hp, ⟨?_, htable, harray, hprimary, hbackup⟩, fun x h1 h2 => ?_⟩
  · -- Nothing in the first sector is written after the record.
    obtain ⟨nS, n, last₃, placed₃, -, -, -, hshape⟩ := generate_shape buf h.nonempty hfits
    rw [hgen] at hshape
    cases hm : writeEntries nS (placed₃.take n)
        (createProtectGPT buf 0 BLOCK_SIZE config.volume) 1024 with
    | error e => simp [hm, bind, Except.bind] at hshape
    | ok m =>
        rw [hm] at hshape
        obtain ⟨-, hsame₃⟩ := Prod.mk.inj (Except.ok.inj hshape)
        obtain ⟨rfl, -⟩ := Prod.mk.inj hsame₃
        refine (createProtectGPT_protective buf config.volume).congr fun x h1 h2 => ?_
        rw [writeHeaders_out (by omega) (by omega)]
        exact (writeEntries_lba nS _ _ m 1024 hm).1 x (by omega)
  · have hlow := Nat.le_trans (Nat.le_add_right _ _) h1
    rw [hbehind x hlow h2, if_neg (Nat.not_lt.mpr h1)]

end LinuxUtil.Gpt
