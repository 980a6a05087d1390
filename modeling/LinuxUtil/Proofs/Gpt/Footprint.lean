/-
Which bytes `GPTGenerate` changes.

It is to write the table and nothing else: the first two sectors, the entry array and
the last sector.  The headers do keep to that.  The loop over the entries does not:
every round clears as many bytes as the whole array has, starting with its own entry,
so the last of `k` rounds reaches `128 * (k - 1)` bytes behind the array, into the first
partition.  `writeEntries_behind` says what is there afterwards, and `metadataOnly_iff`
that the table alone is written exactly when these bytes were zero already.
-/
import LinuxUtil.Proofs.Gpt.Usable
import Mathlib.Data.Nat.Find

namespace LinuxUtil.Gpt

open ByteMem

/-! ### How many partitions fit -/

/-- How many partitions fit, one behind the other. -/
def GPTConfig.fitting (config : GPTConfig) : Nat :=
  Nat.findGreatest (fun j => volumeTo config.partitions j ≤ config.room) config.partitions.length

section Fitting

variable {config : GPTConfig}

theorem Placed.fitting {start k last : Nat} {placed : List PartitionConfig}
    (hp : Placed config.partitions start config.room k last placed) : config.fitting = k := by
  refine Nat.findGreatest_eq_iff.mpr ⟨hp.le, fun _ => hp.fits, fun j hk hj hfit => ?_⟩
  have := hp.maximal hj hfit
  omega

/-- Partitions that are not empty take up at least a sector each. -/
theorem le_volumeTo {cps : List PartitionConfig} (hvol : ∀ cp ∈ cps, 1 ≤ cp.volume.toNat) {i : Nat}
    (hi : i ≤ cps.length) : i ≤ volumeTo cps i := by
  induction i with
  | zero => exact Nat.zero_le _
  | succ i ih =>
      have hcp : cps[i]? = some cps[i] := List.getElem?_eq_getElem (by omega)
      have h1 := hvol _ (List.mem_of_getElem? hcp)
      have h2 := ih (by omega)
      rw [volumeTo_succ hcp]
      omega

theorem fitting_le_room (hvol : ∀ cp ∈ config.partitions, 1 ≤ cp.volume.toNat) :
    config.fitting ≤ config.room := by
  have hle : config.fitting ≤ config.partitions.length := Nat.findGreatest_le _
  have hfit : volumeTo config.partitions config.fitting ≤ config.room :=
    Nat.findGreatest_spec (P := fun j => volumeTo config.partitions j ≤ config.room)
      (Nat.zero_le _) (by simp [volumeTo])
  exact Nat.le_trans (le_volumeTo hvol hle) hfit

end Fitting

/-! ### Behind the entries -/

/-- Behind its own entry a round of the loop only clears. -/
theorem entryImage_behind (m : Mem) (nS : UInt64) (e : Nat) (cp : PartitionConfig)
    {name : List UInt8} (hshort : name.length ≤ 36) {x : Nat} (hx : e + 128 ≤ x) :
    entryImage m nS e cp name x = if x < e + (nS * BLOCK_SIZE).toNat then 0 else m x := by
  have hlen : (name.flatMap fun ch => [ch, 0]).length ≤ 72 := by
    rw [List.length_flatMap]
    simp
    omega
  unfold entryImage writePartitionName
  rw [write_apply_of_out _ _ _ (Or.inr (by omega)), entryFields_out _ _ _ (Or.inr (by omega))]
  by_cases hin : x < e + (nS * BLOCK_SIZE).toNat
  · rw [if_pos hin, fill_apply_of_in _ _ _ _ (by omega) hin]
  · rw [if_neg hin, fill_apply_of_out _ _ _ _ (Or.inr (by omega))]

/-- Behind all entries, what the last round reaches is cleared. -/
theorem writeEntries_behind (nS : UInt64) :
    ∀ (cps : List PartitionConfig) (m : Mem) (e : Nat),
      (∀ cp ∈ cps, ∃ name, cp.name = some name ∧ name.length ≤ 36) →
      ∃ m', writeEntries nS cps m e = .ok m'
        ∧ ∀ x, e + 128 * cps.length ≤ x →
          m' x = if x + 128 < e + 128 * cps.length + (nS * BLOCK_SIZE).toNat ∧ 0 < cps.length then 0
            else m x := by
  intro cps
  induction cps with
  | nil => intro m e _; exact ⟨m, rfl, fun x _ => by simp⟩
  | cons cp cps ih =>
      intro m e hnames
      obtain ⟨name, hname, hshort⟩ := hnames cp List.mem_cons_self
      obtain ⟨m', hm', hbehind⟩ := ih (entryImage m nS e cp name) (e + 128)
        fun cp' hcp => hnames cp' (List.mem_cons_of_mem cp hcp)
      refine ⟨m', ?_, fun x hx => ?_⟩
      · unfold writeEntries
        rw [writeEntry_eq m nS e hname]
        exact hm'
      · rw [List.length_cons] at hx ⊢
        rw [hbehind x (by omega), entryImage_behind m nS e cp hshort (by omega)]
        -- The last round clears what the rounds before it have cleared there.
        by_cases hlast : 0 < cps.length
        · by_cases hin : x + 128 < e + 128 + 128 * cps.length + (nS * BLOCK_SIZE).toNat
          · rw [if_pos ⟨hin, hlast⟩, if_pos (by omega)]
          · rw [if_neg (fun hc => hin hc.1), if_neg (by omega), if_neg (by omega)]
        · rw [if_neg (fun hc => hlast hc.2)]
          congr 1
          exact propext (by omega)

/-! ### The footprint -/

/-- Sectors 0 and 1, the entry array, and the last sector. -/
def GPTConfig.IsMetadata (config : GPTConfig) (x : Nat) : Prop :=
  x < 2 * 512 ∨ (2 * 512 ≤ x ∧ x < (2 + config.arraySectors) * 512)
    ∨ ((config.volume.toNat - 1) * 512 ≤ x ∧ x < config.volume.toNat * 512)

/-- `GPTGenerate` returns with every other byte as it was: in particular those of the partitions it
placed and of the reserved sector. -/
def MetadataOnly (buf : Mem) (config : GPTConfig) : Prop :=
  ∃ k buf' placed, GPTGenerate buf config = .ok (k, buf', placed)
    ∧ (∀ x, ¬ config.IsMetadata x → buf' x = buf x)
    ∧ (∀ i q x, i < k.toNat → placed[i]? = some q → q.startLBA.toNat * 512 ≤ x →
        x < (q.startLBA.toNat + q.volume.toNat) * 512 → buf' x = buf x)
    ∧ ∀ x, (config.volume.toNat - 2) * 512 ≤ x → x < (config.volume.toNat - 1) * 512 →
        buf' x = buf x

/-- The bytes behind the entry array that the loop reaches are zero. -/
def GPTConfig.Cleared (config : GPTConfig) (buf : Mem) : Prop :=
  ∀ x, (2 + config.arraySectors) * 512 ≤ x →
    x < (2 + config.arraySectors) * 512 + 128 * (config.fitting - 1) → buf x = 0

section Footprint

variable {buf : Mem} {config : GPTConfig}
  (hnames : ∀ cp ∈ config.partitions, ∃ name, cp.name = some name ∧ name.length ≤ 36)
include hnames

/-- What a call that gets past the check leaves behind the entry array. -/
theorem generate_behind (buf : Mem) (hne : config.partitions ≠ [])
    (hfits : 4 + config.arraySectors ≤ config.volume.toNat) :
    ∃ k buf' placed last, GPTGenerate buf config = .ok (k, buf', placed)
      ∧ k.toNat = config.fitting
      ∧ Placed config.partitions (2 + config.arraySectors) config.room k.toNat last placed
      ∧ ∀ x, (2 + config.arraySectors) * 512 ≤ x →
        x < (config.volume.toNat - 1) * 512 ∨ config.volume.toNat * 512 ≤ x →
        buf' x = if x < (2 + config.arraySectors) * 512 + 128 * (config.fitting - 1) then 0
          else buf x := by
  have hlast := lastSector_eq hfits
  have hlen := config.partitions_fit
  obtain ⟨nS, k, last, placed, hclear, hp, -, hgen⟩ := generate_shape buf hne hfits
  have hk := hp.fitting
  have hle := hp.le
  have hk64 : (UInt64.ofNat k).toNat = k := UInt64.toNat_ofNat_of_lt' (show _ < 2 ^ 64 by omega)
  obtain ⟨m, hm, hbehind⟩ := writeEntries_behind nS (placed.take k)
    (createProtectGPT buf 0 BLOCK_SIZE config.volume) 1024 (by
      intro q hq
      obtain ⟨cp, hcp, start, rfl⟩ := hp.mem_take hq
      exact hnames cp hcp)
  have hcount : (placed.take k).length = k := by
    rw [List.length_take, hp.length]
    omega
  have hk4 : k ≤ 4 * config.arraySectors := by
    unfold GPTConfig.arraySectors
    omega
  rw [hm] at hgen
  refine ⟨_, _, _, last.toNat, hgen, by rw [hk64, hk], by rwa [hk64], fun x hlo hhi => ?_⟩
  have hmbr : createProtectGPT buf 0 BLOCK_SIZE config.volume x = buf x := by
    unfold createProtectGPT
    rw [put_apply_of_out _ _ _ ?_, fill_apply_of_out _ _ _ _ (Or.inr (by omega))]
    intro f hf
    right
    simp only [mbrFields, List.mem_cons, List.not_mem_nil, or_false] at hf
    rcases hf with rfl | rfl | rfl | rfl | rfl | rfl | rfl | rfl | rfl <;>
      simp only [Field.int, length_leBytes] <;> omega
  rw [writeHeaders_out (by omega) (by omega), hbehind x (by omega), hcount, hmbr, hk, hclear]
  congr 1
  exact propext (by omega)

variable (hvol : ∀ cp ∈ config.partitions, 1 ≤ cp.volume.toNat)
include hvol

theorem MetadataOnly.cleared (h : MetadataOnly buf config) : config.Cleared buf := by
  have hroom : config.fitting ≤ config.volume.toNat - 4 - config.arraySectors :=
    fitting_le_room hvol
  intro x hlo hhi
  by_cases hsmall : config.volume.toNat < 4 + config.arraySectors ∨ config.partitions = []
  · -- Nothing fits, and the range is empty.
    have hnone : config.fitting = 0 := by
      rcases hsmall with hsmall | hnil
      · omega
      · unfold GPTConfig.fitting
        rw [hnil]
        rfl
    omega
  · rw [not_or, Nat.not_lt] at hsmall
    obtain ⟨k, buf', placed, last, hgen, -, -, hbehind⟩ :=
      generate_behind hnames buf hsmall.2 hsmall.1
    obtain ⟨k', buf'', placed', hgen', hkeep, -⟩ := h
    rw [hgen] at hgen'
    obtain ⟨rfl, hrest⟩ := Prod.mk.inj (Except.ok.inj hgen')
    obtain ⟨rfl, rfl⟩ := Prod.mk.inj hrest
    have hend : x < (config.volume.toNat - 1) * 512 := by grind
    have h0 := hbehind x hlo (Or.inl hend)
    rw [if_pos hhi] at h0
    rw [← h0, hkeep x]
    unfold GPTConfig.IsMetadata
    omega

omit hvol in
theorem GPTConfig.Cleared.metadataOnly (h : config.Cleared buf) : MetadataOnly buf config := by
  by_cases hsmall : config.volume.toNat < 4 + config.arraySectors ∨ config.partitions = []
  · exact ⟨_, _, _, generate_small buf hsmall, fun _ _ => rfl, fun _ _ _ _ _ _ _ => rfl,
      fun _ _ _ => rfl⟩
  · rw [not_or, Nat.not_lt] at hsmall
    obtain ⟨hfits, hne⟩ := hsmall
    obtain ⟨k, buf', placed, last, hgen, -, hp, hbehind⟩ :=
      generate_behind hnames buf hne hfits
    have hstart : 2 + config.arraySectors + config.room < 2 ^ 64 := by
      have hbuf := config.buf_fits
      unfold GPTConfig.room
      omega
    have hkeep : ∀ x, (2 + config.arraySectors) * 512 ≤ x →
        x < (config.volume.toNat - 1) * 512 ∨ config.volume.toNat * 512 ≤ x →
        buf' x = buf x := by
      intro x hlo hhi
      rw [hbehind x hlo hhi]
      split
      · next hin => exact (h x hlo hin).symm
      · rfl
    refine ⟨k, buf', placed, hgen, fun x hx => ?_, fun i q x hi hq hlo hhi => ?_,
      fun x hlo hhi => hkeep x (by grind) (Or.inl hhi)⟩
    · unfold GPTConfig.IsMetadata at hx
      exact hkeep x (by omega) (by omega)
    · obtain ⟨cp, q', -, hq', -, hs⟩ := hp.startLBA hstart hi
      obtain rfl := Option.some.inj (hq'.symm.trans hq)
      have hbound := generate_bounds hgen hi hq
      have hfirst : 2 + config.arraySectors ≤ q'.startLBA.toNat := by omega
      have hlast : q'.startLBA.toNat + q'.volume.toNat ≤ config.volume.toNat - 1 := by omega
      exact hkeep x ((Nat.mul_le_mul_right 512 hfirst).trans hlo)
        (Or.inl (hhi.trans_le (Nat.mul_le_mul_right 512 hlast)))

end Footprint

/-- **Nothing but the table is written exactly when the loop has nothing to clear behind it.** -/
theorem metadataOnly_iff (buf : Mem) (config : GPTConfig)
    (hvol : ∀ cp ∈ config.partitions, 1 ≤ cp.volume.toNat)
    (hnames : ∀ cp ∈ config.partitions, ∃ name, cp.name = some name ∧ name.length ≤ 36) :
    MetadataOnly buf config ↔ config.Cleared buf :=
  ⟨MetadataOnly.cleared hnames hvol, GPTConfig.Cleared.metadataOnly hnames⟩

theorem bootDisk_short (n : Nat) (hn : n ≤ 2 ^ 32) :
    ∀ cp ∈ (bootDisk n hn).partitions, ∃ name, cp.name = some name ∧ name.length ≤ 36 := by
  intro cp hcp
  rw [List.eq_of_mem_replicate hcp]
  exact ⟨ascii "boot", rfl, by decide⟩

/-- On a zeroed disk, as the build makes them, it does not show. -/
theorem metadataOnly_zeroed : MetadataOnly (fun _ => 0) (bootDisk 2 (by decide)) :=
  (metadataOnly_iff (fun _ => 0) _ (bootDisk_servable 2 (by decide) (by decide)).volumes
    (bootDisk_short 2 (by decide))).mpr fun _ _ _ => rfl

/-- Two partitions on a disk that was in use: the first 128 bytes of the first one are lost. -/
theorem metadataOnly_fails : (∀ cp ∈ (bootDisk 2 (by decide)).partitions, 1 ≤ cp.volume.toNat)
    ∧ (∀ cp ∈ (bootDisk 2 (by decide)).partitions, ∃ name, cp.name = some name ∧ name.length ≤ 36)
    ∧ ¬ MetadataOnly (fun _ => 0xff) (bootDisk 2 (by decide)) := by
  have hserve := bootDisk_servable 2 (by decide) (by decide)
  refine ⟨hserve.volumes, bootDisk_short 2 (by decide), fun h => ?_⟩
  have hzero := h.cleared (bootDisk_short 2 (by decide)) hserve.volumes (3 * 512) (by decide)
    (by decide)
  exact absurd hzero (by decide)

end LinuxUtil.Gpt
