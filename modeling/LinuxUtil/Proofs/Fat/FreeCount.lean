/-
The free count of FSInfo against the table.

`createFAT32` computes the count from the size of both tables, `numFATSector *
numEntryPerSector - 3`, and a call lowers it by the clusters its data fills.  The data
clusters are fewer than the entries of one table, so the count starts too high by more
than it can ever be lowered: `freeCount_high` is that bound on a whole run.

A volume of more than `2 ^ 32` bytes is formatted at offsets that have wrapped.  The
writes are looked at with the offsets as they come out: they are whole sectors, so FSInfo
either keeps its count or is cleared with the root directory, and from `2 ^ 31` clusters
on, where the count wraps too, the end of the table is left as the buffer had it.
-/
import LinuxUtil.Proofs.Fat.Durable

namespace LinuxUtil.Fat

open ByteMem

variable {g : Layout} {m : Mem} {fs : List Stored}

/-- The data clusters of a volume, which have the numbers from 2 on. -/
def FATConfig.numDataCluster (config : FATConfig) : Nat :=
  (config.nSector.toNat - numResevedSector.toNat - 2 * (fatSizeInSector config).toNat)
    / config.clusterSize.toNat

/-- The data clusters whose entry in the first table is 0. -/
def FATConfig.numFreeCluster (config : FATConfig) (m : Mem) : Nat :=
  (List.range' 2 config.numDataCluster).countP
    fun c => tableEntry m (config.bytesPerSector * numResevedSector).toNat c == 0

/-- `FSInfo.freeCount` is the number of free data clusters. -/
def FATConfig.FreeCountTrue (config : FATConfig) (m : Mem) : Prop :=
  load m (config.bytesPerSector.toNat + 488) 4 = config.numFreeCluster m

/-! ### Counting in a range -/

section Count

variable {p q : Nat → Bool} {a b n : Nat}

theorem countP_range'_split (hab : a ≤ b) (hb : b ≤ a + n) : (List.range' a n).countP p
    = (List.range' a (b - a)).countP p + (List.range' b (a + n - b)).countP p := by
  have happ : List.range' a (b - a) ++ List.range' (a + (b - a)) (a + n - b) = _ :=
    List.range'_append_1
  rw [show a + (b - a) = b by omega, show b - a + (a + n - b) = n by omega] at happ
  rw [← happ, List.countP_append]

theorem countP_range'_none (h : ∀ c, a ≤ c → c < a + n → p c = false) :
    (List.range' a n).countP p = 0 := by
  rw [List.countP_eq_zero]
  intro c hc
  rw [List.mem_range'_1] at hc
  simp [h c hc.1 hc.2]

theorem countP_range'_all (h : ∀ c, a ≤ c → c < a + n → p c = true) :
    (List.range' a n).countP p = n := by
  rw [List.countP_eq_length.mpr fun c hc => ?_, List.length_range']
  rw [List.mem_range'_1] at hc
  exact h c hc.1 hc.2

theorem countP_range'_le : (List.range' a n).countP p ≤ n :=
  Nat.le_trans List.countP_le_length (Nat.le_of_eq List.length_range')

theorem countP_range'_congr (h : ∀ c, a ≤ c → c < a + n → p c = q c) :
    (List.range' a n).countP p = (List.range' a n).countP q := by
  refine List.countP_congr fun c hc => ?_
  rw [List.mem_range'_1] at hc
  rw [h c hc.1 hc.2]

/-- Two predicates that differ at one place of a range count differently there. -/
theorem countP_range'_ne {c : Nat} (hlo : a ≤ c) (hhi : c < a + n)
    (h : ∀ d, d ≠ c → p d = q d) (hp : p c = true) (hq : q c = false) :
    (List.range' a n).countP p ≠ (List.range' a n).countP q := by
  have hleft : (List.range' a (c - a)).countP p = (List.range' a (c - a)).countP q :=
    countP_range'_congr fun d _ hd => h d (by omega)
  have hright : (List.range' (c + 1) (a + n - c - 1)).countP p
      = (List.range' (c + 1) (a + n - c - 1)).countP q :=
    countP_range'_congr fun d hd _ => h d (by omega)
  rw [countP_range'_split hlo (Nat.le_of_lt hhi), countP_range'_split hlo (Nat.le_of_lt hhi),
    show a + n - c = a + n - c - 1 + 1 by omega, List.range'_succ, List.countP_cons_of_pos hp,
    List.countP_cons_of_neg (by simp [hq]), hleft, hright]
  omega

end Count

/-! ### Volumes of at most `2 ^ 32` bytes -/

section Run

theorem numDataCluster_eq {config : FATConfig} (hg : config.layout.WF) :
    config.numDataCluster = config.layout.maxCluster := by
  unfold FATConfig.numDataCluster Layout.maxCluster Layout.dataSector
  rw [fatSizeInSector_toNat hg, Nat.sub_sub]
  rfl

/-- Entries of the first table, at the offset `createFAT32` computes. -/
theorem tableEntry_first {config : FATConfig} (hg : config.layout.WF) (c : Nat) :
    tableEntry m (config.bytesPerSector * numResevedSector).toNat c = config.layout.entry m c := by
  unfold tableEntry
  rw [toNat_fat1 hg]
  rfl

/-- No entry of a chain is 0. -/
theorem Image.entry_ne_zero (h : Image g m fs) {c : Nat} (h2 : 2 ≤ c) (hc : c < g.next fs) :
    g.entry m c ≠ 0 := by
  by_cases hroot : c = 2
  · rw [hroot, h.rootChain]
    omega
  · obtain ⟨j, f, hf, hlo, hhi⟩ := exists_start fs (by omega) hc
    have hchain := h.chain j f hf (c - g.start fs j) (by omega)
    rw [show g.start fs j + (c - g.start fs j) = c by omega] at hchain
    rw [hchain]
    split <;> omega

/-- The free clusters and those handed out fit in the data clusters. -/
theorem Image.numFree_le (h : Image g m fs) :
    (List.range' 2 g.maxCluster).countP (fun c => g.entry m c == 0) + g.charged fs
      ≤ g.maxCluster := by
  by_cases hfs : fs = []
  · subst hfs
    exact countP_range'_le
  · have hfit := h.fits hfs
    have hch := charged_le_used (g := g) fs
    have hnext : g.next fs = 3 + g.used fs := rfl
    have hused : ((List.range' 2 (g.next fs - 2)).countP fun c => g.entry m c == 0) = 0 :=
      countP_range'_none fun c hlo hhi => by
        simpa using h.entry_ne_zero (c := c) hlo (by omega)
    have hrest : (List.range' (g.next fs) (2 + g.maxCluster - g.next fs)).countP
        (fun c => g.entry m c == 0) ≤ 2 + g.maxCluster - g.next fs := countP_range'_le
    rw [countP_range'_split (show 2 ≤ g.next fs by omega) (by omega), hused]
    omega

/-- The data clusters are fewer than half the entries of the two tables. -/
theorem maxCluster_lt_initialFree (hg : g.WF) : g.maxCluster < g.initialFree := by
  have h1 := hg.maxCluster_fit
  have h2 := hg.fatBytes_entries
  have h3 := initialFree_eq hg
  have hbps := hg.bps_ge
  have hpos : 1 ≤ g.fatSize := by
    by_contra hc
    have h0 : g.fatBytes = 0 := by
      unfold Layout.fatBytes
      rw [show g.fatSize = 0 by omega, Nat.zero_mul]
    have := hg.fatBytes_ge
    omega
  have h4 : 1 * 512 ≤ g.fatBytes := Nat.mul_le_mul hpos hbps
  omega

/-- **The count is too high at any point of any run.** -/
theorem freeCount_high (hg : g.WF) (h : Image g m fs) :
    (List.range' 2 g.maxCluster).countP (fun c => g.entry m c == 0)
      < load m (g.bps + 488) 4 := by
  have h1 := h.numFree_le
  have h2 := h.freeCount
  have h3 := maxCluster_lt_initialFree hg
  omega

end Run

/-! ### Formatting at offsets that have wrapped -/

/-- `formatImage` with the offsets behind the reserved sectors left open. -/
def formatAt (bps tableLen second root rootLen : Nat) (buf : Mem)
    (bpb fsInfo table : List Field) : Mem :=
  let m := put (fill buf 0 512 0) 0 bpb
  let m := copy m (6 * bps) 0 512
  let m := put m bps fsInfo
  let m := copy m (7 * bps) bps 512
  let m := fill m (8 * bps) tableLen 0
  let m := put m (8 * bps) table
  let m := put m second table
  fill m root rootLen 0

/-- `media`. -/
def FATConfig.media (config : FATConfig) : UInt8 := if config.isFixed then 0xF8 else 0xF0

theorem toNat_reserved {config : FATConfig} (hb : config.bytesPerSector.toNat ≤ 4096) {k : UInt32}
    (hk : k.toNat ≤ 8) :
    (config.bytesPerSector * k).toNat = k.toNat * config.bytesPerSector.toNat := by
  have hle : config.bytesPerSector.toNat * k.toNat ≤ 4096 * 8 := Nat.mul_le_mul hb hk
  rw [UInt32.toNat_mul, Nat.mod_eq_of_lt (by omega), Nat.mul_comm]

/-- The reserved sectors are always where they should be. -/
theorem formatImage_at (buf : Mem) {config : FATConfig} (hb : config.bytesPerSector.toNat ≤ 4096) :
    formatImage buf config = formatAt config.bytesPerSector.toNat
      (config.bytesPerSector * (fatSizeInSector config * 2)).toNat
      (config.bytesPerSector * (numResevedSector + fatSizeInSector config)).toNat
      (config.bytesPerSector * (numResevedSector + fatSizeInSector config * 2)).toNat
      (config.bytesPerSector * config.clusterSize).toNat buf
      (bpbFields config config.media (fatSizeInSector config) numResevedSector)
      (fsInfoFields (fatSizeInSector config * 2 * (config.bytesPerSector / 4) - 3))
      (tableFields config.media) := by
  have h1 : (config.bytesPerSector * 1).toNat = config.bytesPerSector.toNat := by
    rw [UInt32.mul_one]
  unfold formatImage formatAt
  simp only [h1, toNat_reserved hb (show (6 : UInt32).toNat ≤ 8 by decide),
    toNat_reserved hb (show (7 : UInt32).toNat ≤ 8 by decide),
    toNat_reserved hb (show numResevedSector.toNat ≤ 8 by decide)]
  rfl

section Wrapped

variable {bps tableLen second root rootLen : Nat} {bpb fsInfo table : List Field} (buf : Mem)
variable (hb : 512 ≤ bps) (htab : Packed 0 table 12)
include hb htab

/-- The free count survives unless the root directory is cleared over it. -/
theorem load_formatAt_fsInfo (hfs : Packed 0 fsInfo 512) (hsecond : bps ∣ second)
    (hroot : root + rootLen ≤ bps + 488 ∨ bps + 492 ≤ root) {v : Nat}
    (hmem : Field.int 488 4 v ∈ fsInfo) (hv : v < 2 ^ 32) :
    load (formatAt bps tableLen second root rootLen buf bpb fsInfo table) (bps + 488) 4 = v := by
  have hapart : second + 12 ≤ bps + 488 ∨ bps + 492 ≤ second := by
    obtain ⟨k, rfl⟩ := hsecond
    rcases Nat.lt_or_ge k 2 with hk | hk
    · have := Nat.mul_le_mul_left bps (show k ≤ 1 by omega)
      omega
    · have := Nat.mul_le_mul_left bps hk
      omega
  unfold formatAt
  rw [load_congr fun x h1 h2 => by
      rw [fill_apply_of_out _ _ _ _ (by omega), htab.put_out _ _ (by omega),
        htab.put_out _ _ (by omega), fill_apply_of_out _ _ _ _ (by omega),
        copy_apply_of_out _ _ _ _ (by omega)],
    load_put _ _ _ hfs.apart hmem, Nat.mod_eq_of_lt (by omega)]

/-- Entry 3 is cleared with the table, and nothing is put there. -/
theorem load_formatAt_entry (hsecond : bps ∣ second) (hlen : 16 ≤ tableLen) :
    load (formatAt bps tableLen second root rootLen buf bpb fsInfo table) (8 * bps + 12) 4 = 0 := by
  have hapart : second + 12 ≤ 8 * bps + 12 ∨ 8 * bps + 16 ≤ second := by
    obtain ⟨k, rfl⟩ := hsecond
    rcases Nat.lt_or_ge k 9 with hk | hk
    · have := Nat.mul_le_mul_left bps (show k ≤ 8 by omega)
      omega
    · have := Nat.mul_le_mul_left bps hk
      omega
  refine load_eq_zero fun x h1 h2 => ?_
  unfold formatAt
  by_cases hin : root ≤ x ∧ x < root + rootLen
  · exact fill_apply_of_in _ _ _ _ hin.1 hin.2
  · rw [fill_apply_of_out _ _ _ _ (by omega), htab.put_out _ _ (by omega),
      htab.put_out _ _ (by omega), fill_apply_of_in _ _ _ _ (by omega) (by omega)]

/-- Where the writes end, the buffer is as it was. -/
theorem formatAt_above (hbpb : Packed 0 bpb 512) (hfs : Packed 0 fsInfo 512) {x : Nat}
    (h8 : 8 * bps + tableLen ≤ x) (h12 : 8 * bps + 12 ≤ x) (hs : second + 12 ≤ x)
    (hr : root + rootLen ≤ x) :
    formatAt bps tableLen second root rootLen buf bpb fsInfo table x = buf x := by
  unfold formatAt
  rw [fill_apply_of_out _ _ _ _ (by omega), htab.put_out _ _ (by omega),
    htab.put_out _ _ (by omega), fill_apply_of_out _ _ _ _ (by omega),
    copy_apply_of_out _ _ _ _ (by omega), hfs.put_out _ _ (by omega),
    copy_apply_of_out _ _ _ _ (by omega), hbpb.put_out _ _ (by omega),
    fill_apply_of_out _ _ _ _ (by omega)]

omit hb htab in
/-- Below a bound that covers the reserved sectors, the bytes written depend on the buffer below
that bound only. -/
theorem formatAt_congr {buf buf' : Mem} {bound : Nat} (hbound : 8 * bps ≤ bound) (hb : 512 ≤ bps)
    (h : ∀ x, x < bound → buf x = buf' x) {x : Nat} (hx : x < bound) :
    formatAt bps tableLen second root rootLen buf bpb fsInfo table x
      = formatAt bps tableLen second root rootLen buf' bpb fsInfo table x := by
  have hfill : ∀ {m m' : Mem} (a n : Nat) {y : Nat}, m y = m' y →
      fill m a n 0 y = fill m' a n 0 y := by
    intro m m' a n y hy
    unfold fill
    rw [hy]
  have hcopy : ∀ {m m' : Mem} (dst src : Nat), src + 512 ≤ bound →
      (∀ y, y < bound → m y = m' y) → ∀ y, y < bound →
      copy m dst src 512 y = copy m' dst src 512 y := by
    intro m m' dst src hsrc hm y hy
    unfold copy
    split
    · exact hm _ (by omega)
    · exact hm y hy
  unfold formatAt
  refine hfill _ _ (put_congr _ _ (put_congr _ _ (hfill _ _ ?_)))
  refine hcopy _ _ (by omega) (fun y hy => put_congr _ _ ?_) x hx
  refine hcopy _ _ (by omega) (fun z hz => put_congr _ _ (hfill _ _ (h z hz))) y hy

end Wrapped

/-! ### Accepted configurations -/

section Accepted

variable {config : FATConfig}
variable (hb : config.layout.bps ∈ [512, 1024, 2048, 4096])
variable (hc : config.layout.spc ∈ [1, 2, 4, 8, 16, 32, 64, 128])
include hb

theorem sectorSize_bounds :
    512 ≤ config.bytesPerSector.toNat ∧ config.bytesPerSector.toNat ≤ 4096 := by
  simp only [FATConfig.layout, List.mem_cons, List.not_mem_nil, or_false] at hb
  omega

theorem fatSizeInSector_le : (fatSizeInSector config).toNat ≤ 2 ^ 25 := by
  have hdiv : (fatSizeInSector config).toNat
      = (config.nSector / config.clusterSize + config.bytesPerSector / 4 - 1).toNat
        / (config.bytesPerSector.toNat / 4) := by
    unfold fatSizeInSector cdiv
    rw [UInt32.toNat_div, UInt32.toNat_div]
    rfl
  have hlt := (config.nSector / config.clusterSize + config.bytesPerSector / 4 - 1).toNat_lt
  simp only [FATConfig.layout, List.mem_cons, List.not_mem_nil, or_false] at hb
  rw [hdiv]
  rcases hb with hb | hb | hb | hb <;> rw [hb] <;> omega

/-- Up to `2 ^ 31` clusters the size of a table does not wrap. -/
theorem fatSizeInSector_small (hn : config.layout.nSector / config.layout.spc ≤ 2 ^ 31) :
    (fatSizeInSector config).toNat = config.layout.fatSize := by
  simp only [FATConfig.layout, List.mem_cons, List.not_mem_nil, or_false] at *
  unfold fatSizeInSector cdiv
  rw [UInt32.toNat_div, UInt32.toNat_sub, UInt32.toNat_add, UInt32.toNat_div, UInt32.toNat_div,
    show (4 : UInt32).toNat = 4 from rfl, show (1 : UInt32).toNat = 1 from rfl]
  generalize config.nSector.toNat / config.clusterSize.toNat = a at *
  rcases hb with hb | hb | hb | hb <;> rw [hb] <;> omega

/-- The second table starts on a sector, wrapped or not. -/
theorem second_dvd :
    config.bytesPerSector.toNat ∣
      (config.bytesPerSector * (numResevedSector + fatSizeInSector config)).toNat := by
  simp only [FATConfig.layout, List.mem_cons, List.not_mem_nil, or_false] at hb
  rw [UInt32.toNat_mul]
  generalize (numResevedSector + fatSizeInSector config).toNat = a
  rcases hb with hb | hb | hb | hb <;> rw [hb] <;> omega

/-- The root directory starts on an even sector, so not with FSInfo. -/
theorem root_even :
    (config.bytesPerSector * (numResevedSector + fatSizeInSector config * 2)).toNat = 0
      ∨ 2 * config.bytesPerSector.toNat
        ≤ (config.bytesPerSector * (numResevedSector + fatSizeInSector config * 2)).toNat := by
  have hle := fatSizeInSector_le hb
  simp only [FATConfig.layout, List.mem_cons, List.not_mem_nil, or_false] at hb
  rw [UInt32.toNat_mul, UInt32.toNat_add, UInt32.toNat_mul,
    show numResevedSector.toNat = 8 from rfl, show (2 : UInt32).toNat = 2 from rfl]
  generalize (fatSizeInSector config).toNat = a at *
  rcases hb with hb | hb | hb | hb <;> rw [hb] <;> omega

include hc

theorem rootLen_eq : (config.bytesPerSector * config.clusterSize).toNat
    = config.layout.bps * config.layout.spc := by
  rw [UInt32.toNat_mul]
  simp only [FATConfig.layout, List.mem_cons, List.not_mem_nil, or_false] at *
  rcases hb with hb | hb | hb | hb <;>
    rcases hc with hc | hc | hc | hc | hc | hc | hc | hc <;> rw [hb, hc]

variable (h2 : 2 < config.layout.nSector / config.layout.spc)
variable (hn : config.layout.nSector / config.layout.spc ≤ 2 ^ 31)
include h2 hn

omit hc in
/-- The count `createFAT32` computes is larger than the number of data clusters. -/
theorem numDataCluster_lt : config.numDataCluster
    < (fatSizeInSector config * 2 * (config.bytesPerSector / 4) - 3).toNat := by
  have hF := fatSizeInSector_small hb hn
  have hle : config.numDataCluster ≤ config.layout.nSector / config.layout.spc :=
    Nat.div_le_div_right (Nat.le_trans (Nat.sub_le _ _) (Nat.sub_le _ _))
  rw [UInt32.toNat_sub, UInt32.toNat_mul, UInt32.toNat_mul, UInt32.toNat_div, hF,
    show (4 : UInt32).toNat = 4 from rfl, show (3 : UInt32).toNat = 3 from rfl,
    show (2 : UInt32).toNat = 2 from rfl]
  generalize config.numDataCluster = n at *
  simp only [FATConfig.layout, List.mem_cons, List.not_mem_nil, or_false] at *
  generalize config.nSector.toNat / config.clusterSize.toNat = a at *
  rcases hb with hb | hb | hb | hb <;> rw [hb] <;> omega

omit h2 in
/-- A root directory that has wrapped to the start of the volume follows long tables. -/
theorem root_zero (hroot : (config.bytesPerSector *
      (numResevedSector + fatSizeInSector config * 2)).toNat = 0) :
    16 ≤ (config.bytesPerSector * (fatSizeInSector config * 2)).toNat
      ∧ 2 ≤ config.numDataCluster := by
  have hF := fatSizeInSector_small hb hn
  rw [UInt32.toNat_mul, UInt32.toNat_add, UInt32.toNat_mul, hF,
    show numResevedSector.toNat = 8 from rfl, show (2 : UInt32).toNat = 2 from rfl] at hroot
  unfold FATConfig.numDataCluster
  rw [UInt32.toNat_mul, UInt32.toNat_mul, hF, show numResevedSector.toNat = 8 from rfl,
    show (2 : UInt32).toNat = 2 from rfl]
  have hspc : 1 ≤ config.clusterSize.toNat := by
    simp only [FATConfig.layout, List.mem_cons, List.not_mem_nil, or_false] at hc
    omega
  have hmul := Nat.div_mul_le_self config.nSector.toNat config.clusterSize.toNat
  simp only [FATConfig.layout, List.mem_cons, List.not_mem_nil, or_false] at hb hn hroot ⊢
  generalize config.nSector.toNat / config.clusterSize.toNat = a at *
  generalize hsize : (a + config.bytesPerSector.toNat / 4 - 1)
    / (config.bytesPerSector.toNat / 4) = F at *
  -- The tables take up `2 ^ 32` bytes or more, so the clusters are many.
  have hmany : 8 + 2 * F + 2 ≤ a ∧ 16 ≤ config.bytesPerSector.toNat * (F * 2 % 2 ^ 32) % 2 ^ 32 := by
    rcases hb with hb | hb | hb | hb <;> rw [hb] at hroot hsize ⊢ <;> omega
  refine ⟨hmany.2, ?_⟩
  rw [Nat.le_div_iff_mul_le hspc]
  have hsectors := Nat.le_trans (Nat.mul_le_mul_right config.clusterSize.toNat hmany.1) hmul
  have htables := Nat.le_mul_of_pos_right (8 + 2 * F) hspc
  rw [Nat.add_mul] at hsectors
  omega

omit h2 in
/-- FSInfo was cleared with the root directory, but entry 3 is free. -/
theorem untrue_of_cleared (buf : Mem)
    (hroot : (config.bytesPerSector * (numResevedSector + fatSizeInSector config * 2)).toNat = 0)
    (hlen : config.bytesPerSector.toNat + 492 ≤ (config.bytesPerSector * config.clusterSize).toNat) :
    ¬ config.FreeCountTrue (formatImage buf config) := by
  obtain ⟨hge, hle⟩ := sectorSize_bounds hb
  obtain ⟨htab, hdata⟩ := root_zero hb hc hn hroot
  have hload : load (formatImage buf config) (config.bytesPerSector.toNat + 488) 4 = 0 := by
    rw [formatImage_at buf hle]
    refine load_eq_zero fun x h1 h2 => ?_
    unfold formatAt
    exact fill_apply_of_in _ _ _ _ (by omega) (by omega)
  have hentry : tableEntry (formatImage buf config)
      (config.bytesPerSector * numResevedSector).toNat 3 = 0 := by
    unfold tableEntry
    rw [toNat_reserved hle (by decide), formatImage_at buf hle]
    exact load_formatAt_entry buf hge (packed_table _) (second_dvd hb) htab
  have hpos : 0 < config.numFreeCluster (formatImage buf config) := by
    unfold FATConfig.numFreeCluster
    rw [List.countP_pos_iff]
    exact ⟨3, List.mem_range'_1.mpr ⟨by omega, by omega⟩, by simpa using hentry⟩
  unfold FATConfig.FreeCountTrue
  omega

/-- Up to `2 ^ 31` clusters the count is wrong on every buffer. -/
theorem fresh_untrue (buf : Mem) : ¬ config.FreeCountTrue (formatImage buf config) := by
  obtain ⟨hge, hle⟩ := sectorSize_bounds hb
  have heven := root_even hb
  by_cases hkeep : (config.bytesPerSector *
        (numResevedSector + fatSizeInSector config * 2)).toNat
      + (config.bytesPerSector * config.clusterSize).toNat ≤ config.bytesPerSector.toNat + 488
      ∨ config.bytesPerSector.toNat + 492
        ≤ (config.bytesPerSector * (numResevedSector + fatSizeInSector config * 2)).toNat
  · -- FSInfo keeps the count, which is larger than the number of data clusters.
    have hcount : config.numFreeCluster (formatImage buf config) ≤ config.numDataCluster :=
      Nat.le_trans List.countP_le_length (by simp)
    have hlt := numDataCluster_lt hb h2 hn
    have hload : load (formatImage buf config) (config.bytesPerSector.toNat + 488) 4
        = (fatSizeInSector config * 2 * (config.bytesPerSector / 4) - 3).toNat := by
      rw [formatImage_at buf hle]
      exact load_formatAt_fsInfo buf hge (packed_table _) (packed_fsInfo _) (second_dvd hb) hkeep
        (by simp [fsInfoFields]) (UInt32.toNat_lt _)
    unfold FATConfig.FreeCountTrue
    omega
  · refine untrue_of_cleared hb hc hn buf (by omega) ?_
    -- A root directory of one sector ends before FSInfo.
    have hlen := rootLen_eq hb hc
    have hbps : config.layout.bps = config.bytesPerSector.toNat := rfl
    have hspc : 2 ≤ config.layout.spc := by
      by_contra hone
      have h1 : config.layout.spc ≤ 1 := by omega
      have := Nat.mul_le_mul_left config.layout.bps h1
      omega
    have := Nat.mul_le_mul_left config.layout.bps hspc
    omega

end Accepted

/-! ### More than `2 ^ 31` clusters -/

/-- An entry that no write of `createFAT32` reaches. -/
def untouchedEntry : Nat := 2 ^ 30 + 2 ^ 18

/-- A buffer that has one bit set, in the entry of the first table that is not reached. -/
def markedBuffer (config : FATConfig) : Mem :=
  fun x => if x = 8 * config.bytesPerSector.toNat + 4 * untouchedEntry then 1 else 0

section Large

variable {config : FATConfig} (hb : config.layout.bps ∈ [512, 1024, 2048, 4096])
variable (hc : config.layout.spc ∈ [1, 2, 4, 8, 16, 32, 64, 128])
include hb hc

/-- All writes end below `2 ^ 32` and a few sectors. -/
theorem formatImage_above (buf : Mem) {x : Nat} (hx : 2 ^ 32 + 2 ^ 20 ≤ x) :
    formatImage buf config x = buf x := by
  obtain ⟨hge, hle⟩ := sectorSize_bounds hb
  have hlen : (config.bytesPerSector * config.clusterSize).toNat ≤ 4096 * 128 := by
    rw [rootLen_eq hb hc]
    simp only [FATConfig.layout, List.mem_cons, List.not_mem_nil, or_false] at hb hc ⊢
    exact Nat.mul_le_mul (by omega) (by omega)
  have h1 := (config.bytesPerSector * (fatSizeInSector config * 2)).toNat_lt
  have h2 := (config.bytesPerSector * (numResevedSector + fatSizeInSector config)).toNat_lt
  have h3 := (config.bytesPerSector * (numResevedSector + fatSizeInSector config * 2)).toNat_lt
  rw [formatImage_at buf hle]
  exact formatAt_above buf hge (packed_table _) (packed_bpb _ _ _ _) (packed_fsInfo _)
    (by omega) (by omega) (by omega) (by omega)

/-- The marked buffer ends up as the zeroed one, but for the mark. -/
theorem formatImage_marked {x : Nat}
    (hx : x ≠ 8 * config.bytesPerSector.toNat + 4 * untouchedEntry) :
    formatImage (markedBuffer config) config x = formatImage (fun _ => 0) config x := by
  obtain ⟨hge, hle⟩ := sectorSize_bounds hb
  rcases Nat.lt_or_ge x (2 ^ 32 + 2 ^ 20) with hlt | hhigh
  · rw [formatImage_at _ hle, formatImage_at _ hle]
    have hbound : 8 * config.bytesPerSector.toNat ≤ 2 ^ 32 + 2 ^ 20 := by omega
    refine formatAt_congr hbound hge (fun y hy => ?_) hlt
    unfold markedBuffer untouchedEntry
    rw [if_neg (by omega)]
  · rw [formatImage_above hb hc _ hhigh, formatImage_above hb hc _ hhigh]
    unfold markedBuffer
    rw [if_neg hx]

theorem entry_zeroed :
    tableEntry (formatImage (fun _ => 0) config) (8 * config.bytesPerSector.toNat) untouchedEntry
      = 0 :=
  load_eq_zero fun x h1 _ => formatImage_above hb hc _ (by unfold untouchedEntry at h1; omega)

theorem entry_marked :
    tableEntry (formatImage (markedBuffer config) config) (8 * config.bytesPerSector.toNat)
      untouchedEntry ≠ 0 := by
  unfold tableEntry load
  rw [read_succ, formatImage_above hb hc _ (by unfold untouchedEntry; omega)]
  unfold markedBuffer
  rw [if_pos rfl, leNat]
  simp

/-- Beyond `2 ^ 31` clusters the end of the table is what the buffer had there, so of two buffers
that differ in one entry of it at least one gets a wrong count. -/
theorem fresh_untrue_of_large (hn : 2 ^ 31 < config.layout.nSector / config.layout.spc) :
    ¬ config.FreeCountTrue (formatImage (fun _ => 0) config)
      ∨ ¬ config.FreeCountTrue (formatImage (markedBuffer config) config) := by
  obtain ⟨hge, hle⟩ := sectorSize_bounds hb
  have hF := fatSizeInSector_le hb
  have hspc : config.clusterSize.toNat = 1 := by
    have := config.nSector.toNat_lt
    simp only [FATConfig.layout, List.mem_cons, List.not_mem_nil, or_false] at hc hn
    rcases hc with hc | hc | hc | hc | hc | hc | hc | hc <;> rw [hc] at hn ⊢ <;> omega
  have hdata : untouchedEntry < 2 + config.numDataCluster := by
    unfold FATConfig.numDataCluster untouchedEntry
    simp only [FATConfig.layout] at hn
    rw [hspc, Nat.div_one] at hn ⊢
    rw [show numResevedSector.toNat = 8 from rfl]
    omega
  have hfirst : (config.bytesPerSector * numResevedSector).toNat
      = 8 * config.bytesPerSector.toNat := toNat_reserved hle (by decide)
  have hcount : config.numFreeCluster (formatImage (fun _ => 0) config)
      ≠ config.numFreeCluster (formatImage (markedBuffer config) config) := by
    unfold FATConfig.numFreeCluster
    rw [hfirst]
    refine countP_range'_ne (c := untouchedEntry) (by decide) hdata ?_ ?_ ?_
    · intro d hd
      have hload : tableEntry (formatImage (markedBuffer config) config)
          (8 * config.bytesPerSector.toNat) d
          = tableEntry (formatImage (fun _ => 0) config) (8 * config.bytesPerSector.toNat) d :=
        load_congr fun x _ _ => formatImage_marked hb hc (by omega)
      rw [hload]
    · simpa using entry_zeroed hb hc
    · simpa using entry_marked hb hc
  have hfree : load (formatImage (markedBuffer config) config)
      (config.bytesPerSector.toNat + 488) 4
      = load (formatImage (fun _ => 0) config) (config.bytesPerSector.toNat + 488) 4 :=
    load_congr fun x _ _ => formatImage_marked hb hc (by unfold untouchedEntry; omega)
  unfold FATConfig.FreeCountTrue
  omega

end Large

/-! ### No configuration -/

theorem createFAT32_any {buf image : Mem} {config : FATConfig}
    (h : createFAT32 buf config = .ok (0, image)) (buf' : Mem) :
    createFAT32 buf' config = .ok (0, formatImage buf' config) := by
  unfold createFAT32 at h ⊢
  by_cases hv : configValid config = true
  · rw [if_pos hv] at h ⊢
    by_cases hc : config.nSector / config.clusterSize > 2
    · simp [assert, hc, bind, Except.bind, pure, Except.pure]
    · simp [assert, hc, bind, Except.bind] at h
  · rw [if_neg hv] at h
    simp [pure, Except.pure] at h

/-- **The free count is never true.**  No configuration that is accepted has it right on every
buffer.  Up to `2 ^ 31` clusters it is wrong on every buffer, and on a volume of at most
`2 ^ 32` bytes after every sequence of calls too. -/
theorem freeCount_untrue {buf image : Mem} {config : FATConfig}
    (hc : createFAT32 buf config = .ok (0, image)) :
    (∃ buf' image', createFAT32 buf' config = .ok (0, image') ∧ ¬ config.FreeCountTrue image')
      ∧ (config.nSector.toNat / config.clusterSize.toNat ≤ 2 ^ 31 → ¬ config.FreeCountTrue image)
      ∧ (config.nSector.toNat * config.bytesPerSector.toNat ≤ 2 ^ 32 →
          ∀ calls m done, run image calls = .ok (m, done) → ¬ config.FreeCountTrue m) := by
  obtain ⟨himage, -, hb, hs, h2⟩ := createFAT32_accepts hc
  refine ⟨?_, ?_, ?_⟩
  · rcases Nat.lt_or_ge (2 ^ 31) (config.layout.nSector / config.layout.spc) with hn | hn
    · rcases fresh_untrue_of_large hb hs hn with hfalse | hfalse
      · exact ⟨_, _, createFAT32_any hc _, hfalse⟩
      · exact ⟨_, _, createFAT32_any hc _, hfalse⟩
    · exact ⟨_, _, createFAT32_any hc buf, fresh_untrue hb hs h2 hn buf⟩
  · intro hn
    rw [himage]
    exact fresh_untrue hb hs h2 hn buf
  · intro hsize calls m done hrun
    obtain ⟨hg, fs, himg, -⟩ := reached_layout hc hsize hrun
    have hhigh := freeCount_high hg himg
    have hload : load m (config.bytesPerSector.toNat + 488) 4
        = load m (config.layout.bps + 488) 4 := rfl
    unfold FATConfig.FreeCountTrue FATConfig.numFreeCluster
    rw [numDataCluster_eq hg, hload]
    simp only [tableEntry_first hg]
    omega

theorem smallVolume_freeCount :
    load (formatImage (fun _ => 0) smallVolume) (512 + 488) 4 = 253 := by
  obtain ⟨-, himg⟩ :=
    createFAT32_image (show createFAT32 (fun _ => 0) smallVolume = .ok (0, _) from rfl) (by decide)
  exact himg.freeCount

theorem smallVolume_numFree :
    smallVolume.numFreeCluster (formatImage (fun _ => 0) smallVolume) = 53 := by
  decide +kernel

/-- On the volume of 64 sectors FSInfo says 253, and 53 of the 54 data clusters are free. -/
theorem freeCount_untrue_small :
    createFAT32 (fun _ => 0) smallVolume = .ok (0, formatImage (fun _ => 0) smallVolume)
      ∧ load (formatImage (fun _ => 0) smallVolume) (512 + 488) 4 = 253
      ∧ smallVolume.numFreeCluster (formatImage (fun _ => 0) smallVolume) = 53
      ∧ ¬ smallVolume.FreeCountTrue (formatImage (fun _ => 0) smallVolume) :=
  ⟨rfl, smallVolume_freeCount, smallVolume_numFree,
    (freeCount_untrue (show createFAT32 (fun _ => 0) smallVolume = .ok (0, _) from rfl)).2.1
      (by decide)⟩

/-- So it is not true of every configuration, buffer and run of successful calls. -/
theorem freeCount_counterexample :
    ¬ ∀ (buf image : Mem) (config : FATConfig) (calls : List Call) (m : Mem),
      createFAT32 buf config = .ok (0, image) → run image calls = .ok (m, calls) →
      config.FreeCountTrue m := by
  intro h
  have htrue := h (fun _ => 0) _ smallVolume [] _ rfl rfl
  have hfree : load (formatImage (fun _ => 0) smallVolume) (512 + 488) 4 = 53 :=
    htrue.trans smallVolume_numFree
  rw [smallVolume_freeCount] at hfree
  omega

end LinuxUtil.Fat
