/-
What `FAT32Copyin` accepts, and where it stops.

A file is refused by its size in 32 bits, against the clusters up to `maxCluster`, where
the numbers of the data clusters go on for two more.  `accepts_iff` compares this test with
the clusters that are free, on every image reached by calls that write below `2 ^ 32`.  The
assertions of a call are looked at in `assertions_iff`: two of them can fail, the one on the
counters of a volume without a usable cluster, and the one on the last cluster of an empty
file.
-/
import LinuxUtil.Proofs.Fat.Ledger

namespace LinuxUtil.Fat

open ByteMem

variable {g : Layout} {m m' : Mem} {next charged : Nat}

namespace FATConfig

/-! ### What a call looks at -/

/-- Bytes of a cluster. -/
def bytesPerCluster (config : FATConfig) : Nat :=
  config.clusterSize.toNat * config.bytesPerSector.toNat

/-- `FSInfo.nextFree`. -/
def nextFree (config : FATConfig) (m : Mem) : Nat := load m (config.bytesPerSector.toNat + 492) 4

/-- `maxFileSize`, in 32 bits. -/
def maxFileSize (config : FATConfig) (m : Mem) : Nat :=
  config.bytesPerCluster * (config.numDataCluster - config.nextFree m) % 2 ^ 32

/-- `dataOffset`, where the root directory starts. -/
def dataOffset (config : FATConfig) : Nat :=
  (config.bytesPerSector * (numResevedSector + fatSizeInSector config * 2)).toNat

/-- An entry of the root directory is free. -/
def HasRootEntry (config : FATConfig) (m : Mem) : Prop :=
  ∃ i, i < config.bytesPerCluster / 32 ∧ m (config.dataOffset + 32 * i) = 0

/-- There are a root entry and clusters for a file of `size` bytes. -/
def Fits (config : FATConfig) (m : Mem) (size : Nat) : Prop :=
  config.HasRootEntry m
    ∧ (size + config.bytesPerCluster - 1) / config.bytesPerCluster ≤ config.numFreeCluster m

/-- The call accepts its file if it fits, and refuses it with `EDQUOT` if not. -/
def AcceptsFitting (config : FATConfig) (m : Mem) (fd : Fd) (name : List UInt8) (attr : UInt32)
    (size : Nat) : Prop :=
  ∃ r, FAT32Copyin m fd name attr = .ok r ∧ (r.ret ≠ 0 ↔ config.Fits m size)
    ∧ (r.ret = 0 → r.errno = some EDQUOT)

/-- A file of `size` bytes that passes the tests starts at an offset that does not wrap. -/
def Addressed (config : FATConfig) (m : Mem) (size : Nat) : Prop :=
  config.nextFree m ≤ config.numDataCluster → size % 2 ^ 32 ≤ config.maxFileSize m →
    config.HasRootEntry m →
    config.dataOffset + config.bytesPerCluster * (config.nextFree m - 2) < 2 ^ 32

/-- The tests are right about a file of `size` bytes: it is not refused for the last clusters,
accepted for what is left of its size in 32 bits, or empty and without a cluster. -/
def Gauged (config : FATConfig) (m : Mem) (size : Nat) : Prop :=
  config.nextFree m ≤ config.numDataCluster ∧ (config.HasRootEntry m →
    ¬ (config.maxFileSize m < size % 2 ^ 32
        ∧ size ≤ config.bytesPerCluster * config.numFreeCluster m)
      ∧ ¬ (size % 2 ^ 32 ≤ config.maxFileSize m
        ∧ config.bytesPerCluster * config.numFreeCluster m < size)
      ∧ ¬ (size % 2 ^ 32 = 0 ∧ config.nextFree m = config.numDataCluster))

end FATConfig

/-! ### On an image with a ledger -/

section Ledger

variable {config : FATConfig} (hg : config.layout.WF)
include hg

theorem dataOffset_eq : config.dataOffset = config.layout.data := by
  unfold FATConfig.dataOffset
  rw [fatSizeInSector_eq hg, toNat_data hg]

theorem hasRootEntry_iff : config.HasRootEntry m ↔
    firstFreeEntry m config.layout.data (config.layout.bpc / 32) < config.layout.bpc / 32 := by
  have hle := firstFreeEntry_le m config.layout.data (config.layout.bpc / 32)
  have hfull : firstFreeEntry m config.layout.data (config.layout.bpc / 32) = _ ↔ _ :=
    firstFreeEntry_eq_length
  unfold FATConfig.HasRootEntry
  rw [dataOffset_eq hg]
  constructor
  · rintro ⟨i, hi, h0⟩
    refine Nat.lt_of_le_of_ne hle fun heq => hfull.mp heq i hi h0
  · intro hlt
    exact ⟨_, hlt, firstFreeEntry_zero hlt⟩

variable (h : Ledger config.layout m next charged)
include h

theorem Ledger.maxFileSize_eq : config.maxFileSize m = config.layout.quota next := by
  unfold FATConfig.maxFileSize Layout.quota
  rw [numDataCluster_eq hg, show config.nextFree m = next from h.nextFree]
  rfl

theorem Ledger.addressed_iff {size : UInt64} : config.Addressed m size.toNat ↔
    config.layout.Addressed m next size.toUInt32.toNat := by
  unfold FATConfig.Addressed Layout.Addressed
  rw [h.maxFileSize_eq hg, hasRootEntry_iff hg, numDataCluster_eq hg, dataOffset_eq hg,
    show config.nextFree m = next from h.nextFree, UInt64.toNat_toUInt32]
  rfl

/-- The clusters from the first free one up to `maxCluster` are free. -/
theorem Ledger.numFree_ge : config.layout.maxCluster - next ≤ config.numFreeCluster m := by
  have hent := hg.maxCluster_fit
  have hch := h.charged_le
  unfold FATConfig.numFreeCluster
  rw [numDataCluster_eq hg]
  by_cases hle : next ≤ config.layout.maxCluster
  · have hfree : (List.range' next (config.layout.maxCluster - next)).countP
        (fun c => tableEntry m (config.bytesPerSector * numResevedSector).toNat c == 0)
        = config.layout.maxCluster - next := countP_range'_all fun c hlo hhi => by
      rw [tableEntry_first hg, beq_iff_eq]
      exact h.entry_free hlo (by omega)
    rw [countP_range'_split (show 2 ≤ next by omega) (by omega),
      countP_range'_split hle (by omega), hfree]
    omega
  · omega

end Ledger

/-! ### What is accepted -/

/-- The descriptor is one of a regular file of contents `bytes` that nobody changes, and every
call on it succeeds. -/
structure Fd.Readable (fd : Fd) (bytes : List UInt8) : Prop where
  fstat : ∃ size, fd.fstat = .ok size ∧ size.toNat = bytes.length
  lseek : fd.lseek = .ok 0
  read : ∀ n, fd.read n = .ok (bytes.take n.toNat)

theorem Fd.Readable.reads {fd : Fd} {bytes : List UInt8} (h : fd.Readable bytes) {size : UInt64}
    (hsize : size.toNat = bytes.length) : fd.Reads size := by
  refine ⟨h.lseek, _, h.read _, ?_⟩
  rw [List.length_take, UInt64.toNat_toUInt32, hsize]
  exact Nat.min_eq_left (Nat.mod_le _ _)

theorem fdOf_readable {bytes : List UInt8} (h : bytes.length < 2 ^ 64) :
    (fdOf bytes).Readable bytes :=
  ⟨⟨_, rfl, by rw [UInt64.toNat_ofNat', Nat.mod_eq_of_lt h]⟩, rfl, fun _ => rfl⟩

theorem dataClusters_le_iff (hg : g.WF) {n k : Nat} : g.dataClusters n ≤ k ↔ n ≤ g.bpc * k := by
  refine ⟨fun h => Nat.le_trans (le_dataClusters hg n) (Nat.mul_le_mul_left _ h), dataClusters_le hg⟩

section Accept

variable {config : FATConfig} {fd : Fd} {name : List UInt8} {attr : UInt32} {bytes : List UInt8}

/-- The tests against the free clusters, for one call. -/
theorem Ledger.accepts_gauged (hg : config.layout.WF) (h : Ledger config.layout m next charged)
    (haddr : config.Addressed m bytes.length) (hfd : fd.Readable bytes) :
    config.AcceptsFitting m fd name attr bytes.length ↔ config.Gauged m bytes.length := by
  obtain ⟨size, hs, hlen⟩ := hfd.fstat
  have hreads := hfd.reads hlen
  have hlow : size.toUInt32.toNat = bytes.length % 2 ^ 32 := by rw [UInt64.toNat_toUInt32, hlen]
  have hfits : config.Fits m bytes.length ↔ config.HasRootEntry m
      ∧ bytes.length ≤ config.bytesPerCluster * config.numFreeCluster m :=
    and_congr_right fun _ => dataClusters_le_iff hg
  have hroom : config.layout.quota next
      ≤ config.bytesPerCluster * config.numFreeCluster m :=
    Nat.le_trans (quota_le _ _) (Nat.mul_le_mul_left _ (h.numFree_ge hg))
  have hnum := numDataCluster_eq hg
  have hnext : config.nextFree m = next := h.nextFree
  have hmax := h.maxFileSize_eq hg
  have hroot := hasRootEntry_iff (m := m) hg
  have hv := h.verdict hg fd name attr fun size' hs' => by
    obtain rfl := Except.ok.inj (hs.symm.trans hs')
    exact (h.addressed_iff hg).mp (hlen ▸ haddr)
  unfold FATConfig.AcceptsFitting FATConfig.Gauged
  rw [hfits, hnum, hnext, hmax, hroot]
  generalize config.bytesPerCluster * config.numFreeCluster m = free at *
  generalize FAT32Copyin m fd name attr = result at *
  cases hv with
  | untouched e hs' => simp [hs] at hs'
  | stale size' hs' hlt => exact ⟨fun ⟨r, hr, _⟩ => by simp at hr, fun hok => by omega⟩
  | refused size' hs' hle hfull =>
      obtain rfl := Except.ok.inj (hs.symm.trans hs')
      rw [hlow] at hfull
      constructor
      · rintro ⟨r, hr, hret, -⟩
        obtain rfl := Except.ok.inj hr
        refine ⟨hle, fun hentry => ?_⟩
        have : ¬ bytes.length ≤ free := fun hfit => hret.mpr ⟨hentry, hfit⟩ rfl
        omega
      · rintro ⟨-, hok⟩
        refine ⟨_, rfl, ⟨fun hne => absurd rfl hne, ?_⟩, fun _ => rfl⟩
        rintro ⟨hentry, hfit⟩
        have := hok hentry
        omega
  | unread size' hs' hle hread m' e hm' =>
      obtain rfl := Except.ok.inj (hs.symm.trans hs')
      exact absurd hreads hread
  | stuck size' hs' hread hentry hzero hlast =>
      obtain rfl := Except.ok.inj (hs.symm.trans hs')
      rw [hlow] at hzero
      exact ⟨fun ⟨r, hr, _⟩ => by simp at hr, fun hok => absurd ⟨hzero, hlast⟩ (hok.2 hentry).2.2⟩
  | stored size' hs' hread hentry hsize hfit m₁ hm₁ =>
      obtain rfl := Except.ok.inj (hs.symm.trans hs')
      have hpos := fileClusters_pos config.layout size.toUInt32.toNat
      have hch := h.charged_le
      have hne := sector_ne hg (show 2 ≤ next by omega) (by omega)
      rw [hlow] at hsize
      constructor
      · rintro ⟨r, hr, hret, -⟩
        obtain rfl := Except.ok.inj hr
        have := (hret.mp hne).2
        exact ⟨by omega, fun _ => by omega⟩
      · rintro ⟨-, hok⟩
        have := hok hentry
        exact ⟨_, rfl, ⟨fun _ => ⟨hentry, by omega⟩, fun _ => hne⟩, fun h0 => absurd h0 hne⟩

/-- The call returns, leaves `m'`, and has not written at an offset that wraps. -/
def FATConfig.CopiedBelow (config : FATConfig) (m : Mem) (c : Copy) (m' : Mem) : Prop :=
  (∀ size, c.fd.fstat = .ok size → config.Addressed m size.toNat) ∧ Copied m c m'

/-- `m` is reached from `createFAT32` by such calls. -/
def FATConfig.ReachedBelow (config : FATConfig) (m : Mem) : Prop :=
  ∃ buf image calls, createFAT32 buf config = .ok (0, image)
    ∧ Runs.Reach config.CopiedBelow image calls m

theorem reachedBelow_ledger (hm : config.ReachedBelow m) (hlow : config.layout.data < 2 ^ 32) :
    config.layout.WF ∧ ∃ next charged, Ledger config.layout m next charged := by
  obtain ⟨buf, image, calls, hc, hreach⟩ := hm
  have hg := (createFAT32_image_of_low hc hlow).1
  refine ⟨hg, hreach.invariant (I := fun m => ∃ next charged, Ledger config.layout m next charged)
    ⟨3, 0, createFAT32_ledger hc hlow⟩ ?_⟩
  rintro m₁ m₂ c ⟨next, charged, h⟩ ⟨haddr, r, hr, rfl⟩
  exact h.kept hg (fun size hs => (h.addressed_iff hg).mp (haddr size hs)) hr

/-- On a volume of at most `2 ^ 32` bytes every call writes below `2 ^ 32`. -/
theorem reached_addressed (hm : config.Reached m)
    (hsize : config.nSector.toNat * config.bytesPerSector.toNat ≤ 2 ^ 32) (size : UInt64) :
    config.Addressed m size.toNat := by
  obtain ⟨hg, next, charged, h⟩ := reached_ledger hm hsize
  have hch := h.charged_le
  exact (h.addressed_iff hg).mpr (addressed hg hsize (by omega) _)

theorem reached_below (hm : config.Reached m)
    (hsize : config.nSector.toNat * config.bytesPerSector.toNat ≤ 2 ^ 32) :
    config.ReachedBelow m := by
  obtain ⟨buf, image, calls, hc, hreach⟩ := hm
  refine ⟨buf, image, calls, hc, ?_⟩
  induction hreach with
  | nil => exact .nil
  | snoc hreach hnext ih =>
      exact ih.snoc ⟨fun size _ => reached_addressed ⟨buf, image, _, hc, hreach⟩ hsize size, hnext⟩

/-- **What is accepted.**  On a volume whose data region starts below `2 ^ 32`, in every image
reached by calls that write below it, a call that would write below it accepts its file exactly
if it fits, unless the tests are wrong about its size. -/
theorem accepts_iff (hm : config.ReachedBelow m) (hlow : config.layout.data < 2 ^ 32)
    (haddr : config.Addressed m bytes.length) (hfd : fd.Readable bytes) :
    config.AcceptsFitting m fd name attr bytes.length ↔ config.Gauged m bytes.length := by
  obtain ⟨hg, next, charged, h⟩ := reachedBelow_ledger hm hlow
  exact h.accepts_gauged hg haddr hfd

end Accept

theorem smallVolume_next : smallVolume.nextFree (formatImage (fun _ => 0) smallVolume) = 3
    ∧ smallVolume.numDataCluster = 54 := by
  decide +kernel

theorem accepts_hello :
    smallVolume.AcceptsFitting (formatImage (fun _ => 0) smallVolume) (fdOf helloFile)
      (ascii "A.LONG.NAME") 0 3 := by
  have hm := reached_created (show createFAT32 (fun _ => 0) smallVolume = .ok (0, _) from rfl)
  have hnum := smallVolume_next
  have haddr : smallVolume.Addressed _ helloFile.length := reached_addressed hm (by decide) 3
  have hfd : (fdOf helloFile).Readable helloFile := fdOf_readable (by decide)
  refine (accepts_iff (reached_below hm (by decide)) (by decide) haddr hfd).mpr
    ⟨by omega, fun _ => ?_⟩
  decide +kernel

/-- Sixteen sectors: the data clusters are 2 to 7, and `maxCluster` is 6. -/
def tinyVolume : FATConfig := ⟨16, 512, 1, false, true⟩

/-- Five clusters are free, and a file of four is refused. -/
theorem accepts_fails :
    ¬ ∀ (config : FATConfig) (m : Mem) (fd : Fd) (name : List UInt8) (attr : UInt32)
      (bytes : List UInt8), config.Reached m → fd.Readable bytes →
      config.AcceptsFitting m fd name attr bytes.length := by
  intro hall
  have hm := reached_created (show createFAT32 (fun _ => 0) tinyVolume = .ok (0, _) from rfl)
  have hlen : (List.replicate 2048 (0 : UInt8)).length = 2048 := List.length_replicate
  obtain ⟨r, hr, hret, -⟩ := hall tinyVolume _ (fdOf (List.replicate 2048 0)) (ascii "FOUR") 0 _ hm
    (fdOf_readable (by rw [hlen]; decide))
  have hrefused : (FAT32Copyin (formatImage (fun _ => 0) tinyVolume)
      (fdOf (List.replicate 2048 0)) (ascii "FOUR") 0).toOption.map Reply.ret = some 0 := by
    decide +kernel
  have hfree : tinyVolume.numFreeCluster (formatImage (fun _ => 0) tinyVolume) = 5 := by
    decide +kernel
  rw [hr] at hrefused
  refine hret.mpr ⟨⟨0, by decide, by decide +kernel⟩, ?_⟩ (Option.some.inj hrefused)
  rw [hlen, hfree]
  decide

/-! ### Where a call stops -/

/-- The call did not trip an assertion. -/
def NoAssertion {α : Type} (x : Except Fault α) : Prop := ∀ text, x ≠ .error (.assertion text)

/-- A call on `fd` finds a volume with a cluster in bounds, and one is left for a file whose size
in 32 bits is 0, unless the call fails before it is needed. -/
def FATConfig.Admits (config : FATConfig) (m : Mem) (fd : Fd) : Prop :=
  ∀ size, fd.fstat = .ok size → config.nextFree m ≤ config.numDataCluster
    ∧ (size.toNat % 2 ^ 32 = 0 → config.HasRootEntry m → fd.lseek = .ok 0 → fd.read 0 = .ok [] →
      config.nextFree m < config.numDataCluster)

section Assertions

variable {config : FATConfig} {fd : Fd} {name : List UInt8} {attr : UInt32}

/-- A file of size 0 in 32 bits is read in full if the calls succeed. -/
theorem reads_zero {size : UInt64} (h0 : size.toUInt32.toNat = 0) :
    fd.Reads size ↔ fd.lseek = .ok 0 ∧ fd.read 0 = .ok [] := by
  have hzero : size.toUInt32 = 0 := UInt32.toNat.inj h0
  unfold Fd.Reads
  rw [hzero]
  constructor
  · rintro ⟨hl, data, hd, hlen⟩
    rw [List.length_eq_zero_iff.mp hlen] at hd
    exact ⟨hl, hd⟩
  · exact fun h => ⟨h.1, [], h.2, rfl⟩

section Call

variable (hg : config.layout.WF) (hsz : config.layout.nSector * config.layout.bps ≤ 2 ^ 32)
variable (h : Ledger config.layout m next charged)
include hg hsz h

/-- A call that is admitted returns. -/
theorem Ledger.returns (name : List UInt8) (attr : UInt32) (hadm : config.Admits m fd) :
    ∃ r, FAT32Copyin m fd name attr = .ok r := by
  have hch := h.charged_le
  have hnext : config.nextFree m = next := h.nextFree
  have hnum := numDataCluster_eq hg
  have hv := h.verdict hg fd name attr fun _ _ => addressed hg hsz (by omega) _
  generalize FAT32Copyin m fd name attr = result at *
  cases hv with
  | untouched e hs => exact ⟨_, rfl⟩
  | stale size hs hlt =>
      have := (hadm size hs).1
      omega
  | refused size hs hle hfull => exact ⟨_, rfl⟩
  | unread size hs hle hread m' e hm' => exact ⟨_, rfl⟩
  | stuck size hs hread hentry hzero hlast =>
      obtain ⟨hl, hd⟩ := (reads_zero hzero).mp hread
      rw [UInt64.toNat_toUInt32] at hzero
      have := (hadm size hs).2 hzero ((hasRootEntry_iff hg).mpr hentry) hl hd
      omega
  | stored size hs hread hentry hsize hfit m₁ hm₁ => exact ⟨_, rfl⟩

/-- Any other trips an assertion. -/
theorem Ledger.stops (name : List UInt8) (attr : UInt32) (hadm : ¬ config.Admits m fd) :
    ∃ text, FAT32Copyin m fd name attr = .error (.assertion text) := by
  have hch := h.charged_le
  have hnext : config.nextFree m = next := h.nextFree
  have hnum := numDataCluster_eq hg
  have hroot := hasRootEntry_iff (m := m) hg
  have hv := h.verdict hg fd name attr fun _ _ => addressed hg hsz (by omega) _
  generalize FAT32Copyin m fd name attr = result at *
  -- In all the other cases the call was admitted.
  have hsame : ∀ {size size' : UInt64}, fd.fstat = .ok size → fd.fstat = .ok size' → size' = size :=
    fun hs hs' => (Except.ok.inj (hs.symm.trans hs')).symm
  cases hv with
  | untouched e hs => exact absurd (fun size' hs' => by simp [hs] at hs') hadm
  | stale size hs hlt => exact ⟨_, rfl⟩
  | refused size hs hle hfull =>
      refine absurd (fun size' hs' => ?_) hadm
      rw [hsame hs hs', UInt64.toNat_toUInt32] at *
      exact ⟨by omega, fun hzero hentry => by have := hroot.mp hentry; omega⟩
  | unread size hs hle hread m' e hm' =>
      refine absurd (fun size' hs' => ?_) hadm
      rw [hsame hs hs']
      refine ⟨by omega, fun hzero _ hl hd => absurd ((reads_zero ?_).mpr ⟨hl, hd⟩) hread⟩
      rw [UInt64.toNat_toUInt32, hzero]
  | stuck size hs hread hentry hzero hlast => exact ⟨_, rfl⟩
  | stored size hs hread hentry hsize hfit m₁ hm₁ =>
      have hpos := fileClusters_pos config.layout size.toUInt32.toNat
      refine absurd (fun size' hs' => ?_) hadm
      exact ⟨by omega, fun _ _ _ _ => by omega⟩

/-- **A call** trips an assertion exactly if it is not admitted. -/
theorem Ledger.noAssertion_iff (name : List UInt8) (attr : UInt32) :
    NoAssertion (FAT32Copyin m fd name attr) ↔ config.Admits m fd := by
  constructor
  · intro hno
    by_contra hadm
    obtain ⟨text, htext⟩ := h.stops hg hsz name attr hadm
    exact hno text htext
  · intro hadm
    obtain ⟨r, hr⟩ := h.returns hg hsz name attr hadm
    simp [NoAssertion, hr]

end Call

theorem noAssertion_map {α β : Type} (f : α → β) (x : Except Fault α) :
    NoAssertion (x.map f) ↔ NoAssertion x := by
  cases x with
  | error e => simp [NoAssertion, Except.map]
  | ok a => simp [NoAssertion, Except.map]

theorem run_cons_ok {c : Call} {cs : List Call} {r : Reply}
    (hr : FAT32Copyin m c.fd c.name.bytes c.attr = .ok r) :
    run m (c :: cs) = (run r.buf cs).map fun s => (s.1, if r.ret ≠ 0 then c :: s.2 else s.2) := by
  rw [run]
  simp only [hr, bind, Except.bind]
  cases run r.buf cs with
  | error e => rfl
  | ok s => rfl

theorem run_cons_error {c : Call} {cs : List Call} {e : Fault}
    (hr : FAT32Copyin m c.fd c.name.bytes c.attr = .error e) : run m (c :: cs) = .error e := by
  unfold run
  simp only [hr, bind, Except.bind]

/-- What holds of every call that a run makes holds of the first, and of those behind it. -/
theorem forall_calls_cons {P : Mem → Call → Prop} {c : Call} {cs : List Call} :
    (∀ pre c' post m' done, c :: cs = pre ++ c' :: post → run m pre = .ok (m', done) → P m' c') ↔
      P m c ∧ ∀ r, FAT32Copyin m c.fd c.name.bytes c.attr = .ok r →
        ∀ pre c' post m' done, cs = pre ++ c' :: post → run r.buf pre = .ok (m', done) → P m' c' := by
  constructor
  · intro hall
    refine ⟨hall [] c cs m [] rfl rfl, fun r hr pre c' post m' done heq hpre => ?_⟩
    refine hall (c :: pre) c' post m' (if r.ret ≠ 0 then c :: done else done)
      (by rw [heq, List.cons_append]) ?_
    rw [run_cons_ok hr, hpre]
    rfl
  · rintro ⟨hfirst, hrest⟩ pre c' post m' done heq hpre
    cases pre with
    | nil =>
        obtain ⟨rfl, -⟩ := List.cons.inj heq
        obtain ⟨rfl, -⟩ := Prod.mk.inj (Except.ok.inj hpre)
        exact hfirst
    | cons d pre =>
        obtain ⟨rfl, htail⟩ := List.cons.inj heq
        obtain ⟨r, rest, hr, hrun, -⟩ := run_cons hpre
        exact hrest r hr pre c' post m' rest htail hrun

/-- A run trips an assertion exactly if one of its calls does. -/
theorem run_noAssertion_iff (calls : List Call) (m : Mem) :
    NoAssertion (run m calls) ↔ ∀ pre c post m' done, calls = pre ++ c :: post →
      run m pre = .ok (m', done) → NoAssertion (FAT32Copyin m' c.fd c.name.bytes c.attr) := by
  induction calls generalizing m with
  | nil => simp [NoAssertion, run]
  | cons c cs ih =>
      rw [forall_calls_cons]
      cases hr : FAT32Copyin m c.fd c.name.bytes c.attr with
      | error e =>
          rw [run_cons_error hr]
          simp [NoAssertion]
      | ok r =>
          rw [run_cons_ok hr, noAssertion_map, ih]
          simp [NoAssertion]

/-- What `createFAT32` asserts is not among the checks it makes. -/
theorem createFAT32_returns_iff (buf : Mem) (config : FATConfig) :
    (∃ code image, createFAT32 buf config = .ok (code, image) ∧ code ≤ 1) ↔
      (configValid config = true → 2 < config.nSector.toNat / config.clusterSize.toNat) := by
  have hdiv : config.nSector / config.clusterSize > 2
      ↔ 2 < config.nSector.toNat / config.clusterSize.toNat := by
    rw [gt_iff_lt, UInt32.lt_iff_toNat_lt, UInt32.toNat_div]
    rfl
  unfold createFAT32
  by_cases hv : configValid config = true
  · rw [if_pos hv, ← hdiv]
    by_cases hc : config.nSector / config.clusterSize > 2
    · simp [assert, hc, hv, bind, Except.bind, pure, Except.pure]
    · simp [assert, hc, hv, bind, Except.bind]
  · rw [if_neg hv]
    simp [hv, pure, Except.pure]

/-- **Which assertions hold.**  `createFAT32` returns unless a configuration it found valid has
too few clusters, and a run of calls trips no assertion unless one of them is not admitted. -/
theorem assertions_iff (config : FATConfig) :
    (∀ buf, (∃ code image, createFAT32 buf config = .ok (code, image) ∧ code ≤ 1) ↔
        (configValid config = true → 2 < config.nSector.toNat / config.clusterSize.toNat))
      ∧ ∀ buf image calls, createFAT32 buf config = .ok (0, image) →
        config.nSector.toNat * config.bytesPerSector.toNat ≤ 2 ^ 32 →
        (NoAssertion (run image calls) ↔ ∀ pre c post m done, calls = pre ++ c :: post →
          run image pre = .ok (m, done) → config.Admits m c.fd) := by
  refine ⟨fun buf => createFAT32_returns_iff buf config, fun buf image calls hc hsize => ?_⟩
  have hcall : ∀ {pre : List Call} {m done} (c : Call), run image pre = .ok (m, done) →
      (NoAssertion (FAT32Copyin m c.fd c.name.bytes c.attr) ↔ config.Admits m c.fd) := by
    intro pre m done c hpre
    obtain ⟨hg, next, charged, h⟩ := reached_ledger (reached_run (reached_created hc) hpre) hsize
    exact h.noAssertion_iff hg hsize c.name.bytes c.attr
  rw [run_noAssertion_iff]
  constructor
  · intro hall pre c post m done heq hpre
    exact (hcall c hpre).mp (hall pre c post m done heq hpre)
  · intro hall pre c post m done heq hpre
    exact (hcall c hpre).mpr (hall pre c post m done heq hpre)

end Assertions

theorem assertions_hello :
    createFAT32 (fun _ => 0) smallVolume = .ok (0, formatImage (fun _ => 0) smallVolume)
      ∧ NoAssertion (run (formatImage (fun _ => 0) smallVolume) [helloCall]) := by
  have hc : createFAT32 (fun _ => 0) smallVolume = .ok (0, formatImage (fun _ => 0) smallVolume) := rfl
  refine ⟨hc, ((assertions_iff smallVolume).2 _ _ [helloCall] hc (by decide)).mpr ?_⟩
  intro pre c post m done heq hpre
  obtain ⟨rfl, rfl, rfl⟩ : pre = [] ∧ c = helloCall ∧ post = [] := by
    simpa [List.append_eq_singleton_iff, eq_comm] using heq
  obtain ⟨rfl, -⟩ := Prod.mk.inj (Except.ok.inj hpre)
  have hnum := smallVolume_next
  exact fun _ _ => ⟨by omega, fun _ _ _ _ => by omega⟩

/-- A volume of two clusters in all. -/
def twoClusters : FATConfig := ⟨16, 512, 8, false, true⟩

/-- A call on a readable file of contents `bytes`. -/
def callOf (bytes : List UInt8) : Call where
  name := ⟨ascii "FILE", by decide, by decide, by decide, by decide⟩
  attr := 0
  fd := fdOf bytes

/-- `createFAT32` stops on a configuration it found valid, and on the volume of six clusters an
empty file after one of three stops the second call. -/
theorem assertions_fail :
    (¬ ∀ buf config, ∃ code image, createFAT32 buf config = .ok (code, image) ∧ code ≤ 1)
      ∧ ¬ ∀ buf config image calls, createFAT32 buf config = .ok (0, image) →
        config.nSector.toNat * config.bytesPerSector.toNat ≤ 2 ^ 32 →
        (∀ c ∈ calls, ∃ bytes, c.fd.Readable bytes) → NoAssertion (run image calls) := by
  constructor
  · intro hall
    obtain ⟨code, image, h, -⟩ := hall (fun _ => 0) twoClusters
    have hstop : (createFAT32 (fun _ => 0) twoClusters).toOption.map Prod.fst = none := by
      decide +kernel
    simp [h, Except.toOption] at hstop
  · intro hall
    have hno := hall (fun _ => 0) tinyVolume _ [callOf (List.replicate 1536 0), callOf []] rfl
      (by decide) ?_
    · have hstop : (run (formatImage (fun _ => 0) tinyVolume)
          [callOf (List.replicate 1536 0), callOf []]).map (fun _ => ())
          = .error (.assertion "write out of bound") := by decide +kernel
      exact (noAssertion_map _ _).mpr hno _ hstop
    · intro c hc
      rcases List.mem_pair.mp hc with rfl | rfl
      · exact ⟨_, fdOf_readable (by rw [List.length_replicate]; decide)⟩
      · exact ⟨_, fdOf_readable (by decide)⟩

end LinuxUtil.Fat
