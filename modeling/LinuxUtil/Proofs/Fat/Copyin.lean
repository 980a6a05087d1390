/-
One call of `FAT32Copyin`.

`copyin_cases` lists every way a call that returned can have gone.  A failed one has
written free clusters at most and brought the backup sectors up to date; one that
stored its file has made exactly the writes of `Layout.putData` and `Layout.record`.
Calls that trip an assertion do not return, so the bounds those assertions check are
facts about the calls that do.
-/
import LinuxUtil.Proofs.Fat.Super

namespace LinuxUtil.Fat

open ByteMem

variable {g : Layout} {m : Mem} {fs : List Stored}

/-! ### The sizes of a call -/

theorem cdiv_eq (hg : g.WF) {n : Nat} (hn : n + g.bpc ≤ 2 ^ 32) :
    cdiv (UInt32.ofNat n) (UInt32.ofNat g.bpc) = UInt32.ofNat (g.dataClusters n) := by
  have hb := hg.bpc_ge
  have hlt := hg.bpc_lt
  unfold cdiv Layout.dataClusters
  rw [UInt32.ofNat_div (by omega) hlt, UInt32.ofNat_sub (by omega), UInt32.ofNat_add]
  rfl

/-- A file that passes the size check fits between the first free cluster and `maxCluster`. -/
theorem dataClusters_le (hg : g.WF) {n k : Nat} (h : n ≤ g.bpc * k) : g.dataClusters n ≤ k := by
  have hb := hg.bpc_ge
  unfold Layout.dataClusters
  rw [Nat.div_le_iff_le_mul_add_pred (by omega)]
  omega

theorem le_dataClusters (hg : g.WF) (n : Nat) : n ≤ g.bpc * g.dataClusters n := by
  have hb := hg.bpc_ge
  have := Nat.div_add_mod (n + g.bpc - 1) g.bpc
  have := Nat.mod_lt (n + g.bpc - 1) (show 0 < g.bpc by omega)
  unfold Layout.dataClusters
  omega

theorem dataClusters_eq_zero (hg : g.WF) {n : Nat} : g.dataClusters n = 0 ↔ n = 0 := by
  constructor
  · intro h
    have := le_dataClusters hg n
    rw [h] at this
    omega
  · rintro rfl
    exact Nat.le_zero.mp (dataClusters_le hg (Nat.zero_le _))

theorem dataClusters_mul_lt (hg : g.WF) (n : Nat) : g.dataClusters n * g.bpc < n + g.bpc := by
  have hb := hg.bpc_ge
  have := Nat.div_mul_le_self (n + g.bpc - 1) g.bpc
  unfold Layout.dataClusters
  omega

/-- `maxFileSize`: the bytes from cluster `c` up to `maxCluster`, in 32 bits. -/
def Layout.quota (g : Layout) (c : Nat) : Nat := g.bpc * (g.maxCluster - c) % 2 ^ 32

theorem quota_le (g : Layout) (c : Nat) : g.quota c ≤ g.bpc * (g.maxCluster - c) := Nat.mod_le _ _

/-- The last file it admits still rounds up to whole clusters. -/
theorem quota_add (hg : g.WF) (c : Nat) : g.quota c + g.bpc ≤ 2 ^ 32 := by
  have hdvd : g.bpc ∣ g.quota c :=
    (Nat.dvd_mod_iff hg.bpc_dvd).mpr (Nat.dvd_mul_right _ _)
  have hlt : g.quota c < 2 ^ 32 := Nat.mod_lt _ (by decide)
  obtain ⟨a, ha⟩ := hdvd
  obtain ⟨b, hb⟩ := hg.bpc_dvd
  rw [ha] at hlt ⊢
  rw [hb] at hlt ⊢
  exact Nat.mul_le_mul_left g.bpc (Nat.lt_of_mul_lt_mul_left hlt)

/-- A volume of at most `2 ^ 32` bytes has its clusters below `2 ^ 32`. -/
theorem clusters_fit (hg : g.WF) (hsz : g.nSector * g.bps ≤ 2 ^ 32) :
    g.data + g.bpc * g.maxCluster ≤ 2 ^ 32 :=
  Nat.le_trans hg.data_fit hsz

theorem quota_eq (hg : g.WF) (hsz : g.nSector * g.bps ≤ 2 ^ 32) (c : Nat) :
    g.quota c = g.bpc * (g.maxCluster - c) := by
  have h1 := clusters_fit hg hsz
  have h2 := hg.bps_ge
  have h3 : g.bpc * (g.maxCluster - c) ≤ g.bpc * g.maxCluster :=
    Nat.mul_le_mul_left _ (Nat.sub_le _ _)
  refine Nat.mod_eq_of_lt ?_
  unfold Layout.data Layout.fat2 Layout.fat1 at h1
  omega

theorem cluster_lt (hg : g.WF) (hsz : g.nSector * g.bps ≤ 2 ^ 32) {c : Nat} (h2 : 2 ≤ c)
    (hc : c ≤ g.maxCluster) : g.cluster c < 2 ^ 32 := by
  have h1 := clusters_fit hg hsz
  have h3 := hg.bpc_ge
  have h4 : g.bpc * (c - 2) + g.bpc ≤ g.bpc * g.maxCluster := by
    rw [← Nat.mul_succ]
    exact Nat.mul_le_mul_left _ (by omega)
  unfold Layout.cluster
  omega

/-- The sector `FAT32Copyin` returns for the files `fs` already there. -/
def Layout.startSector (g : Layout) (fs : List Stored) : Nat :=
  g.dataSector + (g.next fs - 2) * g.spc

theorem sector_lt (hg : g.WF) {c : Nat} (h2 : 2 ≤ c) (h : c ≤ g.maxCluster) :
    g.dataSector + (c - 2) * g.spc < g.nSector := by
  have hdiv : g.maxCluster * g.spc ≤ g.nSector - g.dataSector := Nat.div_mul_le_self _ _
  have hroom := hg.room
  have hsp := hg.spc_pos
  have h1 : (c - 2 + 1) * g.spc ≤ g.maxCluster * g.spc := Nat.mul_le_mul_right _ (by omega)
  rw [Nat.add_mul] at h1
  omega

/-- No file starts at sector 0. -/
theorem sector_ne (hg : g.WF) {c : Nat} (h2 : 2 ≤ c) (h : c ≤ g.maxCluster) :
    UInt32.ofNat (g.dataSector + (c - 2) * g.spc) ≠ 0 := by
  have hlt := sector_lt hg h2 h
  have hn := hg.nSector_lt
  intro hc
  have := congrArg UInt32.toNat hc
  rw [toNat_ofNat_lt (by omega)] at this
  unfold Layout.dataSector at this
  simp at this

theorem sector_bytes (g : Layout) (c : Nat) :
    (g.dataSector + (c - 2) * g.spc) * g.bps = g.cluster c := by
  unfold Layout.cluster Layout.bpc
  rw [Nat.add_mul, g.data_eq, Nat.mul_comm (c - 2), Nat.mul_assoc, Nat.mul_assoc,
    Nat.mul_comm g.bps]

theorem startSector_lt (hg : g.WF) (h : g.next fs ≤ g.maxCluster) :
    g.startSector fs < g.nSector :=
  sector_lt hg (Nat.le_of_succ_le (next_ge fs)) h

theorem startSector_bytes (fs : List Stored) :
    g.startSector fs * g.bps = g.cluster (g.next fs) :=
  sector_bytes g (g.next fs)

/-! ### The whole call -/

/-- The data of a new file: its clusters cleared, its bytes at their start. -/
def Layout.putData (g : Layout) (m : Mem) (fs : List Stored) (n : Nat) (bytes : List UInt8) : Mem :=
  let addr := g.cluster (g.next fs)
  write (fill m addr (g.dataClusters n * g.bpc) 0) addr bytes

/-- Directory entry `k`, chain, FSInfo and backups of a new file of `n` bytes, from cluster `c`
on. -/
def Layout.recordAt (g : Layout) (m : Mem) (k c : Nat) (name : List UInt8) (attr : UInt32)
    (n freeCount : Nat) : Mem :=
  let last := c + (g.fileClusters n - 1)
  let m := writeDirEntry m (g.data + 32 * k) name attr (UInt32.ofNat c) (UInt32.ofNat n)
  let m := g.writeChain m c (g.fileClusters n)
  let m := store m (g.bps + 488) 4 freeCount
  let m := store m (g.bps + 492) 4 (last + 1)
  g.sync m

/-- Directory entry, chain, FSInfo and backups of a new file of `n` bytes. -/
def Layout.record (g : Layout) (m : Mem) (fs : List Stored) (name : List UInt8) (attr : UInt32)
    (n : Nat) : Mem :=
  let c := g.next fs
  let last := c + (g.fileClusters n - 1)
  let m := writeDirEntry m (g.data + 32 * fs.length) name attr (UInt32.ofNat c) (UInt32.ofNat n)
  let m := g.writeChain m c (g.fileClusters n)
  let m := store m (g.bps + 488) 4 (g.initialFree - g.charged fs - g.dataClusters n)
  let m := store m (g.bps + 492) 4 (last + 1)
  g.sync m

theorem copyinErr_eq (hg : g.WF) (k : Nat) (m : Mem) (e : Errno) :
    copyinErr (g.super k) m e = .ok ⟨0, g.sync m, some e⟩ := by
  unfold copyinErr
  rw [superFree_eq hg]
  rfl

theorem charged_le_used (fs : List Stored) : g.charged fs ≤ g.used fs := by
  unfold Layout.charged Layout.used
  induction fs with
  | nil => simp
  | cons f fs ih =>
      simp only [List.map_cons, List.sum_cons]
      have : g.dataClusters f.bytes.length ≤ g.clusters f := Nat.le_max_right _ _
      omega

/-- The free count starts at the entries of both tables, less three. -/
theorem initialFree_eq (hg : g.WF) : g.initialFree = 2 * (g.fatBytes / 4) - 3 := by
  have hb := hg.bps
  simp only [List.mem_cons, List.not_mem_nil, or_false] at hb
  have hq : 4 * (g.bps / 4) = g.bps := by omega
  unfold Layout.initialFree Layout.fatBytes
  rw [Nat.mul_assoc]
  congr 2
  conv_rhs => rw [← hq, ← Nat.mul_assoc, Nat.mul_comm g.fatSize 4, Nat.mul_assoc,
    Nat.mul_div_cancel_left _ (by omega : 0 < 4)]

/-- The free count never runs short: it starts at twice the entries of a table. -/
theorem free_enough (hg : g.WF) {n : Nat} (h : g.next fs + g.dataClusters n ≤ g.maxCluster) :
    g.charged fs + g.dataClusters n ≤ g.initialFree := by
  have h1 := charged_le_used (g := g) fs
  have h2 := hg.maxCluster_fit
  have h3 := hg.fatBytes_entries
  have h4 := initialFree_eq hg
  unfold Layout.next at h
  omega

theorem fileClusters_pos (g : Layout) (n : Nat) : 1 ≤ g.fileClusters n := Nat.le_max_left _ _

/-- The commit of a file whose last cluster is in bounds, from any cluster `c` on. -/
theorem copyinCommit_at (hg : g.WF) {k c n : Nat} (hk : k < 2 ^ 32) (hc : 1 ≤ c) {m' : Mem}
    (hm : m' (g.data + 32 * k) = 0) (name : List UInt8) (attr ret : UInt32) {free : UInt32}
    (hfree : g.dataClusters n ≤ free.toNat) (hfit : c + g.fileClusters n ≤ g.maxCluster) :
    copyinCommit (g.super k) g.bps m' name attr (UInt32.ofNat c) free
        (UInt32.ofNat (g.dataClusters n)) (UInt32.ofNat n) ret
      = .ok ⟨ret, g.recordAt m' k c name attr n (free.toNat - g.dataClusters n), none⟩ := by
  have hmax := hg.maxCluster_lt
  have hdc : g.dataClusters n ≤ g.fileClusters n := Nat.le_max_right _ _
  have hpos := fileClusters_pos g n
  have hcount : g.dataClusters n - 1 = g.fileClusters n - 1 := by
    unfold Layout.fileClusters
    omega
  have hdcn : (UInt32.ofNat (g.dataClusters n)).toNat = g.dataClusters n :=
    toNat_ofNat_lt (by omega)
  have hge : free ≥ UInt32.ofNat (g.dataClusters n) := by
    rw [ge_iff_le, UInt32.le_iff_toNat_le, hdcn]
    exact hfree
  have hsub : (free - UInt32.ofNat (g.dataClusters n)).toNat = free.toNat - g.dataClusters n := by
    rw [UInt32.toNat_sub_of_le _ _ hge, hdcn]
  have hentry : g.data + 32 * (UInt32.ofNat k).toNat = g.data + 32 * k := by
    rw [toNat_ofNat_lt hk]
  have hnext : UInt32.ofNat (c + (g.fileClusters n - 1)) + 1
      = UInt32.ofNat (c + (g.fileClusters n - 1) + 1) := by
    rw [UInt32.ofNat_add _ 1]
    rfl
  unfold copyinCommit
  have hroot' : (g.super k).rootDir = some g.data := rfl
  have hnre : (g.super k).nextRootEntry = UInt32.ofNat k := rfl
  simp only [hroot', hnre, deref, bind, Except.bind, hentry, hm, assert, beq_self_eq_true, if_true,
    hdcn, hcount]
  rw [linkClusters_eq hg k _ _ _ (by omega) (by omega)]
  simp only
  rw [writeEntry_eq hg k _ _ (by omega) (by omega)]
  simp only [hge, decide_true, if_true, hsub, hnext,
    toNat_ofNat_lt (show c + (g.fileClusters n - 1) + 1 < 2 ^ 32 by omega),
    superFree_eq hg, pure, Except.pure]
  rfl

/-- The commit of a file whose last cluster is out of bounds does not come back.  The file is
empty: the chain loop does not run, and the entry written is that of `c` itself. -/
theorem copyinCommit_stuck (hg : g.WF) {k c n : Nat} (hk : k < 2 ^ 32) (hc : c < 2 ^ 32)
    {m' : Mem} (hm : m' (g.data + 32 * k) = 0) (name : List UInt8) (attr ret free : UInt32)
    (hdc : c + g.dataClusters n ≤ g.maxCluster) (hfit : g.maxCluster < c + g.fileClusters n) :
    copyinCommit (g.super k) g.bps m' name attr (UInt32.ofNat c) free
        (UInt32.ofNat (g.dataClusters n)) (UInt32.ofNat n) ret
      = .error (.assertion "write out of bound") := by
  have hmax := hg.maxCluster_lt
  have h0 : g.dataClusters n = 0 := by
    unfold Layout.fileClusters at hfit
    omega
  have hout : ¬ UInt32.ofNat c < UInt32.ofNat g.maxCluster := by
    rw [UInt32.lt_iff_toNat_lt, toNat_ofNat_lt hc, toNat_ofNat_lt (by omega)]
    unfold Layout.fileClusters at hfit
    omega
  have hentry : g.data + 32 * (UInt32.ofNat k).toNat = g.data + 32 * k := by
    rw [toNat_ofNat_lt hk]
  have hroot' : (g.super k).rootDir = some g.data := rfl
  have hnre : (g.super k).nextRootEntry = UInt32.ofNat k := rfl
  have hmc : (g.super k).maxCluster = UInt32.ofNat g.maxCluster := rfl
  unfold copyinCommit
  simp only [hroot', hnre, deref, bind, Except.bind, hentry, hm, assert, beq_self_eq_true, if_true,
    h0, show (UInt32.ofNat 0).toNat - 1 = 0 from rfl, linkClusters, FAT32SuperWriteEntry, hmc, hout,
    decide_false]
  rfl

/-- The commit of a file whose last cluster is in bounds. -/
theorem copyinCommit_eq (hg : g.WF) (h : Image g m fs) (hroot : fs.length < g.bpc / 32)
    {m' : Mem} (hm : m' (g.data + 32 * fs.length) = 0) (name : List UInt8)
    (attr ret : UInt32) {n : Nat}
    (hfit : g.next fs + g.fileClusters n ≤ g.maxCluster) :
    copyinCommit (g.super fs.length) g.bps m' name attr (UInt32.ofNat (g.next fs))
        (load32 m (g.bps + 488) 4) (UInt32.ofNat (g.dataClusters n)) (UInt32.ofNat n) ret
      = .ok ⟨ret, g.record m' fs name attr n, none⟩ := by
  have hbpc := hg.bpc_lt
  have hnx := next_ge (g := g) fs
  have hdc : g.dataClusters n ≤ g.fileClusters n := Nat.le_max_right _ _
  have hfree : g.charged fs + g.dataClusters n ≤ g.initialFree := free_enough hg (by omega)
  have hload : (load32 m (g.bps + 488) 4).toNat = g.initialFree - g.charged fs := by
    have := h.freeCount
    unfold load32
    rw [toNat_ofNat_lt (load_lt m _ 4)]
    omega
  rw [copyinCommit_at hg (by omega) (by omega) hm name attr ret (by omega) hfit, hload]
  rfl

/-- Every way a call that came back can have gone. -/
inductive Outcome (g : Layout) (m : Mem) (fs : List Stored) (fd : Fd) (name : List UInt8)
    (attr : UInt32) (r : Reply) : Prop
  /-- `fstat` failed, before the image was looked at. -/
  | untouched (e : Errno) (hr : r = ⟨0, m, some e⟩)
  /-- It failed later.  At most the free clusters were written. -/
  | failed (m' : Mem) (e : Errno) (hr : r = ⟨0, g.sync m', some e⟩)
      (hm' : ∀ x, x < g.cluster (g.next fs) → m' x = m x)
  | stored (size : UInt64) (data : List UInt8) (hstat : fd.fstat = .ok size)
      (hread : fd.read size.toUInt32 = .ok data) (hlen : data.length = size.toUInt32.toNat)
      (hroot : fs.length < g.bpc / 32)
      (hfit : g.next fs + g.fileClusters data.length ≤ g.maxCluster)
      (hr : r = ⟨UInt32.ofNat (g.startSector fs),
        g.record (g.putData m fs data.length data) fs name attr data.length, none⟩)

section Cases

variable {fd : Fd} {name : List UInt8} {attr : UInt32} {r : Reply}

theorem copyinErr_outcome (hg : g.WF) {m' : Mem} {e : Errno}
    (hm' : ∀ x, x < g.cluster (g.next fs) → m' x = m x)
    (hr : copyinErr (g.super fs.length) m' e = .ok r) : Outcome g m fs fd name attr r := by
  rw [copyinErr_eq hg] at hr
  exact .failed m' e (Except.ok.inj hr).symm hm'

theorem putData_below (m : Mem) (fs : List Stored) (n : Nat) (bytes : List UInt8) {x : Nat}
    (hx : x < g.cluster (g.next fs)) : g.putData m fs n bytes x = m x := by
  unfold Layout.putData
  rw [write_apply_of_out _ _ _ (Or.inl hx), fill_apply_of_out _ _ _ _ (Or.inl hx)]

theorem root_below (fs : List Stored) {x : Nat} (hx : x < g.data + g.bpc) :
    x < g.cluster (g.next fs) := by
  have := g.cluster_mono (next_ge (g := g) fs)
  rw [g.cluster_root] at this
  omega

/-- Where the data of a file that passed the checks goes, if `c` is the first free cluster. -/
theorem copyinData_at (hg : g.WF) {k c : Nat} (hc : 3 ≤ c) {size free : UInt32}
    (hnext : c ≤ g.maxCluster) (haddr : g.cluster c < 2 ^ 32) (hsize : size.toNat ≤ g.quota c) :
    copyinData (g.super k) g.bps m fd name attr (UInt32.ofNat c) free size =
      copyinRead (g.super k) g.bps
        (fill m (g.cluster c) (g.dataClusters size.toNat * g.bpc) 0) fd name attr
        (UInt32.ofNat c) free (UInt32.ofNat (g.dataClusters size.toNat)) size
        (UInt32.ofNat (g.dataSector + (c - 2) * g.spc)) (g.cluster c) := by
  have hmax := hg.maxCluster_lt
  have hroom := quota_add hg c
  have hcdiv : cdiv size (UInt32.ofNat g.bpc) = UInt32.ofNat (g.dataClusters size.toNat) := by
    conv_lhs => rw [← UInt32.ofNat_toNat (x := size)]
    exact cdiv_eq hg (by omega)
  have hspc : UInt32.ofNat g.bpc / UInt32.ofNat g.bps = UInt32.ofNat g.spc := by
    rw [← UInt32.ofNat_div hg.bpc_lt (by have := hg.bps_le; omega)]
    unfold Layout.bpc
    rw [Nat.mul_div_cancel _ (by have := hg.bps_ge; omega)]
  have hret : (UInt32.ofNat c - 2) * UInt32.ofNat g.spc + (8 + UInt32.ofNat (2 * g.fatSize))
      = UInt32.ofNat (g.dataSector + (c - 2) * g.spc) := by
    unfold Layout.dataSector
    rw [Nat.add_comm (8 + 2 * g.fatSize), UInt32.ofNat_add ((c - 2) * g.spc),
      UInt32.ofNat_mul (c - 2), UInt32.ofNat_sub (by omega), UInt32.ofNat_add 8]
    rfl
  have hsec : FAT32SuperGetSector (UInt32.ofNat g.nSector) (UInt32.ofNat g.bps)
      (UInt32.ofNat (g.dataSector + (c - 2) * g.spc)) = some (g.cluster c) := by
    rw [getSector_eq hg (sector_lt hg (by omega) hnext) (by rwa [sector_bytes]), sector_bytes]
  have hclear : (UInt32.ofNat (g.dataClusters size.toNat) * UInt32.ofNat g.bpc).toNat
      = g.dataClusters size.toNat * g.bpc := by
    rw [← UInt32.ofNat_mul, toNat_ofNat_lt]
    have := dataClusters_mul_lt hg size.toNat
    omega
  have hgt : UInt32.ofNat c > 2 := by
    rw [gt_iff_lt, UInt32.lt_iff_toNat_lt, toNat_ofNat_lt (by omega)]
    exact hc
  have e1 : (g.super k).bytesPerCluster = UInt32.ofNat g.bpc := rfl
  have e2 : (g.super k).bytesPerSector = UInt32.ofNat g.bps := rfl
  have e3 : (g.super k).numReserved = 8 := rfl
  have e4 : (g.super k).numFAT = UInt32.ofNat (2 * g.fatSize) := rfl
  have e5 : (g.super k).numSector = UInt32.ofNat g.nSector := rfl
  unfold copyinData
  simp only [e1, e2, e3, e4, e5, hcdiv, hspc, hret, hsec, hclear, assert, hgt, decide_true,
    if_true, bind, Except.bind, deref]

/-- Where the data of a file that passed the checks goes. -/
theorem copyinData_eq (hg : g.WF) (hsz : g.nSector * g.bps ≤ 2 ^ 32) {size free : UInt32}
    (hnext : g.next fs ≤ g.maxCluster) (hsize : size.toNat ≤ g.quota (g.next fs)) :
    copyinData (g.super fs.length) g.bps m fd name attr (UInt32.ofNat (g.next fs)) free size =
      copyinRead (g.super fs.length) g.bps
        (fill m (g.cluster (g.next fs)) (g.dataClusters size.toNat * g.bpc) 0) fd name attr
        (UInt32.ofNat (g.next fs)) free (UInt32.ofNat (g.dataClusters size.toNat)) size
        (UInt32.ofNat (g.startSector fs)) (g.cluster (g.next fs)) :=
  copyinData_at hg (next_ge fs) hnext (cluster_lt hg hsz (Nat.le_of_succ_le (next_ge fs)) hnext) hsize

/-- The file was read in full: what is left is the commit. -/
theorem copyinCommit_outcome (hg : g.WF) (h : Image g m fs) {size : UInt64} {data : List UInt8}
    (hstat : fd.fstat = .ok size) (hread : fd.read size.toUInt32 = .ok data)
    (hlen : data.length = size.toUInt32.toNat) (hroot : fs.length < g.bpc / 32)
    (hdc : g.next fs + g.dataClusters data.length ≤ g.maxCluster)
    (hr : copyinCommit (g.super fs.length) g.bps (g.putData m fs data.length data) name attr
      (UInt32.ofNat (g.next fs)) (load32 m (g.bps + 488) 4)
      (UInt32.ofNat (g.dataClusters data.length)) (UInt32.ofNat data.length)
      (UInt32.ofNat (g.startSector fs)) = .ok r) : Outcome g m fs fd name attr r := by
  have hentry := hg.bpc_entries
  have hbpc := hg.bpc_lt
  have hmax := hg.maxCluster_lt
  have hzero : g.putData m fs data.length data (g.data + 32 * fs.length) = 0 := by
    rw [putData_below m fs _ _ (root_below fs (by omega))]
    exact h.dirFree _ (Nat.le_refl _) (by omega)
  by_cases hfit : g.next fs + g.fileClusters data.length ≤ g.maxCluster
  · have heq := copyinCommit_eq hg h hroot hzero name attr (UInt32.ofNat (g.startSector fs)) hfit
    exact .stored size data hstat hread hlen hroot hfit (Except.ok.inj (heq.symm.trans hr)).symm
  · rw [copyinCommit_stuck hg (by omega) (by omega) hzero name attr _ _ hdc (by omega)] at hr
    simp at hr

theorem copyinData_outcome (hg : g.WF) (hsz : g.nSector * g.bps ≤ 2 ^ 32) (h : Image g m fs)
    {size : UInt64} (hstat : fd.fstat = .ok size) (hroot : fs.length < g.bpc / 32)
    (hnext : g.next fs ≤ g.maxCluster) (hsize : size.toUInt32.toNat ≤ g.quota (g.next fs))
    (hr : copyinData (g.super fs.length) g.bps m fd name attr (UInt32.ofNat (g.next fs))
      (load32 m (g.bps + 488) 4) size.toUInt32 = .ok r) : Outcome g m fs fd name attr r := by
  have hdc := dataClusters_le hg (Nat.le_trans hsize (quota_le _ _))
  have hfill : ∀ x, x < g.cluster (g.next fs) →
      fill m (g.cluster (g.next fs)) (g.dataClusters size.toUInt32.toNat * g.bpc) 0 x = m x :=
    fun x hx => fill_apply_of_out _ _ _ _ (Or.inl hx)
  rw [copyinData_eq hg hsz hnext hsize] at hr
  unfold copyinRead at hr
  cases hl : fd.lseek with
  | error e =>
      rw [hl] at hr
      exact copyinErr_outcome hg hfill hr
  | ok off =>
      rw [hl] at hr
      simp only at hr
      by_cases hoff : off ≠ 0
      · rw [if_pos hoff] at hr
        exact copyinErr_outcome hg hfill hr
      · rw [if_neg hoff] at hr
        cases hd : fd.read size.toUInt32 with
        | error e =>
            rw [hd] at hr
            exact copyinErr_outcome hg hfill hr
        | ok data =>
            rw [hd] at hr
            simp only at hr
            by_cases hlen : data.length ≠ size.toUInt32.toNat
            · rw [if_pos hlen] at hr
              refine copyinErr_outcome hg (fun x hx => ?_) hr
              rw [write_apply_of_out _ _ _ (Or.inl hx)]
              exact hfill x hx
            · rw [if_neg hlen] at hr
              have hlen : data.length = size.toUInt32.toNat := not_not.mp hlen
              refine copyinCommit_outcome hg h hstat hd hlen hroot (by rw [hlen]; omega) ?_
              unfold Layout.putData
              rw [hlen, UInt32.ofNat_toNat]
              exact hr

theorem maxFileSize_eq {c : UInt32} (hle : c.toNat ≤ g.maxCluster) :
    (UInt32.ofNat g.bpc * (UInt32.ofNat g.maxCluster - c)).toNat = g.quota c.toNat := by
  rw [show UInt32.ofNat g.maxCluster - c = UInt32.ofNat (g.maxCluster - c.toNat) by
      rw [UInt32.ofNat_sub hle, UInt32.ofNat_toNat],
    ← UInt32.ofNat_mul, UInt32.toNat_ofNat']
  rfl

/-- The checks of a call, in the order they are made. -/
theorem copyin_at (hg : g.WF) {k c : Nat} (hk : k ≤ g.bpc / 32)
    (hinit : FAT32SuperInit m = .ok (g.super k)) (hnf : load m (g.bps + 492) 4 = c) {size : UInt64}
    (hs : fd.fstat = .ok size) :
    FAT32Copyin m fd name attr =
      if g.maxCluster < c then .error (.assertion "incorrect fs")
      else if g.quota c < size.toUInt32.toNat ∨ k = g.bpc / 32 then
        .ok ⟨0, g.sync m, some EDQUOT⟩
      else
        copyinData (g.super k) g.bps m fd name attr (UInt32.ofNat c) (load32 m (g.bps + 488) 4)
          size.toUInt32 := by
  have hmax := hg.maxCluster_lt
  have hbpc := hg.bpc_lt
  have hc : c < 2 ^ 32 := hnf ▸ load_lt m _ 4
  have hnf32 : load32 m (g.bps + 492) 4 = UInt32.ofNat c := by
    unfold load32
    rw [hnf]
  have e1 : (g.super k).fsInfo = some g.bps := rfl
  have e2 : (g.super k).maxCluster = UInt32.ofNat g.maxCluster := rfl
  have e3 : (g.super k).bytesPerCluster = UInt32.ofNat g.bpc := rfl
  have e4 : (g.super k).nextRootEntry = UInt32.ofNat k := rfl
  have e5 : (g.super k).numRootEntry = UInt32.ofNat (g.bpc / 32) := rfl
  have hroot : UInt32.ofNat k = UInt32.ofNat (g.bpc / 32) ↔ k = g.bpc / 32 := by
    rw [← UInt32.toNat_inj, toNat_ofNat_lt (by omega), toNat_ofNat_lt (by omega)]
  unfold FAT32Copyin
  simp only [hs, hinit, bind, Except.bind, e1, e2, e3, e4, e5, deref, hnf32, hroot]
  by_cases hlt : g.maxCluster < c
  · have hge : ¬ UInt32.ofNat g.maxCluster ≥ UInt32.ofNat c := by
      rw [ge_iff_le, UInt32.le_iff_toNat_le, toNat_ofNat_lt hc, toNat_ofNat_lt (by omega)]
      omega
    rw [if_pos hlt]
    simp [assert, hge]
  · have hge : UInt32.ofNat g.maxCluster ≥ UInt32.ofNat c := by
      rw [ge_iff_le, UInt32.le_iff_toNat_le, toNat_ofNat_lt hc, toNat_ofNat_lt (by omega)]
      omega
    have hprod := maxFileSize_eq (g := g) (c := UInt32.ofNat c) (by rw [toNat_ofNat_lt hc]; omega)
    rw [toNat_ofNat_lt hc] at hprod
    rw [if_neg hlt]
    simp only [assert, hge, decide_true, if_true, UInt32.lt_iff_toNat_lt, hprod]
    by_cases hbig : g.quota c < size.toUInt32.toNat
    · rw [if_pos hbig, if_pos (Or.inl hbig), copyinErr_eq hg]
    · rw [if_neg hbig]
      by_cases hfull : k = g.bpc / 32
      · rw [if_pos hfull, if_pos (Or.inr hfull), copyinErr_eq hg]
      · rw [if_neg hfull, if_neg (by omega)]

/-- **What a call that returned has done.** -/
theorem copyin_cases (hg : g.WF) (hsz : g.nSector * g.bps ≤ 2 ^ 32) (h : Image g m fs)
    (hr : FAT32Copyin m fd name attr = .ok r) : Outcome g m fs fd name attr r := by
  have hent := hg.bpc_entries
  have hrootFits := h.rootFits
  cases hs : fd.fstat with
  | error e =>
      unfold FAT32Copyin at hr
      rw [hs] at hr
      exact .untouched e (Except.ok.inj hr).symm
  | ok size =>
      rw [copyin_at hg (by omega) (superInit_eq hg h) h.nextFree hs] at hr
      split at hr
      · simp at hr
      · rename_i hnext
        split at hr
        · exact .failed m _ (Except.ok.inj hr).symm fun x _ => rfl
        · rename_i hfits
          exact copyinData_outcome hg hsz h hs (by omega) (by omega) (by omega) hr

end Cases

end LinuxUtil.Fat
