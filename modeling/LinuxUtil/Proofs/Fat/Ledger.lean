/-
What FSInfo and the table say of each other.

`Ledger g m next charged` is the part of an image a call decides by: the two counters of
FSInfo and the entries of the first table, which are in use up to the first free cluster and
free from there on.  Nothing in it depends on the directory or the data, so it survives a
file of any name.

`Verdict` lists all a call can do on such an image, the faults included, and
`Ledger.step` is what it leaves behind if it returns.  Every image reached from
`createFAT32` has a ledger, and what one call takes can be read off the ledgers before and
after it.
-/
import LinuxUtil.Proofs.Fat.Geometry
import LinuxUtil.Lib.Runs

namespace LinuxUtil.Fat

open ByteMem

variable {g : Layout} {m m' : Mem} {next charged : Nat}

/-- `m` has geometry `g`, its first free cluster is `next`, and `charged` clusters have been
taken off the free count. -/
structure Ledger (g : Layout) (m : Mem) (next charged : Nat) : Prop where
  header : Header g m
  nextFree : load m (g.bps + 492) 4 = next
  freeCount : load m (g.bps + 488) 4 + charged = g.initialFree
  charged_le : charged + 3 ≤ next
  /-- Only a volume with no file may have its first free cluster out of bounds. -/
  fits : next = 3 ∨ next ≤ g.maxCluster
  rootChain : g.entry m 2 = 0xFFFFFFFF
  used : ∀ c, c < next → g.entry m c ≠ 0
  free : ∀ x, g.fat1 + 4 * next ≤ x → x < g.fat2 → m x = 0

namespace Ledger

variable (hg : g.WF) (h : Ledger g m next charged)
include hg h

theorem next_le : 4 * next ≤ g.fatBytes := by
  rcases h.fits with h3 | hle
  · have := hg.fatBytes_ge
    omega
  · have := hg.maxCluster_fit
    omega

omit hg in
theorem entry_free {c : Nat} (h1 : next ≤ c) (h2 : 4 * c + 4 ≤ g.fatBytes) : g.entry m c = 0 :=
  load_eq_zero fun x _ _ => h.free x (by omega) (by unfold Layout.fat2; omega)

/-- The free count covers every file that passes the bound on clusters. -/
theorem free_enough {n : Nat} (hfit : next + g.dataClusters n ≤ g.maxCluster) :
    g.dataClusters n ≤ load m (g.bps + 488) 4 := by
  have h1 := h.freeCount
  have h2 := h.charged_le
  have h3 := hg.maxCluster_fit
  have h4 := hg.fatBytes_entries
  have h5 := initialFree_eq hg
  omega

/-- A ledger looks at the reserved sectors in front of the backups, and at the first table. -/
theorem frame (hlow : ∀ x, x < 6 * g.bps → m' x = m x)
    (htab : ∀ x, g.fat1 ≤ x → x < g.fat2 → m' x = m x) : Ledger g m' next charged := by
  have hb := hg.bps_ge
  have hnx := h.next_le hg
  have hch := h.charged_le
  have hf2 : g.fat2 = g.fat1 + g.fatBytes := rfl
  have hentry : ∀ c, c < next → g.entry m' c = g.entry m c := fun c hc =>
    entry_congr fun x _ _ => htab x (by omega) (by omega)
  refine ⟨h.header.congr fun x hx => hlow x (by omega), ?_, ?_, h.charged_le, h.fits, ?_, ?_, ?_⟩
  · rw [load_congr fun x _ _ => hlow x (by omega)]
    exact h.nextFree
  · rw [load_congr fun x _ _ => hlow x (by omega)]
    exact h.freeCount
  · rw [hentry 2 (by omega)]
    exact h.rootChain
  · intro c hc
    rw [hentry c hc]
    exact h.used c hc
  · intro x h1 h2
    rw [htab x (by omega) h2]
    exact h.free x h1 h2

/-- A file that is recorded takes its clusters. -/
theorem commit {m₁ : Mem} (hm₁ : ∀ x, x < g.data → m₁ x = m x) (k : Nat) (name : List UInt8)
    (attr : UInt32) {n : Nat} (hfit : next + g.fileClusters n ≤ g.maxCluster) :
    Ledger g (g.recordAt m₁ k next name attr n (load m (g.bps + 488) 4 - g.dataClusters n))
      (next + g.fileClusters n) (charged + g.dataClusters n) := by
  have hb := hg.bps_ge
  have hmax := hg.maxCluster_lt
  have hent := hg.maxCluster_fit
  have hpos := fileClusters_pos g n
  have hdc : g.dataClusters n ≤ g.fileClusters n := Nat.le_max_right _ _
  have hch := h.charged_le
  have henough := h.free_enough hg (n := n) (by omega)
  have hload : load m (g.bps + 488) 4 < 2 ^ 32 := load_lt m _ 4
  have hf1 : g.fat1 = 8 * g.bps := rfl
  have hf2 : g.fat2 = g.fat1 + g.fatBytes := rfl
  have hd : g.data = g.fat2 + g.fatBytes := rfl
  set rec := g.recordAt m₁ k next name attr n (load m (g.bps + 488) 4 - g.dataClusters n) with hrec
  -- In the first table only the entries of the new chain change.
  have htab : ∀ x, g.fat1 ≤ x → x < g.fat2 →
      (x < g.fat1 + 4 * next ∨ g.fat1 + 4 * (next + g.fileClusters n) ≤ x) → rec x = m x := by
    intro x h1 h2 hout
    rw [hrec, recordAt_high hg h1, writeChain_apply_of_out _ hpos hout (by omega),
      writeDirEntry_below _ _ _ _ _ _ (by omega), hm₁ x (by omega)]
  have hold : ∀ c, c < next → g.entry rec c = g.entry m c := fun c hc =>
    entry_congr fun x _ _ => htab x (by omega) (by omega) (by omega)
  have hchain : ChainAt g rec next (g.fileClusters n) :=
    (writeChain_chain _ hpos (by omega) (by omega)).congr fun x _ _ => recordAt_high hg (by omega)
  refine ⟨h.header.congr fun x hx => ?_, recordAt_nextFree hg hfit, ?_, by omega, Or.inr hfit, ?_,
    ?_, ?_⟩
  · rw [hrec, recordAt_low (by omega) (by omega), hm₁ x (by omega)]
  · rw [hrec, recordAt_freeCount hg, Nat.mod_eq_of_lt (by omega)]
    have := h.freeCount
    omega
  · rw [hold 2 (by omega)]
    exact h.rootChain
  · intro c hc
    by_cases hlt : c < next
    · rw [hold c hlt]
      exact h.used c hlt
    · have := hchain (c - next) (by omega)
      rw [show next + (c - next) = c by omega] at this
      rw [this]
      split <;> omega
  · intro x h1 h2
    rw [htab x (by omega) h2 (by omega)]
    exact h.free x (by omega) h2

end Ledger

/-! ### One call -/

theorem firstFreeEntry_le (m : Mem) (root n : Nat) : firstFreeEntry m root n ≤ n := by
  unfold firstFreeEntry
  cases h : (List.range n).find? fun i => m (root + 32 * i) == 0 with
  | none => exact Nat.le_refl _
  | some i => exact Nat.le_of_lt (List.mem_range.mp (List.mem_of_find?_eq_some h))

theorem firstFreeEntry_zero {root n : Nat} (h : firstFreeEntry m root n < n) :
    m (root + 32 * firstFreeEntry m root n) = 0 := by
  unfold firstFreeEntry at h ⊢
  cases hf : (List.range n).find? fun i => m (root + 32 * i) == 0 with
  | none => simp [hf] at h
  | some i => simpa using List.find?_some hf

theorem firstFreeEntry_eq_length {root n : Nat} :
    firstFreeEntry m root n = n ↔ ∀ i, i < n → m (root + 32 * i) ≠ 0 := by
  constructor
  · intro h i hi h0
    unfold firstFreeEntry at h
    cases hf : (List.range n).find? fun i => m (root + 32 * i) == 0 with
    | none => simpa [h0] using List.find?_eq_none.mp hf i (List.mem_range.mpr hi)
    | some j =>
        have := List.mem_range.mp (List.mem_of_find?_eq_some hf)
        simp only [hf, Option.getD_some] at h
        omega
  · exact fun h => firstFreeEntry_eq (Nat.le_refl _) h fun hlt => absurd hlt (Nat.lt_irrefl _)

/-- The file was rewound, and read in full. -/
def Fd.Reads (fd : Fd) (size : UInt64) : Prop :=
  fd.lseek = .ok 0 ∧ ∃ data, fd.read size.toUInt32 = .ok data ∧ data.length = size.toUInt32.toNat

/-- A file of `n` bytes that passes the checks would start at an offset that does not wrap. -/
def Layout.Addressed (g : Layout) (m : Mem) (next n : Nat) : Prop :=
  next ≤ g.maxCluster → n ≤ g.quota next → firstFreeEntry m g.data (g.bpc / 32) < g.bpc / 32 →
    g.cluster next < 2 ^ 32

/-- On a volume of at most `2 ^ 32` bytes all do. -/
theorem addressed (hg : g.WF) (hsz : g.nSector * g.bps ≤ 2 ^ 32) (h2 : 2 ≤ next) (n : Nat) :
    g.Addressed m next n :=
  fun hnext _ _ => cluster_lt hg hsz h2 hnext

/-- All a call can do on an image whose first free cluster is `next`. -/
inductive Verdict (g : Layout) (m : Mem) (next : Nat) (fd : Fd) (name : List UInt8)
    (attr : UInt32) : Except Fault Reply → Prop
  /-- `fstat` failed. -/
  | untouched (e : Errno) (hs : fd.fstat = .error e) :
      Verdict g m next fd name attr (.ok ⟨0, m, some e⟩)
  /-- The volume never had a free cluster. -/
  | stale (size : UInt64) (hs : fd.fstat = .ok size) (hnext : g.maxCluster < next) :
      Verdict g m next fd name attr (.error (.assertion "incorrect fs"))
  | refused (size : UInt64) (hs : fd.fstat = .ok size) (hnext : next ≤ g.maxCluster)
      (hfull : g.quota next < size.toUInt32.toNat
        ∨ firstFreeEntry m g.data (g.bpc / 32) = g.bpc / 32) :
      Verdict g m next fd name attr (.ok ⟨0, g.sync m, some EDQUOT⟩)
  /-- The file could not be read.  At most the free clusters were written. -/
  | unread (size : UInt64) (hs : fd.fstat = .ok size) (hnext : next ≤ g.maxCluster)
      (hread : ¬ fd.Reads size) (m' : Mem) (e : Errno)
      (hm' : ∀ x, x < g.cluster next → m' x = m x) :
      Verdict g m next fd name attr (.ok ⟨0, g.sync m', some e⟩)
  /-- An empty file, and no cluster in bounds to give it. -/
  | stuck (size : UInt64) (hs : fd.fstat = .ok size) (hread : fd.Reads size)
      (hroot : firstFreeEntry m g.data (g.bpc / 32) < g.bpc / 32)
      (hzero : size.toUInt32.toNat = 0) (hnext : next = g.maxCluster) :
      Verdict g m next fd name attr (.error (.assertion "write out of bound"))
  | stored (size : UInt64) (hs : fd.fstat = .ok size) (hread : fd.Reads size)
      (hroot : firstFreeEntry m g.data (g.bpc / 32) < g.bpc / 32)
      (hsize : size.toUInt32.toNat ≤ g.quota next)
      (hfit : next + g.fileClusters size.toUInt32.toNat ≤ g.maxCluster) (m₁ : Mem)
      (hm₁ : ∀ x, x < g.cluster next → m₁ x = m x) :
      Verdict g m next fd name attr (.ok ⟨UInt32.ofNat (g.dataSector + (next - 2) * g.spc),
        g.recordAt m₁ (firstFreeEntry m g.data (g.bpc / 32)) next name attr size.toUInt32.toNat
          (load m (g.bps + 488) 4 - g.dataClusters size.toUInt32.toNat), none⟩)

section Call

variable {fd : Fd} {name : List UInt8} {attr : UInt32}

/-- A failure to read ends at `err:`, with what was read so far in place. -/
theorem copyinRead_unread (hg : g.WF) {k fiPtr : Nat} {nextFree free alloc ret : UInt32}
    {size : UInt64} {addr : Nat} (hread : ¬ fd.Reads size) :
    ∃ m' e, copyinRead (g.super k) fiPtr m fd name attr nextFree free alloc size.toUInt32 ret addr
        = .ok ⟨0, g.sync m', some e⟩ ∧ ∀ x, x < addr → m' x = m x := by
  unfold copyinRead
  cases hl : fd.lseek with
  | error e => exact ⟨m, e, copyinErr_eq hg k m e, fun x _ => rfl⟩
  | ok off =>
      by_cases hoff : off ≠ 0
      · simp only [if_pos hoff]
        exact ⟨m, fd.errno, copyinErr_eq hg k m _, fun x _ => rfl⟩
      · simp only [if_neg hoff]
        cases hd : fd.read size.toUInt32 with
        | error e => exact ⟨m, e, copyinErr_eq hg k m e, fun x _ => rfl⟩
        | ok data =>
            by_cases hlen : data.length ≠ size.toUInt32.toNat
            · simp only [if_pos hlen]
              exact ⟨_, fd.errno, copyinErr_eq hg k _ _,
                fun x hx => write_apply_of_out _ _ _ (Or.inl hx)⟩
            · exact absurd ⟨by rw [hl, not_not.mp hoff], data, hd, not_not.mp hlen⟩ hread

/-- A file that was read in full goes on to the commit. -/
theorem copyinRead_reads {sb : FAT32Super} {fiPtr : Nat} {nextFree free alloc ret : UInt32}
    {size : UInt64} {addr : Nat} (hread : fd.Reads size) :
    ∃ data, copyinRead sb fiPtr m fd name attr nextFree free alloc size.toUInt32 ret addr
      = copyinCommit sb fiPtr (write m addr data) name attr nextFree free alloc size.toUInt32 ret := by
  obtain ⟨hl, data, hd, hlen⟩ := hread
  refine ⟨data, ?_⟩
  unfold copyinRead
  simp only [hl, hd, hlen, ne_eq, not_true_eq_false, if_false]

variable (hg : g.WF) (h : Ledger g m next charged)
include hg h

theorem Ledger.superInit :
    FAT32SuperInit m = .ok (g.super (firstFreeEntry m g.data (g.bpc / 32))) :=
  superInit_at hg h.header h.rootChain rfl

/-- A file that passed the checks is read, and recorded if there is a cluster for it. -/
theorem Ledger.copyinData_verdict {size : UInt64} (hs : fd.fstat = .ok size)
    (hnext : next ≤ g.maxCluster) (haddr : g.cluster next < 2 ^ 32)
    (hsize : size.toUInt32.toNat ≤ g.quota next)
    (hroot : firstFreeEntry m g.data (g.bpc / 32) < g.bpc / 32) :
    Verdict g m next fd name attr (copyinData (g.super (firstFreeEntry m g.data (g.bpc / 32))) g.bps
      m fd name attr (UInt32.ofNat next) (load32 m (g.bps + 488) 4) size.toUInt32) := by
  have hmax := hg.maxCluster_lt
  have hbpc := hg.bpc_lt
  have hentry := hg.bpc_entries
  have hch := h.charged_le
  have hdc := dataClusters_le hg (Nat.le_trans hsize (quota_le _ _))
  have hpos := fileClusters_pos g size.toUInt32.toNat
  have hbelow := g.cluster_mono (show 3 ≤ next by omega)
  rw [g.cluster_root] at hbelow
  have hfill : ∀ x, x < g.cluster next →
      fill m (g.cluster next) (g.dataClusters size.toUInt32.toNat * g.bpc) 0 x = m x :=
    fun x hx => fill_apply_of_out _ _ _ _ (Or.inl hx)
  rw [copyinData_at hg (by omega) hnext haddr hsize]
  by_cases hread : fd.Reads size
  · obtain ⟨data, heq⟩ := copyinRead_reads hread
    rw [heq]
    set m₁ := write (fill m (g.cluster next) (g.dataClusters size.toUInt32.toNat * g.bpc) 0)
      (g.cluster next) data
    have hm₁ : ∀ x, x < g.cluster next → m₁ x = m x := fun x hx => by
      rw [← hfill x hx]
      exact write_apply_of_out _ _ _ (Or.inl hx)
    have hzero : m₁ (g.data + 32 * firstFreeEntry m g.data (g.bpc / 32)) = 0 := by
      rw [hm₁ _ (by omega)]
      exact firstFreeEntry_zero hroot
    rw [show size.toUInt32 = UInt32.ofNat size.toUInt32.toNat from UInt32.ofNat_toNat.symm,
      UInt32.toNat_ofNat_of_lt' size.toUInt32.toNat_lt]
    by_cases hfit : next + g.fileClusters size.toUInt32.toNat ≤ g.maxCluster
    · have hload : (load32 m (g.bps + 488) 4).toNat = load m (g.bps + 488) 4 :=
        toNat_ofNat_lt (load_lt m _ 4)
      have hdcf : g.dataClusters size.toUInt32.toNat ≤ g.fileClusters size.toUInt32.toNat :=
        Nat.le_max_right _ _
      have henough := h.free_enough hg (n := size.toUInt32.toNat) (by omega)
      rw [copyinCommit_at hg (by omega) (by omega) hzero _ _ _ (by omega) hfit, hload]
      exact .stored size hs hread hroot hsize hfit m₁ hm₁
    · rw [copyinCommit_stuck hg (by omega) (by omega) hzero _ _ _ _ (by omega) (by omega)]
      have h0 : g.dataClusters size.toUInt32.toNat = 0 := by
        unfold Layout.fileClusters at hfit
        omega
      exact .stuck size hs hread hroot ((dataClusters_eq_zero hg).mp h0)
        (by unfold Layout.fileClusters at hfit; omega)
  · obtain ⟨m', e, heq, hm'⟩ := copyinRead_unread hg hread
    rw [heq]
    exact .unread size hs hnext hread m' e fun x hx => (hm' x hx).trans (hfill x hx)

/-- **What a call does**, on an image with a ledger. -/
theorem Ledger.verdict (fd : Fd) (name : List UInt8) (attr : UInt32)
    (haddr : ∀ size, fd.fstat = .ok size → g.Addressed m next size.toUInt32.toNat) :
    Verdict g m next fd name attr (FAT32Copyin m fd name attr) := by
  cases hs : fd.fstat with
  | error e =>
      have heq : FAT32Copyin m fd name attr = .ok ⟨0, m, some e⟩ := by
        unfold FAT32Copyin
        rw [hs]
      rw [heq]
      exact .untouched e hs
  | ok size =>
      have hle := firstFreeEntry_le m g.data (g.bpc / 32)
      rw [copyin_at hg hle (h.superInit hg) h.nextFree hs]
      split
      · exact .stale size hs ‹_›
      · split
        · exact .refused size hs (by omega) ‹_›
        · exact h.copyinData_verdict hg hs (by omega)
            (haddr size hs (by omega) (by omega) (by omega)) (by omega) (by omega)

/-- **One call that returned**: it leaves the ledger as it was, or enters its file. -/
theorem Ledger.step {r : Reply}
    (haddr : ∀ size, fd.fstat = .ok size → g.Addressed m next size.toUInt32.toNat)
    (hr : FAT32Copyin m fd name attr = .ok r) :
    (r.ret = 0 ∧ Ledger g r.buf next charged)
      ∨ (r.ret ≠ 0 ∧ ∃ size, fd.fstat = .ok size
          ∧ Ledger g r.buf (next + g.fileClusters size.toUInt32.toNat)
            (charged + g.dataClusters size.toUInt32.toNat)) := by
  have hb := hg.bps_ge
  have hch := h.charged_le
  have hf1 : g.fat1 = 8 * g.bps := rfl
  have hf2 : g.fat2 = g.fat1 + g.fatBytes := rfl
  have hd : g.data = g.fat2 + g.fatBytes := rfl
  have hbelow := g.cluster_mono (show 3 ≤ next by omega)
  rw [g.cluster_root] at hbelow
  have hsync : ∀ {m' : Mem}, (∀ x, x < g.cluster next → m' x = m x) →
      Ledger g (g.sync m') next charged := by
    intro m' hm'
    refine h.frame hg (fun x hx => ?_) (fun x h1 h2 => ?_)
    · rw [sync_apply_of_out _ (Or.inl hx), hm' x (by omega)]
    · rw [sync_apply_of_out _ (Or.inr (by omega)), hm' x (by omega)]
  have hv := h.verdict hg fd name attr haddr
  rw [hr] at hv
  cases hv with
  | untouched e hs => exact Or.inl ⟨rfl, h⟩
  | refused size hs hnext hfull => exact Or.inl ⟨rfl, hsync fun x _ => rfl⟩
  | unread size hs hnext hread m' e hm' => exact Or.inl ⟨rfl, hsync hm'⟩
  | stored size hs hread hroot hsize hfit m₁ hm₁ =>
      have hpos := fileClusters_pos g size.toUInt32.toNat
      exact Or.inr ⟨sector_ne hg (by omega) (by omega), size, hs,
        h.commit hg (fun x hx => hm₁ x (by omega)) _ name attr hfit⟩

theorem Ledger.kept {r : Reply}
    (haddr : ∀ size, fd.fstat = .ok size → g.Addressed m next size.toUInt32.toNat)
    (hr : FAT32Copyin m fd name attr = .ok r) :
    ∃ next' charged', Ledger g r.buf next' charged' := by
  rcases h.step hg haddr hr with ⟨-, h'⟩ | ⟨-, size, -, h'⟩
  · exact ⟨_, _, h'⟩
  · exact ⟨_, _, h'⟩

end Call

/-! ### Every image that is reached -/

/-- A call for a file of any name. -/
structure Copy where
  name : List UInt8
  attr : UInt32
  fd : Fd

/-- The call returns, and leaves `m'`. -/
def Copied (m : Mem) (c : Copy) (m' : Mem) : Prop :=
  ∃ r, FAT32Copyin m c.fd c.name c.attr = .ok r ∧ r.buf = m'

/-- `m` is reached from `createFAT32` by calls that return. -/
def FATConfig.Reached (config : FATConfig) (m : Mem) : Prop :=
  ∃ buf image calls, createFAT32 buf config = .ok (0, image) ∧ Runs.Reach Copied image calls m

theorem reached_created {buf image : Mem} {config : FATConfig}
    (hc : createFAT32 buf config = .ok (0, image)) : config.Reached image :=
  ⟨buf, image, [], hc, .nil⟩

theorem reached_run {config : FATConfig} {calls done : List Call} (hm : config.Reached m)
    (hrun : run m calls = .ok (m', done)) : config.Reached m' := by
  induction calls generalizing m done with
  | nil =>
      obtain ⟨rfl, -⟩ := Prod.mk.inj (Except.ok.inj hrun)
      exact hm
  | cons c cs ih =>
      obtain ⟨r, rest, hr, hrest, -⟩ := run_cons hrun
      obtain ⟨buf, image, calls, hc, hreach⟩ := hm
      exact ih ⟨buf, image, _, hc, hreach.snoc (e := ⟨c.name.bytes, c.attr, c.fd⟩) ⟨r, hr, rfl⟩⟩ hrest

/-- A new volume has three entries in use, and no cluster taken. -/
theorem createFAT32_ledger {buf image : Mem} {config : FATConfig}
    (hc : createFAT32 buf config = .ok (0, image)) (hlow : config.layout.data < 2 ^ 32) :
    Ledger config.layout image 3 0 := by
  obtain ⟨hg, himg⟩ := createFAT32_image_of_low hc hlow
  obtain ⟨rfl, -⟩ := createFAT32_accepts hc
  obtain ⟨media, hformat⟩ := formatImage_eq buf hg
  have hge := hg.fatBytes_ge
  have hnext : config.layout.next [] = 3 := by simp [Layout.next, Layout.used]
  refine ⟨himg.header, hnext ▸ himg.nextFree, ?_, by omega, Or.inl rfl, himg.rootChain, ?_, ?_⟩
  · simpa [Layout.charged] using himg.freeCount
  · intro c hlt
    rcases (by omega : c = 0 ∨ c = 1 ∨ c = 2) with rfl | rfl | rfl
    · have hload : config.layout.entry (formatImage buf config) 0
          = (0xFFFF00 ||| media.toUInt32).toNat := by
        rw [hformat]
        show load _ (config.layout.fat1 + 0) 4 = _
        exact load_format_fat1 (packed_table media) buf (by omega)
          (by simp [tableFields]) (UInt32.toNat_lt _)
      rw [hload, UInt32.toNat_or]
      have := Nat.left_le_or (n := (0xFFFF00 : UInt32).toNat) (m := media.toUInt32.toNat)
      have h0 : (0xFFFF00 : UInt32).toNat = 0xFFFF00 := rfl
      omega
    · have hload : config.layout.entry (formatImage buf config) 1 = 0x0C000000 := by
        rw [hformat]
        show load _ (config.layout.fat1 + 4) 4 = _
        exact load_format_fat1 (packed_table media) buf (by omega)
          (by simp [tableFields, FAT32_CHUNK_SHUT_BITMASK, FAT32_HDR_ERROR_BITMASK]) (by decide)
      omega
    · rw [himg.rootChain]
      omega
  · exact hnext ▸ himg.freeEntries

/-- **Every image that is reached has a ledger.** -/
theorem reached_ledger {config : FATConfig} (hm : config.Reached m)
    (hsize : config.nSector.toNat * config.bytesPerSector.toNat ≤ 2 ^ 32) :
    config.layout.WF ∧ ∃ next charged, Ledger config.layout m next charged := by
  obtain ⟨buf, image, calls, hc, hreach⟩ := hm
  have hg := (createFAT32_image hc hsize).1
  have hsz : config.layout.nSector * config.layout.bps ≤ 2 ^ 32 := hsize
  refine ⟨hg, hreach.invariant (I := fun m => ∃ next charged, Ledger config.layout m next charged)
    ⟨3, 0, createFAT32_ledger hc (createFAT32_low hc hsize)⟩ ?_⟩
  rintro m₁ m₂ c ⟨next, charged, h⟩ ⟨r, hr, rfl⟩
  have hch := h.charged_le
  exact h.kept hg (fun size _ => addressed hg hsz (by omega) _) hr

/-! ### What a call takes -/

/-- The entries of the first table that are 0 in `m` and not in `m'`. -/
def FATConfig.numTaken (config : FATConfig) (m m' : Mem) : Nat :=
  let first := (config.bytesPerSector * numResevedSector).toNat
  (List.range config.numTableEntry).countP fun c =>
    tableEntry m first c == 0 && tableEntry m' first c != 0

/-- The free count went down by the entries that were taken, and the first free cluster up. -/
structure FATConfig.Accounted (config : FATConfig) (m m' : Mem) : Prop where
  freeCount : load m' (config.bytesPerSector.toNat + 488) 4 + config.numTaken m m'
    = load m (config.bytesPerSector.toNat + 488) 4
  nextFree : load m' (config.bytesPerSector.toNat + 492) 4
    = load m (config.bytesPerSector.toNat + 492) 4 + config.numTaken m m'

/-- A predicate that holds from `a` up to `b` counts the numbers between them. -/
theorem countP_between {p : Nat → Bool} {n a b : Nat} (hab : a ≤ b) (hb : b ≤ n)
    (hp : ∀ c, c < n → (p c = true ↔ a ≤ c ∧ c < b)) : (List.range n).countP p = b - a := by
  have hlow : (List.range' 0 (a - 0)).countP p = 0 :=
    countP_range'_none fun c _ hc => Bool.eq_false_iff.mpr fun h => by
      have := (hp c (by omega)).mp h
      omega
  have hmid : (List.range' a (b - a)).countP p = b - a :=
    countP_range'_all fun c hlo hhi => (hp c (by omega)).mpr (by omega)
  have hhigh : (List.range' b (a + (0 + n - a) - b)).countP p = 0 :=
    countP_range'_none fun c hlo hhi => Bool.eq_false_iff.mpr fun h => by
      have := (hp c (by omega)).mp h
      omega
  rw [List.range_eq_range', countP_range'_split (Nat.zero_le a) (by omega), hlow,
    countP_range'_split hab (by omega), hmid, hhigh]
  omega

/-- The entries between two first free clusters are those that were taken. -/
theorem numTaken_eq {config : FATConfig} (hg : config.layout.WF) {next' charged' : Nat}
    (h : Ledger config.layout m next charged) (h' : Ledger config.layout m' next' charged')
    (hle : next ≤ next') : config.numTaken m m' = next' - next := by
  have hfour := hg.fatBytes_entries
  have hlast := h'.next_le hg
  have hnum : config.numTableEntry = config.layout.fatBytes / 4 := by
    unfold FATConfig.numTableEntry
    rw [fatSizeInSector_toNat hg]
    rfl
  unfold FATConfig.numTaken
  rw [hnum]
  refine countP_between hle (by omega) fun c hc => ?_
  rw [tableEntry_first hg, tableEntry_first hg, Bool.and_eq_true, beq_iff_eq, bne_iff_ne]
  constructor
  · rintro ⟨hzero, hne⟩
    refine ⟨Nat.le_of_not_lt fun hlt => h.used c hlt hzero, Nat.lt_of_not_le fun hge => hne ?_⟩
    exact h'.entry_free hge (by omega)
  · rintro ⟨hge, hlt⟩
    exact ⟨h.entry_free hge (by omega), h'.used c hlt⟩

/-- **A successful call accounts for the clusters it takes** unless the size it uses is 0: an
empty file takes a cluster that the free count does not lose. -/
theorem accounted_iff {config : FATConfig} {fd : Fd} {name : List UInt8} {attr : UInt32}
    {size : UInt64} {r : Reply} (hm : config.Reached m)
    (hsize : config.nSector.toNat * config.bytesPerSector.toNat ≤ 2 ^ 32)
    (hs : fd.fstat = .ok size) (hr : FAT32Copyin m fd name attr = .ok r) (hne : r.ret ≠ 0) :
    config.Accounted m r.buf ↔ size.toNat % 2 ^ 32 ≠ 0 := by
  obtain ⟨hg, next, charged, h⟩ := reached_ledger hm hsize
  have hch := h.charged_le
  rcases h.step hg (fun size _ => addressed hg hsize (by omega) _) hr with ⟨h0, -⟩ | ⟨-, size', hs', h'⟩
  · exact absurd h0 hne
  · obtain rfl := Except.ok.inj (hs.symm.trans hs')
    have htaken := numTaken_eq hg h h' (Nat.le_add_right _ _)
    have hfree := h.freeCount
    have hfree' := h'.freeCount
    have hmax : config.layout.fileClusters size.toUInt32.toNat
        = max 1 (config.layout.dataClusters size.toUInt32.toNat) := rfl
    have hzero := dataClusters_eq_zero hg (n := size.toUInt32.toNat)
    have hlow : size.toUInt32.toNat = size.toNat % 2 ^ 32 := UInt64.toNat_toUInt32 size
    have hload : ∀ m' k, load m' (config.bytesPerSector.toNat + k) 4
        = load m' (config.layout.bps + k) 4 := fun _ _ => rfl
    constructor
    · intro hacc
      have := hacc.freeCount
      rw [hload, hload] at this
      omega
    · intro hpos
      refine ⟨?_, ?_⟩
      · rw [hload, hload]
        omega
      · rw [hload, hload, h.nextFree, h'.nextFree]
        omega

/-- A descriptor of a file of contents `bytes`, all calls on which succeed. -/
def fdOf (bytes : List UInt8) : Fd where
  fstat := .ok (UInt64.ofNat bytes.length)
  lseek := .ok 0
  read := fun n => .ok (bytes.take n.toNat)
  errno := 0
  read_le := by
    intro n bs h
    rw [← Except.ok.inj h, List.length_take]
    exact Nat.min_le_left _ _

/-- The values a call returns that comes back. -/
theorem copyin_ret {fd : Fd} {name : List UInt8} {attr v : UInt32}
    (h : (FAT32Copyin m fd name attr).toOption.map Reply.ret = some v) :
    ∃ r, FAT32Copyin m fd name attr = .ok r ∧ r.ret = v := by
  cases hr : FAT32Copyin m fd name attr with
  | error e => simp [hr, Except.toOption] at h
  | ok r => exact ⟨r, rfl, by simpa [hr, Except.toOption] using h⟩

theorem accounted_hello : ∃ r,
    FAT32Copyin (formatImage (fun _ => 0) smallVolume) (fdOf helloFile) (ascii "A.LONG.NAME") 0
        = .ok r ∧ r.ret = 11
      ∧ smallVolume.Accounted (formatImage (fun _ => 0) smallVolume) r.buf := by
  have hm := reached_created (show createFAT32 (fun _ => 0) smallVolume = .ok (0, _) from rfl)
  have hcheck : (FAT32Copyin (formatImage (fun _ => 0) smallVolume) (fdOf helloFile)
      (ascii "A.LONG.NAME") 0).toOption.map Reply.ret = some 11 := by decide +kernel
  obtain ⟨r, hr, hret⟩ := copyin_ret hcheck
  have hne : r.ret ≠ 0 := by
    rw [hret]
    decide
  exact ⟨r, hr, hret, (accounted_iff hm (by decide) rfl hr hne).mpr (by decide)⟩

/-- An empty file takes a cluster, and the free count stays as it was. -/
theorem accounted_fails :
    ¬ ∀ (config : FATConfig) (m : Mem) (fd : Fd) (name : List UInt8) (attr : UInt32) (r : Reply),
      config.nSector.toNat * config.bytesPerSector.toNat ≤ 2 ^ 32 → config.Reached m →
      FAT32Copyin m fd name attr = .ok r → r.ret ≠ 0 → config.Accounted m r.buf := by
  intro hall
  have hcheck : (FAT32Copyin (formatImage (fun _ => 0) smallVolume) (fdOf []) (ascii "EMPTY")
      0).toOption.map (fun r => (r.ret, load r.buf (512 + 488) 4, load r.buf (512 + 492) 4))
      = some (11, 253, 4) := by decide +kernel
  cases hr : FAT32Copyin (formatImage (fun _ => 0) smallVolume) (fdOf []) (ascii "EMPTY") 0 with
  | error e => simp [hr, Except.toOption] at hcheck
  | ok r =>
      simp only [hr, Except.toOption, Option.map_some, Option.some.injEq, Prod.mk.injEq] at hcheck
      have hacc := hall smallVolume _ (fdOf []) (ascii "EMPTY") 0 r (by decide)
        (reached_created (show createFAT32 (fun _ => 0) smallVolume = .ok (0, _) from rfl)) hr
        (by rw [hcheck.1]; decide)
      have hfree : load r.buf (512 + 488) 4 + _
          = load (formatImage (fun _ => 0) smallVolume) (512 + 488) 4 := hacc.freeCount
      have hnext : load r.buf (512 + 492) 4
          = load (formatImage (fun _ => 0) smallVolume) (512 + 492) 4 + _ := hacc.nextFree
      rw [hcheck.2.1, smallVolume_freeCount] at hfree
      rw [hcheck.2.2, show load (formatImage (fun _ => 0) smallVolume) (512 + 492) 4 = 3 by
        decide +kernel] at hnext
      omega

end LinuxUtil.Fat
