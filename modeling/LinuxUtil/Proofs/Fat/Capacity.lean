/-
How much a volume holds.

A readable file goes in exactly when there are clusters for it and an entry in the root
directory (`copyin_stores_iff`).  No cluster is lost between files, so a whole list of them goes
in exactly when their clusters together are there: `run_stores_iff`, by induction over the
calls.
-/
import LinuxUtil.Proofs.Fat.Frame
import LinuxUtil.Proofs.Fat.Accept

namespace LinuxUtil.Fat

open ByteMem

variable {g : Layout} {m m' : Mem} {fs : List Stored} {fd : Fd} {name : FileName} {attr : UInt32}
  {bytes : List UInt8}

/-! ### One file -/

theorem Fd.Readable.stable (h : fd.Readable bytes) (hlt : bytes.length < 2 ^ 32) : fd.Stable bytes where
  fstat := by
    intro size hs
    obtain ⟨size', hs', hlen⟩ := h.fstat
    obtain rfl := Except.ok.inj (hs.symm.trans hs')
    exact hlen
  read := by
    intro n bs hbs
    rw [← Except.ok.inj ((h.read n).symm.trans hbs)]
    exact List.take_prefix _ _
  small := hlt

/-- A readable file is stored if there is room for it. -/
theorem copyin_stores (hg : g.WF) (hsz : g.nSector * g.bps ≤ 2 ^ 32) (h : Image g m fs)
    (hfd : fd.Readable bytes) (hlt : bytes.length < 2 ^ 32) (hroot : fs.length < g.bpc / 32)
    (hfit : g.next fs + g.fileClusters bytes.length ≤ g.maxCluster) :
    FAT32Copyin m fd name.bytes attr = .ok ⟨UInt32.ofNat (g.startSector fs),
      g.record (g.putData m fs bytes.length bytes) fs name.bytes attr bytes.length, none⟩ := by
  obtain ⟨size, hs, hlen⟩ := hfd.fstat
  have hent := hg.bpc_entries
  have hpos := fileClusters_pos g bytes.length
  have hsize : size.toUInt32.toNat = bytes.length := by
    rw [UInt64.toNat_toUInt32, hlen, Nat.mod_eq_of_lt hlt]
  have hn : size.toUInt32 = UInt32.ofNat bytes.length := by
    rw [← hsize, UInt32.ofNat_toNat]
  have hdc : g.dataClusters bytes.length ≤ g.maxCluster - g.next fs := by
    have : g.dataClusters bytes.length ≤ g.fileClusters bytes.length := Nat.le_max_right _ _
    omega
  have hquota : size.toUInt32.toNat ≤ g.quota (g.next fs) := by
    rw [hsize, quota_eq hg hsz]
    exact (dataClusters_le_iff hg).mp hdc
  have hzero : g.putData m fs bytes.length bytes (g.data + 32 * fs.length) = 0 := by
    rw [putData_below m fs _ _ (root_below fs (by omega))]
    exact h.dirFree _ (Nat.le_refl _) (by omega)
  have hread : fd.read (UInt32.ofNat bytes.length) = .ok bytes := by
    rw [hfd.read, toNat_ofNat_lt hlt, List.take_length]
  rw [copyin_at hg (by omega) (superInit_eq hg h) h.nextFree hs, if_neg (by omega),
    if_neg (by omega), copyinData_eq hg hsz (by omega) hquota, hsize, hn]
  unfold copyinRead
  simp only [hfd.lseek, hread, toNat_ofNat_lt hlt, ne_eq, not_true_eq_false, if_false]
  exact copyinCommit_eq hg h hroot hzero name.bytes attr _ hfit

/-- **A readable file is stored exactly when there is room for it.** -/
theorem copyin_stores_iff (hg : g.WF) (hsz : g.nSector * g.bps ≤ 2 ^ 32) (h : Image g m fs)
    (hfd : fd.Readable bytes) (hlt : bytes.length < 2 ^ 32) :
    (∃ r, FAT32Copyin m fd name.bytes attr = .ok r ∧ r.ret ≠ 0)
      ↔ fs.length < g.bpc / 32 ∧ g.next fs + g.fileClusters bytes.length ≤ g.maxCluster := by
  constructor
  · rintro ⟨r, hr, hne⟩
    cases copyin_cases hg hsz h hr with
    | untouched e hr => exact absurd (by rw [hr]) hne
    | failed m' e hr hm' => exact absurd (by rw [hr]) hne
    | stored size data hstat hread hlen hroot hfit hr =>
        have hall : data = bytes := by
          obtain ⟨size', hs, hsize⟩ := hfd.fstat
          obtain rfl := Except.ok.inj (hs.symm.trans hstat)
          have hn : size'.toUInt32.toNat = bytes.length := by
            rw [UInt64.toNat_toUInt32, hsize, Nat.mod_eq_of_lt hlt]
          rw [← Except.ok.inj ((hfd.read _).symm.trans hread), hn, List.take_length]
        rw [hall] at hfit
        exact ⟨hroot, hfit⟩
  · rintro ⟨hroot, hfit⟩
    have hpos := fileClusters_pos g bytes.length
    exact ⟨_, copyin_stores hg hsz h hfd hlt hroot hfit, startSector_ne hg (by omega)⟩

/-! ### A list of files -/

/-- The clusters of files of these contents. -/
def Layout.demand (g : Layout) (contents : List (List UInt8)) : Nat :=
  (contents.map fun bytes => g.fileClusters bytes.length).sum

/-- The call copies in a file of these contents, smaller than `2 ^ 32` bytes. -/
def Call.Supplies (c : Call) (bytes : List UInt8) : Prop :=
  c.fd.Readable bytes ∧ bytes.length < 2 ^ 32

theorem run_cons_eq {c : Call} {cs done : List Call} {r : Reply}
    (hr : FAT32Copyin m c.fd c.name.bytes c.attr = .ok r) (hne : r.ret ≠ 0)
    (h : run r.buf cs = .ok (m', done)) : run m (c :: cs) = .ok (m', c :: done) := by
  unfold run
  simp only [hr, h, bind, Except.bind, pure, Except.pure, if_pos hne]

/-- A readable file that was stored is the next file of the image. -/
theorem copyin_stored (hg : g.WF) (hsz : g.nSector * g.bps ≤ 2 ^ 32) (h : Image g m fs) {c : Call}
    (hc : c.Supplies bytes) {r : Reply} (hr : FAT32Copyin m c.fd c.name.bytes c.attr = .ok r)
    (hne : r.ret ≠ 0) : ∃ f, f.bytes = bytes ∧ Image g r.buf (fs ++ [f]) := by
  rcases copyin_image hg hsz h hr with ⟨h0, -⟩ | ⟨-, -, f, hf, himg⟩
  · exact absurd h0 hne
  · obtain ⟨size, hstat, hread, hlen⟩ := hf.size
    obtain ⟨size', hs, hsize⟩ := hc.1.fstat
    obtain rfl := Except.ok.inj (hs.symm.trans hstat)
    have hn : size'.toUInt32.toNat = bytes.length := by
      rw [UInt64.toNat_toUInt32, hsize, Nat.mod_eq_of_lt hc.2]
    refine ⟨f, ?_, himg⟩
    rw [← Except.ok.inj ((hc.1.read _).symm.trans hread), hn, List.take_length]

/-- **A list of readable files goes in exactly when its clusters and entries are there.** -/
theorem Image.run_stores (hg : g.WF) (hsz : g.nSector * g.bps ≤ 2 ^ 32) :
    ∀ (calls : List Call) (contents : List (List UInt8)) (m : Mem) (fs : List Stored),
      Image g m fs → List.Forall₂ Call.Supplies calls contents → calls ≠ [] →
      ((∃ m', run m calls = .ok (m', calls))
        ↔ fs.length + calls.length ≤ g.bpc / 32 ∧ g.next fs + g.demand contents ≤ g.maxCluster) := by
  intro calls
  induction calls with
  | nil => intro contents m fs _ _ hne; exact absurd rfl hne
  | cons c cs ih =>
      intro contents m fs h hall _
      cases hall with
      | cons hc hcs =>
          rename_i bytes rest
          have hdemand : g.demand (bytes :: rest) = g.fileClusters bytes.length + g.demand rest := by
            simp [Layout.demand]
          have hstores : (∃ r, FAT32Copyin m c.fd c.name.bytes c.attr = .ok r ∧ r.ret ≠ 0)
              ↔ fs.length < g.bpc / 32 ∧ g.next fs + g.fileClusters bytes.length ≤ g.maxCluster :=
            copyin_stores_iff hg hsz h hc.1 hc.2
          -- What is left for the other files, once the first has been stored.
          have hlater : ∀ r, FAT32Copyin m c.fd c.name.bytes c.attr = .ok r → r.ret ≠ 0 → cs ≠ [] →
              ((∃ m', run r.buf cs = .ok (m', cs))
                ↔ fs.length + (cs.length + 1) ≤ g.bpc / 32
                  ∧ g.next fs + (g.fileClusters bytes.length + g.demand rest) ≤ g.maxCluster) := by
            intro r hr hne hcs'
            obtain ⟨f, hf, himg⟩ := copyin_stored hg hsz h hc hr hne
            have hnext : g.next (fs ++ [f]) = g.next fs + g.fileClusters bytes.length := by
              rw [next_append, ← hf]
              rfl
            rw [ih rest r.buf (fs ++ [f]) himg hcs hcs', hnext, List.length_append,
              List.length_singleton, Nat.add_assoc, Nat.add_assoc, Nat.add_comm 1]
          rw [hdemand, List.length_cons]
          constructor
          · rintro ⟨m', hrun⟩
            obtain ⟨r, later, hr, hrest, hdone⟩ := run_cons hrun
            by_cases h0 : r.ret ≠ 0
            · rw [if_pos h0] at hdone
              rw [← (List.cons.inj hdone).2] at hrest
              by_cases hnil : cs = []
              · subst hnil
                cases hcs
                obtain ⟨hroot, hfit⟩ := hstores.mp ⟨r, hr, h0⟩
                exact ⟨hroot, by simpa [Layout.demand] using hfit⟩
              · exact (hlater r hr h0 hnil).mp ⟨m', hrest⟩
            · rw [if_neg h0] at hdone
              have hle := (run_sublist _ _ _ _ hrest).length_le
              rw [← hdone, List.length_cons] at hle
              omega
          · rintro ⟨hroot, hfit⟩
            obtain ⟨r, hr, hne⟩ := hstores.mpr ⟨by omega, by omega⟩
            by_cases hnil : cs = []
            · subst hnil
              exact ⟨r.buf, run_cons_eq hr hne rfl⟩
            · obtain ⟨m', hrest⟩ := (hlater r hr hne hnil).mpr ⟨hroot, hfit⟩
              exact ⟨m', run_cons_eq hr hne hrest⟩

end LinuxUtil.Fat
