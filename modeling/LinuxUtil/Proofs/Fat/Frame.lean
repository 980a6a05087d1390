/-
Nothing behind a volume changes.

`createFAT32` and `FAT32Copyin` get a pointer to a volume and never learn how long the memory
behind it is.  `format_above` and `copyin_above` say that they write in front of its last
sector's end whatever happens, so a volume can be one partition of a disk.
-/
import LinuxUtil.Proofs.Fat.Geometry

namespace LinuxUtil.Fat

open ByteMem

variable {g : Layout} {m m' : Mem} {fs : List Stored} {x : Nat}

/-- The end of the volume is behind the clusters, and they are behind everything else. -/
theorem above_regions (hg : g.WF) (hx : g.nSector * g.bps ≤ x) :
    g.data + g.bpc ≤ x ∧ g.fat2 + g.fatBytes ≤ x ∧ 8 * g.bps ≤ x := by
  have h1 := hg.root_fit
  have hf1 : g.fat1 = 8 * g.bps := rfl
  have hf2 : g.fat2 = g.fat1 + g.fatBytes := rfl
  have hd : g.data = g.fat2 + g.fatBytes := rfl
  omega

theorem format_above (hg : g.WF) {bpb fsInfo table : List Field} (hbpb : Packed 0 bpb 512)
    (hfs : Packed 0 fsInfo 512) (htab : Packed 0 table 12) (buf : Mem)
    (hx : g.nSector * g.bps ≤ x) : g.format buf bpb fsInfo table x = buf x :=
  format_apply_of_out hg hbpb hfs htab buf fun r hr =>
    Or.inr (Nat.le_trans (regions_inside hg r hr) hx)

theorem createFAT32_above {buf image : Mem} {config : FATConfig} (hg : config.layout.WF)
    (hc : createFAT32 buf config = .ok (0, image))
    (hx : config.layout.nSector * config.layout.bps ≤ x) : image x = buf x := by
  obtain ⟨rfl, -⟩ := createFAT32_accepts hc
  obtain ⟨media, hformat⟩ := formatImage_eq buf hg
  rw [hformat]
  exact format_above hg (packed_bpb _ _ _ _) (packed_fsInfo _) (packed_table _) buf hx

theorem sync_above (hg : g.WF) (m : Mem) (hx : g.nSector * g.bps ≤ x) : g.sync m x = m x :=
  sync_apply_of_out m (Or.inr (above_regions hg hx).2.2)

theorem record_above (hg : g.WF) {name : FileName} {attr : UInt32} {n : Nat}
    (hroot : fs.length < g.bpc / 32) (hfit : g.next fs + g.fileClusters n ≤ g.maxCluster)
    (hx : g.nSector * g.bps ≤ x) : g.record m fs name.bytes attr n x = m x := by
  have hent := hg.bpc_entries
  obtain ⟨hdata, -, -⟩ := above_regions hg hx
  rw [record_data hg hfit (by omega), writeDirEntry_apply_of_out _ _ _ _ _ _ (Or.inr (by omega))]

/-- The bytes of a file that passed the size check end in front of the volume's end. -/
theorem cluster_quota_le (hg : g.WF) {c : Nat} (h2 : 2 ≤ c) (hc : c ≤ g.maxCluster) :
    g.cluster c + g.bpc * (g.maxCluster - c) ≤ g.nSector * g.bps := by
  have hfit := hg.data_fit
  have hsum := g.cluster_add (d := g.maxCluster - c) h2
  have hmono := Nat.mul_le_mul_left g.bpc (show g.maxCluster - 2 ≤ g.maxCluster by omega)
  rw [show c + (g.maxCluster - c) = g.maxCluster by omega] at hsum
  rw [← hsum]
  unfold Layout.cluster
  omega

section Call

variable {fd : Fd} {name : FileName} {attr : UInt32} {r : Reply}

/-- What a call that got as far as the data wrote there is in front of the end. -/
theorem copyinRead_above (hg : g.WF) (h : Image g m fs) {size : UInt64}
    (hroot : fs.length < g.bpc / 32) (hnext : g.next fs ≤ g.maxCluster)
    (hsize : size.toUInt32.toNat ≤ g.quota (g.next fs)) (hx : g.nSector * g.bps ≤ x)
    (hr : copyinRead (g.super fs.length) g.bps
      (fill m (g.cluster (g.next fs)) (g.dataClusters size.toUInt32.toNat * g.bpc) 0) fd name.bytes
      attr (UInt32.ofNat (g.next fs)) (load32 m (g.bps + 488) 4)
      (UInt32.ofNat (g.dataClusters size.toUInt32.toNat)) size.toUInt32
      (UInt32.ofNat (g.startSector fs)) (g.cluster (g.next fs)) = .ok r) : r.buf x = m x := by
  have hent := hg.bpc_entries
  have hend := cluster_quota_le hg (Nat.le_of_succ_le (next_ge fs)) hnext
  have hquota := quota_le g (g.next fs)
  have hdc := dataClusters_le hg (Nat.le_trans hsize hquota)
  have hclear := Nat.mul_le_mul_left g.bpc hdc
  have hfill : fill m (g.cluster (g.next fs)) (g.dataClusters size.toUInt32.toNat * g.bpc) 0 x
      = m x :=
    fill_apply_of_out _ _ _ _ (Or.inr (by rw [Nat.mul_comm (g.dataClusters _)]; omega))
  have hwrite : ∀ data : List UInt8, data.length ≤ size.toUInt32.toNat →
      write (fill m (g.cluster (g.next fs)) (g.dataClusters size.toUInt32.toNat * g.bpc) 0)
        (g.cluster (g.next fs)) data x = m x := fun data hlen => by
    rw [write_apply_of_out _ _ _ (Or.inr (by omega)), hfill]
  have herr : ∀ {m'' : Mem} {e : Errno}, m'' x = m x →
      copyinErr (g.super fs.length) m'' e = .ok r → r.buf x = m x := by
    intro m'' e hm'' hr
    rw [copyinErr_eq hg] at hr
    rw [← Except.ok.inj hr, ← hm'']
    exact sync_above hg m'' hx
  unfold copyinRead at hr
  cases hl : fd.lseek with
  | error e => rw [hl] at hr; exact herr hfill hr
  | ok off =>
      rw [hl] at hr
      simp only at hr
      by_cases hoff : off ≠ 0
      · rw [if_pos hoff] at hr
        exact herr hfill hr
      · rw [if_neg hoff] at hr
        cases hd : fd.read size.toUInt32 with
        | error e => rw [hd] at hr; exact herr hfill hr
        | ok data =>
            have hle := fd.read_le _ _ hd
            rw [hd] at hr
            simp only at hr
            by_cases hlen : data.length ≠ size.toUInt32.toNat
            · rw [if_pos hlen] at hr
              exact herr (hwrite data hle) hr
            · rw [if_neg hlen] at hr
              have hlen : data.length = size.toUInt32.toNat := not_not.mp hlen
              have hzero : g.putData m fs data.length data (g.data + 32 * fs.length) = 0 := by
                rw [putData_below m fs _ _ (root_below fs (by omega))]
                exact h.dirFree _ (Nat.le_refl _) (by omega)
              have hput : write (fill m (g.cluster (g.next fs))
                  (g.dataClusters size.toUInt32.toNat * g.bpc) 0) (g.cluster (g.next fs)) data
                = g.putData m fs data.length data := by
                rw [Layout.putData, hlen]
              have hn : size.toUInt32 = UInt32.ofNat data.length := by
                rw [hlen, UInt32.ofNat_toNat]
              rw [hput, ← hlen, hn] at hr
              have hlt := size.toUInt32.toNat_lt
              by_cases hfit : g.next fs + g.fileClusters data.length ≤ g.maxCluster
              · rw [copyinCommit_eq hg h hroot hzero name.bytes attr _ hfit] at hr
                rw [← Except.ok.inj hr]
                show g.record _ fs name.bytes attr data.length x = m x
                rw [record_above hg hroot hfit hx, ← hput]
                exact hwrite data hle
              · rw [copyinCommit_stuck hg (by have := hg.bpc_lt; omega)
                  (by have := hg.maxCluster_lt; omega) hzero name.bytes attr _ _
                  (by rw [hlen]; omega) (by omega)] at hr
                simp at hr

/-- **A call leaves everything behind the volume as it was**, also when it fails. -/
theorem copyin_above (hg : g.WF) (hsz : g.nSector * g.bps ≤ 2 ^ 32) (h : Image g m fs)
    (hx : g.nSector * g.bps ≤ x) (hr : FAT32Copyin m fd name.bytes attr = .ok r) :
    r.buf x = m x := by
  have hrootFits := h.rootFits
  have hent := hg.bpc_entries
  cases hs : fd.fstat with
  | error e =>
      unfold FAT32Copyin at hr
      rw [hs] at hr
      rw [← Except.ok.inj hr]
  | ok size =>
      rw [copyin_at hg (by omega) (superInit_eq hg h) h.nextFree hs] at hr
      split at hr
      · simp at hr
      · rename_i hnext
        split at hr
        · rw [← Except.ok.inj hr]
          exact sync_above hg m hx
        · rename_i hfits
          rw [copyinData_eq hg hsz (by omega) (by omega)] at hr
          exact copyinRead_above hg h (by omega) (by omega) (by omega) hx hr

end Call

end LinuxUtil.Fat
