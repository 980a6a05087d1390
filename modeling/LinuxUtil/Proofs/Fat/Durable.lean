/-
What no call breaks.

An image holds everything twice: the table, the BPB and FSInfo.  The copies agree at
any point of any run, and the two formulas that place the second table agree with each
other.  A call that returns 0 leaves the first of each copy alone, with the directory
and the stored files, whatever it was given and however far it got: it has written free
clusters and the two backup sectors at most.
-/
import LinuxUtil.Proofs.Fat.Runs

namespace LinuxUtil.Fat

open ByteMem

variable {g : Layout} {m : Mem} {fs : List Stored}

/-! ### The copies agree -/

theorem fatSizeInSector_toNat {config : FATConfig} (hg : config.layout.WF) :
    (fatSizeInSector config).toNat = config.layout.fatSize := by
  have := hg.fatSize_lt
  rw [fatSizeInSector_eq hg, toNat_ofNat_lt (by omega)]

/-- **The copies agree** at any point of any run: the two tables over their whole length, the
BPB with sector 6 and FSInfo with sector 7.  The super block has the tables where
`createFAT32` laid them out. -/
theorem copies_agree {buf image : Mem} {config : FATConfig} {calls done : List Call}
    (hc : createFAT32 buf config = .ok (0, image))
    (hsize : config.nSector.toNat * config.bytesPerSector.toNat ≤ 2 ^ 32)
    (hrun : run image calls = .ok (m, done)) :
    let bps := config.bytesPerSector.toNat
    let fatSize := (fatSizeInSector config).toNat
    (∀ x, x < fatSize * bps → m ((8 + fatSize) * bps + x) = m (8 * bps + x))
      ∧ (∃ sb, FAT32SuperInit m = .ok sb ∧ sb.tables = [8 * bps, (8 + fatSize) * bps]
          ∧ sb.bytesPerFAT.toNat = fatSize * bps)
      ∧ read m (6 * bps) 512 = read m 0 512
      ∧ read m (7 * bps) 512 = read m bps 512 := by
  obtain ⟨hg, fs, himg, -⟩ := reached_layout hc hsize hrun
  have hf2 : (8 + config.layout.fatSize) * config.layout.bps = config.layout.fat2 := by
    rw [Nat.add_mul]
    rfl
  intro bps fatSize
  have hbps : bps = config.layout.bps := rfl
  have hfs : fatSize = config.layout.fatSize := fatSizeInSector_toNat hg
  rw [hfs, hbps]
  refine ⟨?_, ⟨config.layout.super fs.length, superInit_eq hg himg, ?_, ?_⟩, ?_, ?_⟩
  · intro x hx
    have hlt : config.layout.fat1 + x < config.layout.fat2 := Nat.add_lt_add_left hx _
    rw [hf2, show config.layout.fat2 + x = config.layout.fat1 + x + config.layout.fatBytes by
      unfold Layout.fat2; omega]
    exact himg.mirror _ (Nat.le_add_right _ _) hlt
  · rw [hf2]
    rfl
  · exact toNat_ofNat_lt hg.fatBytes_lt
  · refine read_shift fun i hi => ?_
    rw [himg.bpbCopy i hi, Nat.zero_add]
  · exact read_shift fun i hi => himg.fsInfoCopy i hi

theorem copies_agree_hello : ∃ m,
    run (formatImage (fun _ => 0) smallVolume) [helloCall, helloCall]
      = .ok (m, [helloCall, helloCall])
      ∧ read m (6 * 512) 512 = read m 0 512 ∧ read m (7 * 512) 512 = read m 512 512 := by
  obtain ⟨m, hrun⟩ := helloCall_runs
  obtain ⟨-, -, hbpb, hfs⟩ :=
    copies_agree (show createFAT32 (fun _ => 0) smallVolume = .ok (0, _) from rfl) (by decide) hrun
  exact ⟨m, hrun, hbpb, hfs⟩

/-! ### The start sector -/

/-- The descriptor behaves as one of a regular file of contents `bytes` that nobody changes, of
any size `fstat` can report. -/
structure Fd.Regular (fd : Fd) (bytes : List UInt8) : Prop where
  fstat : ∀ size, fd.fstat = .ok size → size.toNat = bytes.length
  read : ∀ n bs, fd.read n = .ok bs → bs <+: bytes

theorem Fd.Regular.stable {fd : Fd} {bytes : List UInt8} (h : fd.Regular bytes)
    (hsmall : bytes.length < 2 ^ 32) : fd.Stable bytes :=
  ⟨h.fstat, h.read, hsmall⟩

/-- No `read` gets further than `2 ^ 32 - 1` bytes, so what comes after them is not settled. -/
theorem Fd.Regular.set {fd : Fd} {bytes : List UInt8} (h : fd.Regular bytes) (b : UInt8) :
    fd.Regular (bytes.set (2 ^ 32 - 1) b) := by
  refine ⟨fun size hsize => ?_, fun n bs hbs => ?_⟩
  · rw [List.length_set]
    exact h.fstat size hsize
  · have hlen := fd.read_le n bs hbs
    have hlt := n.toNat_lt
    have hpre := h.read n bs hbs
    rw [List.prefix_iff_eq_take] at hpre ⊢
    rw [List.take_set_of_le (by omega)]
    exact hpre

/-- **The sector a call returns is where its file is**, however many calls come before and after
it: the bytes are in consecutive sectors of the volume. -/
theorem copyin_start_sector {buf image m₁ : Mem} {config : FATConfig} {pre post d₁ d₂ : List Call}
    {c : Call} {r : Reply} {bytes : List UInt8} (hc : createFAT32 buf config = .ok (0, image))
    (hsize : config.nSector.toNat * config.bytesPerSector.toNat ≤ 2 ^ 32)
    (hpre : run image pre = .ok (m₁, d₁)) (hr : FAT32Copyin m₁ c.fd c.name.bytes c.attr = .ok r)
    (hne : r.ret ≠ 0) (hpost : run r.buf post = .ok (m, d₂)) (hfd : c.fd.Stable bytes) :
    read m (r.ret.toNat * config.bytesPerSector.toNat) bytes.length = bytes
      ∧ r.ret.toNat * config.bytesPerSector.toNat + bytes.length
        ≤ config.nSector.toNat * config.bytesPerSector.toNat := by
  obtain ⟨hg, fs, himg, -⟩ := reached_layout hc hsize hpre
  rcases copyin_image hg hsize himg hr with ⟨h0, -⟩ | ⟨-, hret, f, hf, himg₁⟩
  · exact absurd h0 hne
  · obtain ⟨new, -, himg₂⟩ := run_image hg hsize post _ _ _ _ himg₁ hpost
    have hj : (fs ++ [f] ++ new)[fs.length]? = some f := by simp
    have hstart : config.layout.start (fs ++ [f] ++ new) fs.length = config.layout.next fs := by
      unfold Layout.start
      rw [List.append_assoc, List.take_left]
    have hle := himg₂.clusters_le hj
    have hfit := contents_fit hg hj
    have hcontents := himg₂.contents _ f hj
    rw [hstart] at hle hfit hcontents
    have hret' : r.ret.toNat = config.layout.startSector fs := by
      have h1 := startSector_lt hg (show config.layout.next fs ≤ config.layout.maxCluster by omega)
      have h2 := hg.nSector_lt
      rw [hret, toNat_ofNat_lt (by omega)]
    have haddr : r.ret.toNat * config.bytesPerSector.toNat
        = config.layout.cluster (config.layout.next fs) := by
      rw [hret']
      exact startSector_bytes fs
    have hend : config.layout.cluster (config.layout.next (fs ++ [f] ++ new))
        ≤ config.nSector.toNat * config.bytesPerSector.toNat := by
      refine Nat.le_trans ?_ hg.data_fit
      exact Nat.add_le_add_left (Nat.mul_le_mul_left _ (by
        have := himg₂.fits (by simp)
        omega)) _
    rw [haddr, ← hf.bytes_eq hfd]
    exact ⟨hcontents, by omega⟩

/-! ### A failed call -/

section Failed

variable {fd : Fd} {name : List UInt8} {attr : UInt32} {r : Reply}

/-- A call that returns 0 leaves an image of the same files, and every byte below the first free
cluster that is not in a backup sector. -/
theorem copyin_failed (hg : g.WF) (hsz : g.nSector * g.bps ≤ 2 ^ 32) (h : Image g m fs)
    (hr : FAT32Copyin m fd name attr = .ok r) (h0 : r.ret = 0) :
    Image g r.buf fs ∧ ∀ x, x < g.cluster (g.next fs) → (x < 6 * g.bps ∨ g.fat1 ≤ x) →
      r.buf x = m x := by
  cases copyin_cases hg hsz h hr with
  | untouched e hr =>
      subst hr
      exact ⟨h, fun x _ _ => rfl⟩
  | failed m' e hr hm' =>
      subst hr
      refine ⟨h.failed hg hm', fun x hx hout => ?_⟩
      show g.sync m' x = m x
      rw [sync_apply_of_out _ hout, hm' x hx]
  | stored size data hstat hread hlen hroot hfit hr =>
      subst hr
      have hpos := fileClusters_pos g data.length
      exact absurd h0 (startSector_ne hg (by omega))

/-- **A failed call changes nothing that counts.**  Whatever the name and whatever the operating
system answers, a call that returns 0 leaves both tables, the root directory, the BPB, FSInfo
and the contents of the stored files byte for byte as they were. -/
theorem copyin_failure_atomic {buf image : Mem} {config : FATConfig} {calls done : List Call}
    (hc : createFAT32 buf config = .ok (0, image))
    (hsize : config.nSector.toNat * config.bytesPerSector.toNat ≤ 2 ^ 32)
    (hrun : run image calls = .ok (m, done))
    (hr : FAT32Copyin m fd name attr = .ok r) (h0 : r.ret = 0) :
    ∃ sb, FAT32SuperInit m = .ok sb ∧ FAT32SuperInit r.buf = .ok sb ∧ sb.tables.length = 2
      ∧ (∀ t ∈ sb.tables, read r.buf t sb.bytesPerFAT.toNat = read m t sb.bytesPerFAT.toNat)
      ∧ (∀ j, j < sb.numRootEntry.toNat →
          read r.buf (sb.rootEntry j) 32 = read m (sb.rootEntry j) 32)
      ∧ read r.buf 0 512 = read m 0 512
      ∧ read r.buf config.bytesPerSector.toNat 512 = read m config.bytesPerSector.toNat 512
      ∧ ∀ j, j < done.length → ∀ t ∈ sb.tables,
          ∃ bytes, sb.contentsAt m t j = some bytes ∧ sb.contentsAt r.buf t j = some bytes := by
  obtain ⟨hg, fs, himg, hfs⟩ := reached_layout hc hsize hrun
  obtain ⟨himg', hkeep⟩ := copyin_failed hg hsize himg hr h0
  have hb := hg.bps_ge
  have hroot := data_le_cluster (g := config.layout) fs
  have hf1 : config.layout.fat1 = 8 * config.layout.bps := rfl
  have hf2 : config.layout.fat2 = config.layout.fat1 + config.layout.fatBytes := rfl
  have hdata : config.layout.data = config.layout.fat2 + config.layout.fatBytes := rfl
  have hfat : (config.layout.super fs.length).bytesPerFAT.toNat = config.layout.fatBytes :=
    toNat_ofNat_lt hg.fatBytes_lt
  have hnum : (config.layout.super fs.length).numRootEntry.toNat = config.layout.bpc / 32 :=
    toNat_ofNat_lt (by have := hg.bpc_lt; omega)
  have hbps : config.bytesPerSector.toNat = config.layout.bps := rfl
  have hread : ∀ a n, a + n ≤ config.layout.cluster (config.layout.next fs) →
      (a + n ≤ 6 * config.layout.bps ∨ config.layout.fat1 ≤ a) → read r.buf a n = read m a n := by
    intro a n hle hout
    exact read_congr fun x _ _ => hkeep x (by omega) (by omega)
  refine ⟨config.layout.super fs.length, superInit_eq hg himg, superInit_eq hg himg', rfl,
    ?_, ?_, ?_, ?_, ?_⟩
  · intro t ht
    rw [hfat]
    rcases List.mem_cons.mp ht with rfl | ht
    · exact hread _ _ (by omega) (Or.inr (Nat.le_refl _))
    · rw [List.mem_singleton.mp ht]
      exact hread _ _ (by omega) (Or.inr (by omega))
  · intro j hj
    have hent := hg.bpc_entries
    have hentry : (config.layout.super fs.length).rootEntry j = config.layout.data + 32 * j := rfl
    rw [hnum] at hj
    rw [hentry]
    exact hread _ _ (by omega) (Or.inr (by omega))
  · exact hread _ _ (by omega) (Or.inl (by omega))
  · rw [hbps]
    exact hread _ _ (by omega) (Or.inl (by omega))
  · intro j hj t ht
    have hlt : j < fs.length := hfs.length_eq ▸ hj
    have hf : fs[j]? = some fs[j] := List.getElem?_eq_getElem hlt
    exact ⟨fs[j].bytes, himg.contentsAt_eq hf hg hsize ht, himg'.contentsAt_eq hf hg hsize ht⟩

end Failed

/-- A descriptor whose `read` comes back short. -/
def shortFd : Fd where
  fstat := .ok 3
  lseek := .ok 0
  read := fun n => .ok (helloFile.take (min n.toNat 2))
  errno := 5
  read_le := by
    intro n bs h
    rw [← Except.ok.inj h, List.length_take]
    omega

theorem shortFd_fails : ∃ m r,
    run (formatImage (fun _ => 0) smallVolume) [helloCall] = .ok (m, [helloCall])
      ∧ FAT32Copyin m shortFd (ascii "A.LONG.NAME") 0 = .ok r ∧ r.ret = 0 := by
  have hret : ((run (formatImage (fun _ => 0) smallVolume) [helloCall]).toOption.map
      fun s => (s.2.length, (FAT32Copyin s.1 shortFd (ascii "A.LONG.NAME") 0).toOption.map
        fun r => r.ret)) = some (1, some 0) := by decide +kernel
  cases hrun : run (formatImage (fun _ => 0) smallVolume) [helloCall] with
  | error e => simp [hrun, Except.toOption] at hret
  | ok s =>
      obtain ⟨m, done⟩ := s
      simp only [hrun, Except.toOption, Option.map_some, Option.some.injEq, Prod.mk.injEq] at hret
      obtain rfl := (run_sublist _ _ _ _ hrun).eq_of_length hret.1
      cases hcall : FAT32Copyin m shortFd (ascii "A.LONG.NAME") 0 with
      | error e => simp [hcall] at hret
      | ok r => exact ⟨m, r, rfl, hcall, by simpa [hcall] using hret.2⟩

theorem copyin_failure_atomic_short : ∃ m r sb,
    run (formatImage (fun _ => 0) smallVolume) [helloCall] = .ok (m, [helloCall])
      ∧ FAT32Copyin m shortFd (ascii "A.LONG.NAME") 0 = .ok r ∧ r.ret = 0
      ∧ FAT32SuperInit m = .ok sb ∧ FAT32SuperInit r.buf = .ok sb
      ∧ ∀ t ∈ sb.tables, read r.buf t sb.bytesPerFAT.toNat = read m t sb.bytesPerFAT.toNat := by
  obtain ⟨m, r, hrun, hr, h0⟩ := shortFd_fails
  obtain ⟨sb, hinit, hinit', -, htab, -⟩ := copyin_failure_atomic
    (show createFAT32 (fun _ => 0) smallVolume = .ok (0, _) from rfl) (by decide) hrun hr h0
  exact ⟨m, r, sb, hrun, hr, h0, hinit, hinit', htab⟩

end LinuxUtil.Fat
