/-
Whole runs: an image is created, and files are copied into it one after the other.

`copyin_image` is the step: a call that returns 0 leaves an image of the same files, any
other has added one.  `run_image` is the run, by induction over the calls.  The two
main results read off it what every image that is ever reached looks like: the files
copied in so far come back byte for byte, and the tables are clean.
-/
import LinuxUtil.Proofs.Fat.Walk
import Mathlib.Data.List.Forall2

namespace LinuxUtil.Fat

open ByteMem

/-- One call of `FAT32Copyin`. -/
structure Call where
  name : FileName
  attr : UInt32
  fd : Fd

/-- Make the calls in turn.  Gives the image at the end and the calls that did not return 0. -/
def run : Mem → List Call → Except Fault (Mem × List Call)
  | m, [] => .ok (m, [])
  | m, c :: cs => do
      let r ← FAT32Copyin m c.fd c.name.bytes c.attr
      let (m', done) ← run r.buf cs
      return (m', if r.ret ≠ 0 then c :: done else done)

/-- `f` is what the call was given to store. -/
structure Call.Stores (c : Call) (f : Stored) : Prop where
  name : f.name = c.name
  size : ∃ size, c.fd.fstat = .ok size ∧ c.fd.read size.toUInt32 = .ok f.bytes
    ∧ f.bytes.length = size.toUInt32.toNat

variable {g : Layout} {m m' : Mem} {fs : List Stored}

/-! ### Steps and runs -/

theorem Image.failed (hg : g.WF) (h : Image g m fs)
    (hm' : ∀ x, x < g.cluster (g.next fs) → m' x = m x) : Image g (g.sync m') fs := by
  have hb := hg.bps_ge
  have hd := data_le_cluster (g := g) fs
  have hf1 : g.fat1 = 8 * g.bps := rfl
  have hdata : g.data = g.fat1 + g.fatBytes + g.fatBytes := rfl
  refine h.frame hg ?_ ?_ ?_ ?_
  · intro x hx
    rw [sync_apply_of_out _ (Or.inl hx), hm' x (by omega)]
  · intro x h1 h2
    rw [sync_apply_of_out _ (Or.inr (by omega)), hm' x h2]
  · intro x hx
    rw [sync_bpb _ (by omega), sync_apply_of_out _ (Or.inl (by omega))]
  · intro x hx
    rw [sync_fsInfo _ (by omega), sync_apply_of_out _ (Or.inl (by omega))]

theorem startSector_ne (hg : g.WF) (h : g.next fs ≤ g.maxCluster) :
    UInt32.ofNat (g.startSector fs) ≠ 0 :=
  sector_ne hg (Nat.le_of_succ_le (next_ge fs)) h

/-- **One call**: an image stays an image, and a call that does not return 0 adds its file, at the
sector it returns. -/
theorem copyin_image (hg : g.WF) (hsz : g.nSector * g.bps ≤ 2 ^ 32) (h : Image g m fs) {c : Call}
    {r : Reply}
    (hr : FAT32Copyin m c.fd c.name.bytes c.attr = .ok r) :
    (r.ret = 0 ∧ Image g r.buf fs)
      ∨ (r.ret ≠ 0 ∧ r.ret = UInt32.ofNat (g.startSector fs)
          ∧ ∃ f, c.Stores f ∧ Image g r.buf (fs ++ [f])) := by
  cases copyin_cases hg hsz h hr with
  | untouched e hr =>
      subst hr
      exact Or.inl ⟨rfl, h⟩
  | failed m' e hr hm' =>
      subst hr
      exact Or.inl ⟨rfl, h.failed hg hm'⟩
  | stored size data hstat hread hlen hroot hfit hr =>
      subst hr
      have hlt : data.length < 2 ^ 32 := by
        rw [hlen]
        exact size.toUInt32.toNat_lt
      have hle : g.next fs ≤ g.maxCluster := by
        have := fileClusters_pos g data.length
        omega
      refine Or.inr ⟨startSector_ne hg hle, rfl, ⟨c.name, c.attr, data⟩, ?_, ?_⟩
      · exact ⟨rfl, size, hstat, hread, hlen⟩
      · exact Image.commit (f := ⟨c.name, c.attr, data⟩) hg h hroot hfit hlt

/-- A run that came back is its first call, and a run of the rest. -/
theorem run_cons {c : Call} {cs done : List Call} (h : run m (c :: cs) = .ok (m', done)) :
    ∃ r rest, FAT32Copyin m c.fd c.name.bytes c.attr = .ok r ∧ run r.buf cs = .ok (m', rest)
      ∧ done = if r.ret ≠ 0 then c :: rest else rest := by
  unfold run at h
  cases hr : FAT32Copyin m c.fd c.name.bytes c.attr with
  | error e => simp [hr, bind, Except.bind] at h
  | ok r =>
      simp only [hr, bind, Except.bind] at h
      cases hrest : run r.buf cs with
      | error e => simp [hrest] at h
      | ok res =>
          simp only [hrest, pure, Except.pure, Except.ok.injEq, Prod.mk.injEq] at h
          obtain ⟨rfl, rfl⟩ := h
          exact ⟨r, res.2, rfl, hrest, rfl⟩

/-- **A run**: the image at the end holds one more file for each call that did not return 0. -/
theorem run_image (hg : g.WF) (hsz : g.nSector * g.bps ≤ 2 ^ 32) :
    ∀ (calls : List Call) (m : Mem) (fs : List Stored) (done : List Call) (m' : Mem),
      Image g m fs → run m calls = .ok (m', done) →
      ∃ new, List.Forall₂ Call.Stores done new ∧ Image g m' (fs ++ new) := by
  intro calls
  induction calls with
  | nil =>
      intro m fs done m' h hrun
      obtain ⟨rfl, rfl⟩ := Prod.mk.inj (Except.ok.inj hrun)
      exact ⟨[], List.Forall₂.nil, by rwa [List.append_nil]⟩
  | cons c cs ih =>
      intro m fs done m' h hrun
      obtain ⟨r, rest, hr, hrest, rfl⟩ := run_cons hrun
      rcases copyin_image hg hsz h hr with ⟨h0, hi⟩ | ⟨hne, -, f, hf, hi⟩
      · obtain ⟨new, hnew, himg⟩ := ih _ _ _ _ hi hrest
        rw [if_neg (by simpa using h0)]
        exact ⟨new, hnew, himg⟩
      · obtain ⟨new, hnew, himg⟩ := ih _ _ _ _ hi hrest
        rw [if_pos hne]
        refine ⟨f :: new, List.Forall₂.cons hf hnew, ?_⟩
        rwa [List.append_assoc, List.singleton_append] at himg

theorem run_sublist :
    ∀ (calls : List Call) (m : Mem) (done : List Call) (m' : Mem),
      run m calls = .ok (m', done) → done.Sublist calls := by
  intro calls
  induction calls with
  | nil =>
      intro m done m' hrun
      obtain ⟨rfl, rfl⟩ := Prod.mk.inj (Except.ok.inj hrun)
      exact List.Sublist.slnil
  | cons c cs ih =>
      intro m done m' hrun
      obtain ⟨r, rest, _, hrest, rfl⟩ := run_cons hrun
      by_cases h0 : r.ret ≠ 0
      · rw [if_pos h0]
        exact (ih _ _ _ hrest).cons_cons c
      · rw [if_neg h0]
        exact (ih _ _ _ hrest).cons c

/-- Every image reached from `createFAT32`, with the geometry its configuration asked for. -/
theorem reached_layout {buf image : Mem} {config : FATConfig} {calls done : List Call}
    (hc : createFAT32 buf config = .ok (0, image))
    (hsize : config.nSector.toNat * config.bytesPerSector.toNat ≤ 2 ^ 32)
    (hrun : run image calls = .ok (m, done)) :
    config.layout.WF ∧ ∃ fs, Image config.layout m fs ∧ List.Forall₂ Call.Stores done fs := by
  obtain ⟨hg, himg⟩ := createFAT32_image hc hsize
  obtain ⟨fs, hfs, hend⟩ := run_image hg hsize calls image [] done m himg hrun
  exact ⟨hg, fs, hend, hfs⟩

/-! ### The files come back -/

/-- The descriptor behaves as one of a regular file of contents `bytes` that nobody changes:
its size is that of `bytes`, and a read from the start gives a prefix of them.  Every call
may also fail, and a read may be short. -/
structure Fd.Stable (fd : Fd) (bytes : List UInt8) : Prop where
  fstat : ∀ size, fd.fstat = .ok size → size.toNat = bytes.length
  read : ∀ n bs, fd.read n = .ok bs → bs <+: bytes
  small : bytes.length < 2 ^ 32

theorem Call.Stores.bytes_eq {c : Call} {f : Stored} (h : c.Stores f) {bytes : List UInt8}
    (hfd : c.fd.Stable bytes) : f.bytes = bytes := by
  obtain ⟨size, hstat, hread, hlen⟩ := h.size
  have hsize := hfd.fstat size hstat
  have hsmall := hfd.small
  refine (hfd.read _ _ hread).eq_of_length ?_
  rw [hlen, UInt64.toNat_toUInt32, hsize]
  exact Nat.mod_eq_of_lt hsmall

/-- **Every file copied in is read back**, at any point of any run: its directory entry has
its name and size, and the clusters of its chain hold its bytes. -/
theorem copyin_round_trip {buf image : Mem} {config : FATConfig} {calls done : List Call}
    (hc : createFAT32 buf config = .ok (0, image))
    (hsize : config.nSector.toNat * config.bytesPerSector.toNat ≤ 2 ^ 32)
    (hrun : run image calls = .ok (m, done)) :
    ∃ sb, FAT32SuperInit m = .ok sb ∧ sb.tables.length = 2 ∧
      ∀ j c bytes, done[j]? = some c → c.fd.Stable bytes →
        sb.Used m j
          ∧ sb.entryName m j = c.name.bytes ++ List.replicate (11 - c.name.bytes.length) 0
          ∧ sb.fileSize m j = bytes.length
          ∧ ∀ t ∈ sb.tables, sb.contentsAt m t j = some bytes := by
  obtain ⟨hg, fs, himg, hfs⟩ := reached_layout hc hsize hrun
  refine ⟨config.layout.super fs.length, superInit_eq hg himg, rfl, ?_⟩
  intro j c bytes hj hfd
  have hlt : j < done.length := (List.getElem?_eq_some_iff.mp hj).1
  have hlt' : j < fs.length := hfs.length_eq ▸ hlt
  obtain ⟨f, hf, hst⟩ : ∃ f, fs[j]? = some f ∧ c.Stores f := by
    refine ⟨fs[j], List.getElem?_eq_getElem hlt', ?_⟩
    rw [← (List.getElem?_eq_some_iff.mp hj).2]
    exact hfs.get hlt hlt'
  have hbytes := hst.bytes_eq hfd
  have hent := himg.dirUsed j f hf
  refine ⟨?_, ?_, ?_, ?_⟩
  · exact (himg.used_iff hg j).mpr hlt'
  · rw [← hst.name]
    exact hent.name
  · rw [← hbytes]
    exact hent.size
  · intro t ht
    rw [← hbytes]
    exact himg.contentsAt_eq hf hg hsize ht

/-- A volume of 64 sectors, and a call that stores three bytes on it. -/
def smallVolume : FATConfig := ⟨64, 512, 1, false, true⟩

def helloFile : List UInt8 := ascii "hi!"

def helloCall : Call where
  name := ⟨ascii "HELLO", by decide, by decide, by decide, by decide⟩
  attr := 0x20
  fd :=
    { fstat := .ok 3
      lseek := .ok 0
      read := fun n => .ok (helloFile.take n.toNat)
      errno := 0
      read_le := by
        intro n bs h
        rw [← Except.ok.inj h, List.length_take]
        exact Nat.min_le_left _ _ }

theorem helloCall_stable : helloCall.fd.Stable helloFile := by
  refine ⟨?_, ?_, by decide⟩
  · intro size h
    rw [← Except.ok.inj h]
    rfl
  · intro n bs h
    rw [← Except.ok.inj h]
    exact List.take_prefix _ _

/-- Both of two calls succeed on the new volume. -/
theorem helloCall_runs : ∃ m,
    run (formatImage (fun _ => 0) smallVolume) [helloCall, helloCall]
      = .ok (m, [helloCall, helloCall]) := by
  have hlen : (run (formatImage (fun _ => 0) smallVolume) [helloCall, helloCall]).toOption.map
      (fun r => r.2.length) = some 2 := by decide +kernel
  cases hrun : run (formatImage (fun _ => 0) smallVolume) [helloCall, helloCall] with
  | error e => simp [hrun, Except.toOption] at hlen
  | ok r =>
      obtain ⟨m, done⟩ := r
      have hdone : done.length = 2 := by simpa [hrun, Except.toOption] using hlen
      obtain rfl := (run_sublist _ _ _ _ hrun).eq_of_length hdone
      exact ⟨m, rfl⟩

theorem copyin_round_trip_hello : ∃ m sb,
    run (formatImage (fun _ => 0) smallVolume) [helloCall, helloCall]
      = .ok (m, [helloCall, helloCall])
      ∧ FAT32SuperInit m = .ok sb ∧ sb.tables.length = 2
      ∧ ∀ t ∈ sb.tables, sb.contentsAt m t 0 = some helloFile
        ∧ sb.contentsAt m t 1 = some helloFile := by
  obtain ⟨m, hrun⟩ := helloCall_runs
  obtain ⟨sb, hinit, htables, hall⟩ :=
    copyin_round_trip (show createFAT32 (fun _ => 0) smallVolume = .ok (0, _) from rfl) (by decide) hrun
  refine ⟨m, sb, hrun, hinit, htables, fun t ht => ⟨?_, ?_⟩⟩
  · exact (hall 0 helloCall helloFile rfl helloCall_stable).2.2.2 t ht
  · exact (hall 1 helloCall helloFile rfl helloCall_stable).2.2.2 t ht

/-! ### The tables are clean -/

/-- `FSInfo.nextFree`. -/
def FAT32Super.nextFree (sb : FAT32Super) (m : Mem) : Nat := load m (sb.fsInfo.getD 0 + 492) 4

/-- The clusters root directory entry `j` should have: one, or what its size needs. -/
def FAT32Super.chainLength (sb : FAT32Super) (m : Mem) (j : Nat) : Nat :=
  max 1 ((sb.fileSize m j + sb.bytesPerCluster.toNat - 1) / sb.bytesPerCluster.toNat)

/-- The table at `t` is clean: chains are runs of the right length, every allocated entry
belongs to one of them, and the rest is free. -/
structure Clean (sb : FAT32Super) (m : Mem) (t : Nat) : Prop where
  root : tableEntry m t 2 = endOfChain.toNat
  chain : ∀ j, sb.Used m j → sb.entryChain m t j
    = some (List.range' (sb.firstCluster m j) (sb.chainLength m j))
  owner : ∀ c, 3 ≤ c → c < sb.nextFree m →
    ∃! j, sb.Used m j ∧ ∃ chain, sb.entryChain m t j = some chain ∧ c ∈ chain
  free : ∀ c, sb.nextFree m ≤ c → c < sb.numEntries → tableEntry m t c = 0

/-- Every cluster that was handed out belongs to a file. -/
theorem exists_start (fs : List Stored) {c : Nat} (h3 : 3 ≤ c) (hc : c < g.next fs) :
    ∃ j f, fs[j]? = some f ∧ g.start fs j ≤ c ∧ c < g.start fs j + g.clusters f := by
  have hstep : ∀ k, k ≤ fs.length → c < g.start fs k →
      ∃ j f, fs[j]? = some f ∧ g.start fs j ≤ c ∧ c < g.start fs j + g.clusters f := by
    intro k
    induction k with
    | zero =>
        intro _ hlt
        have : g.start fs 0 = 3 := by simp [Layout.start, Layout.next, Layout.used]
        omega
    | succ k ih =>
        intro hk hlt
        have hf : fs[k]? = some fs[k] := List.getElem?_eq_getElem hk
        rw [start_succ fs hf] at hlt
        by_cases hbelow : c < g.start fs k
        · exact ih (by omega) hbelow
        · exact ⟨k, _, hf, by omega, hlt⟩
  exact hstep fs.length (Nat.le_refl _) (by rwa [start_length])

theorem start_mono (fs : List Stored) {i j : Nat} {f : Stored} (hij : i < j)
    (hf : fs[i]? = some f) : g.start fs i + g.clusters f ≤ g.start fs j := by
  have h := start_add_le (g := g) (fs.take j) (j := i) (f := f)
    (by rwa [List.getElem?_take_of_lt hij])
  unfold Layout.start at h ⊢
  rwa [List.take_take, Nat.min_eq_left (Nat.le_of_lt hij)] at h

/-- No cluster belongs to two files. -/
theorem start_unique (fs : List Stored) {i j c : Nat} {f f' : Stored} (hi : fs[i]? = some f)
    (hj : fs[j]? = some f') (h1 : g.start fs i ≤ c ∧ c < g.start fs i + g.clusters f)
    (h2 : g.start fs j ≤ c ∧ c < g.start fs j + g.clusters f') : i = j := by
  have hil : i < fs.length := (List.getElem?_eq_some_iff.mp hi).1
  have hjl : j < fs.length := (List.getElem?_eq_some_iff.mp hj).1
  rcases Nat.lt_trichotomy i j with hlt | heq | hgt
  · have := start_mono (g := g) fs hlt hi
    omega
  · exact heq
  · have := start_mono (g := g) fs hgt hj
    omega

theorem Image.clean (hg : g.WF) (h : Image g m fs) {t : Nat}
    (ht : t ∈ (g.super fs.length).tables) : Clean (g.super fs.length) m t := by
  have hent := hg.fatBytes_ge
  have hnext : (g.super fs.length).nextFree m = g.next fs := h.nextFree
  have hchain : ∀ j f, fs[j]? = some f → (g.super fs.length).entryChain m t j
      = some (List.range' (g.start fs j) (g.clusters f)) :=
    fun j f hf => h.entryChain_eq hf hg ht
  refine ⟨?_, ?_, ?_, ?_⟩
  · rw [h.tableEntry_eq ht (by omega)]
    exact h.rootChain
  · intro j hu
    have hlt := (h.used_iff hg j).mp hu
    have hf : fs[j]? = some fs[j] := List.getElem?_eq_getElem hlt
    have hlen : (g.super fs.length).chainLength m j = g.clusters fs[j] := by
      have hsize : (g.super fs.length).fileSize m j = fs[j].bytes.length := (h.dirUsed j _ hf).size
      have hbpc : (g.super fs.length).bytesPerCluster.toNat = g.bpc := toNat_ofNat_lt hg.bpc_lt
      unfold FAT32Super.chainLength
      rw [hsize, hbpc]
      rfl
    rw [hchain j _ hf, h.firstCluster_eq hf, hlen]
  · intro c h3 hc
    rw [hnext] at hc
    obtain ⟨j, f, hf, hlo, hhi⟩ := exists_start fs h3 hc
    refine ⟨j, ⟨?_, _, hchain j f hf, ?_⟩, ?_⟩
    · exact (h.used_iff hg j).mpr (List.getElem?_eq_some_iff.mp hf).1
    · exact List.mem_range'_1.mpr ⟨hlo, hhi⟩
    · rintro i ⟨hu, chain, hi, hmem⟩
      have hlt := (h.used_iff hg i).mp hu
      have hfi : fs[i]? = some fs[i] := List.getElem?_eq_getElem hlt
      rw [hchain i _ hfi] at hi
      obtain rfl := Option.some.inj hi
      exact start_unique fs hfi hf (List.mem_range'_1.mp hmem) ⟨hlo, hhi⟩
  · intro c hlo hhi
    rw [hnext] at hlo
    rw [numEntries_eq hg] at hhi
    have hfour := hg.fatBytes_entries
    have hf2 : g.fat2 = g.fat1 + g.fatBytes := rfl
    rw [h.tableEntry_eq ht (by omega)]
    exact load_eq_zero fun x h1 h2 => h.freeEntries x (by omega) (by omega)

/-- **Both tables are clean** at any point of any run, and the super block can be parsed: the
walk of the root chain ends. -/
theorem copyin_tables_clean {buf image : Mem} {config : FATConfig} {calls done : List Call}
    (hc : createFAT32 buf config = .ok (0, image))
    (hsize : config.nSector.toNat * config.bytesPerSector.toNat ≤ 2 ^ 32)
    (hrun : run image calls = .ok (m, done)) :
    ∃ sb, FAT32SuperInit m = .ok sb ∧ sb.tables.length = 2 ∧ (∀ t ∈ sb.tables, Clean sb m t)
      ∧ (∀ j, sb.Used m j ↔ j < done.length)
      ∧ 3 ≤ sb.nextFree m ∧ (done ≠ [] → sb.nextFree m ≤ sb.maxCluster.toNat) := by
  obtain ⟨hg, fs, himg, hfs⟩ := reached_layout hc hsize hrun
  have hnext : (config.layout.super fs.length).nextFree m = config.layout.next fs := himg.nextFree
  have hmax : (config.layout.super fs.length).maxCluster.toNat = config.layout.maxCluster :=
    toNat_ofNat_lt (by have := hg.maxCluster_lt; omega)
  refine ⟨config.layout.super fs.length, superInit_eq hg himg, rfl, fun t ht => himg.clean hg ht, ?_, ?_, ?_⟩
  · intro j
    rw [hfs.length_eq]
    exact himg.used_iff hg j
  · rw [hnext]
    exact next_ge fs
  · intro hne
    rw [hnext, hmax]
    refine himg.fits ?_
    rintro rfl
    exact hne (List.forall₂_nil_right_iff.mp hfs)

theorem copyin_tables_clean_hello : ∃ m sb,
    run (formatImage (fun _ => 0) smallVolume) [helloCall, helloCall]
      = .ok (m, [helloCall, helloCall])
      ∧ FAT32SuperInit m = .ok sb ∧ ∀ t ∈ sb.tables, Clean sb m t := by
  obtain ⟨m, hrun⟩ := helloCall_runs
  obtain ⟨sb, hinit, _, hclean, _⟩ :=
    copyin_tables_clean (show createFAT32 (fun _ => 0) smallVolume = .ok (0, _) from rfl) (by decide) hrun
  exact ⟨m, sb, hrun, hinit, hclean⟩

end LinuxUtil.Fat
