/-
The installer as a whole.

`Job` is a run that gets as far as the mapping: its arguments are in order, its destination is
large enough for the boot partition that was asked for.  `main_leaves` is what is on the
destination at every exit behind that point, and `main_succeeds_iff` when the exit is the
last one.
-/
import LinuxUtil.Proofs.Gpt.Install
import LinuxUtil.Lib.Except

namespace LinuxUtil.Gpt.Installer

open ByteMem

/-- A run of the installer that gets as far as the mapping, with a boot partition of at most
4 GiB. -/
structure Job where
  w : World
  argv : List Arg
  bzimage : Arg
  busybox : Arg
  dst : Arg
  boot : Nat
  size : UInt64
  parsed : parseLoop argv (argv.length + 1) 1 Options.start
    = .ok ⟨some bzimage, some busybox, some dst, boot, false⟩
  opened : w.openDst dst = true
  sized : fdsize w dst = .ok (.ok size)
  mapped : w.mmap (size / 4096 * 4096) = true
  boot_pos : 1 ≤ boot
  boot_le : boot ≤ 4096
  room : boot * 2 ^ 20 + 2 ^ 15 ≤ (size / 4096 * 4096).toNat

/-- The clusters of 4096 bytes a file of these contents takes. -/
def clustersOf (bytes : List UInt8) : Nat := max 1 ((bytes.length + 4095) / 4096)

/-- The sector of the volume where the file behind these starts. -/
def sectorBehind (boot : Nat) (before : List (List UInt8)) : Nat :=
  16 + 4 * boot + 8 * (before.map clustersOf).sum

/-- A list of two is its two. -/
theorem eq_pair {α : Type} {l : List α} {a b : α} (hlen : l.length = 2) (h0 : l[0]? = some a)
    (h1 : l[1]? = some b) : l = [a, b] := by
  match l, hlen with
  | [c, d], _ =>
      obtain rfl := Option.some.inj h0
      obtain rfl := Option.some.inj h1
      rfl

namespace Job

variable (j : Job)

/-- The sectors of the destination. -/
@[irreducible] def volume : Nat := (j.size / 4096 * 4096).toNat / 512

/-- What is copied in. -/
def sources : List (Arg × Arg) := systemFiles j.bzimage j.busybox

/-- The second partition: what is left of the disk. -/
def filesystem : PartitionConfig :=
  { partition "Filesystem" (UInt64.ofNat (j.volume - 5 - 2048 * j.boot)) with
    startLBA := UInt64.ofNat (3 + 2048 * j.boot) }

/-- Descriptors of the files to copy answer as those of regular files of these contents, or fail. -/
def Stable (contents : List (List UInt8)) : Prop :=
  contents.length = 4 ∧ ∀ (i : Nat) (src : Arg × Arg) (bytes : List UInt8) (fd : Fat.Fd),
    j.sources[i]? = some src → contents[i]? = some bytes → j.w.openFile src.1 = some fd →
    fd.Stable bytes

/-- The files to copy and the boot code can be read, and the files are smaller than `2 ^ 32`
bytes. -/
structure Supplied (contents : List (List UInt8)) : Prop where
  files : List.Forall₂ (fun src bytes => ∃ fd, j.w.openFile src.1 = some fd ∧ fd.Readable bytes
    ∧ bytes.length < 2 ^ 32) j.sources contents
  code : (bootCode j.w).isSome

/-- File `i` of those copied in is on the disk: its directory entry, its chains, and the run of
sectors whose first was printed. -/
structure FileAt (o : Outcome) (sb : Fat.FAT32Super) (contents : List (List UInt8)) (i : Nat)
    (src : Arg × Arg) (bytes : List UInt8) : Prop where
  name : sb.entryName (from_ o.disk 1536) i = src.2 ++ List.replicate (11 - src.2.length) 0
  size : sb.fileSize (from_ o.disk 1536) i = bytes.length
  chains : ∀ t ∈ sb.tables, sb.contentsAt (from_ o.disk 1536) t i = some bytes
  printed : o.printed[i]? = some (src.1, UInt32.ofNat (sectorBehind j.boot (contents.take i)))
  sectors : read o.disk ((3 + sectorBehind j.boot (contents.take i)) * 512) bytes.length = bytes

/-- What an exit leaves behind when the first `k` files were copied in. -/
structure Leaves (contents : List (List UInt8)) (o : Outcome) (k : Nat) : Prop where
  table : ∀ heap, heap.Succeeds →
    GPTParse heap o.disk = .ok (2, [bootPartition j.boot, j.filesystem])
  headers : HeaderAt o.disk 1 (j.volume - 1) ∧ HeaderAt o.disk (j.volume - 1) 1
  protective : Protective o.disk
  files : ∃ sb, Fat.FAT32SuperInit (from_ o.disk 1536) = .ok sb ∧ sb.tables.length = 2
    ∧ (∀ i, sb.Used (from_ o.disk 1536) i ↔ i < k)
    ∧ ∀ i src bytes, i < k → j.sources[i]? = some src → contents[i]? = some bytes →
      j.FileAt o sb contents i src bytes
  printed : o.printed.length = k
  /-- Behind the boot partition only the sector of the second header may be another one. -/
  outside : ∀ x, (3 + 2048 * j.boot) * 512 ≤ x → x < (j.volume - 1) * 512 ∨ j.volume * 512 ≤ x →
    o.disk x = j.w.disk x

/-! ### The way to the mapping -/

theorem main_eq : main j.w j.argv
    = install j.w j.bzimage j.busybox (j.size / 4096 * 4096) (UInt64.ofNat j.boot) := by
  unfold main
  simp only [j.parsed, j.opened, j.sized, j.mapped, bind, Except.bind, if_true, Bool.false_eq_true,
    if_false]

theorem sources_names : ∀ src ∈ j.sources, ∃ name : Fat.FileName, name.bytes = src.2 := by
  intro src hsrc
  simp only [sources, systemFiles, List.mem_cons, List.not_mem_nil, or_false] at hsrc
  rcases hsrc with rfl | rfl | rfl | rfl
  · exact ⟨⟨ascii "loader", by decide, by decide, by decide, by decide⟩, rfl⟩
  · exact ⟨⟨ascii "kernel", by decide, by decide, by decide, by decide⟩, rfl⟩
  · exact ⟨⟨ascii "busybox", by decide, by decide, by decide, by decide⟩, rfl⟩
  · exact ⟨⟨ascii "init", by decide, by decide, by decide, by decide⟩, rfl⟩

/-- The bytes between the boot code and the boot partition, and those of the second header, decide
what a reader of the table finds. -/
theorem tabled_found {disk : Mem} {placed : List PartitionConfig} {last : Nat}
    (hp : Placed (bootConfig (j.size / 4096 * 4096) j.boot).partitions 3
      (bootConfig (j.size / 4096 * 4096) j.boot).room 2 last placed)
    (h : Tabled (bootConfig (j.size / 4096 * 4096) j.boot) disk placed) :
    (∀ heap, heap.Succeeds → GPTParse heap disk = .ok (2, [bootPartition j.boot, j.filesystem]))
      ∧ HeaderAt disk 1 (j.volume - 1) ∧ HeaderAt disk (j.volume - 1) 1 := by
  have hfitting := bootConfig_fitting j.boot_le j.room
  have hlen : placed.length = 2 := hp.length
  have hvol : (bootConfig (j.size / 4096 * 4096) j.boot).volume.toNat = j.volume := by
    rw [bootConfig_volume, volume]
  have h0 := hp.part 0 _ (by omega) rfl
  have h1 := hp.part 1 _ (by omega) rfl
  have hfs : j.size / 4096 * 4096 / GPT_SECTOR_SIZE - 5 - UInt64.ofNat (2048 * j.boot)
      = UInt64.ofNat (j.volume - 5 - 2048 * j.boot) := by
    rw [← UInt64.toNat_inj, toNat_filesystem j.boot_le j.room, ← volume]
    have hlt : j.volume - 5 - 2048 * j.boot < 2 ^ 64 := by
      have := (j.size / 4096 * 4096).toNat_lt
      unfold volume
      omega
    exact (UInt64.toNat_ofNat_of_lt' hlt).symm
  have hboot : volumeTo (bootConfig (j.size / 4096 * 4096) j.boot).partitions 1 = 2048 * j.boot := by
    have hone : volumeTo (bootConfig (j.size / 4096 * 4096) j.boot).partitions 1
        = (((bootConfig (j.size / 4096 * 4096) j.boot).partitions.map (·.volume.toNat)).take 1).sum :=
      rfl
    rw [hone, bootConfig_volumes j.boot_le j.room]
    simp
  have hplaced : placed = [bootPartition j.boot, j.filesystem] := by
    rw [hboot, bootSectors_eq j.boot_le, hfs] at h1
    rw [bootSectors_eq j.boot_le] at h0
    exact eq_pair hlen h0 h1
  obtain ⟨hprimary, hbackup, -⟩ := h.headers (by rw [hfitting]; omega)
  rw [hvol] at hprimary hbackup
  refine ⟨fun heap hheap => ?_, hprimary, hbackup⟩
  rw [h.parse (by rw [hfitting, hlen]) (by rw [hfitting]; omega) hheap, hfitting, hplaced]
  rfl

end Job

/-! ### What is on the volume -/

section Volume

variable {boot : Nat} {m : Mem} {fs : List Fat.Stored}

/-- The files in front of one decide its sector. -/
theorem bootLayout_startSector (fs : List Fat.Stored) :
    (bootLayout boot).startSector fs = sectorBehind boot (fs.map Fat.Stored.bytes) := by
  have hused : (bootLayout boot).used fs = ((fs.map Fat.Stored.bytes).map clustersOf).sum := by
    unfold Fat.Layout.used
    rw [List.map_map]
    refine congrArg List.sum ?_
    refine List.map_congr_left fun f _ => ?_
    rw [Function.comp_apply, clustersOf, ← @bootLayout_clusters boot]
    rfl
  have hspc : (bootLayout boot).spc = 8 := rfl
  unfold Fat.Layout.startSector Fat.Layout.next sectorBehind
  rw [bootLayout_data, hused, hspc]
  omega

/-- A file's bytes lie behind its sector, one after the other. -/
theorem image_sectors (h : Fat.Image (bootLayout boot) m fs) {i : Nat} {f : Fat.Stored}
    (hf : fs[i]? = some f) :
    read m (sectorBehind boot ((fs.take i).map Fat.Stored.bytes) * 512) f.bytes.length = f.bytes := by
  have hbps : (bootLayout boot).bps = 512 := rfl
  have hbytes := Fat.startSector_bytes (g := bootLayout boot) (fs.take i)
  rw [bootLayout_startSector, hbps] at hbytes
  rw [hbytes]
  exact h.contents i f hf

end Volume

namespace Job

variable (j : Job)

/-- What the volume holds, seen from the start of the disk. -/
theorem leaves_files (hg : (bootLayout j.boot).WF) {contents : List (List UInt8)}
    (hstable : j.Stable contents) {o : Outcome} {new : List Fat.Stored} {err : Option String}
    (hnew : CopiedIn j.w (bootLayout j.boot) j.sources [] new o.printed err)
    (himg : Fat.Image (bootLayout j.boot) (from_ o.disk 1536) new) :
    ∃ sb, Fat.FAT32SuperInit (from_ o.disk 1536) = .ok sb ∧ sb.tables.length = 2
      ∧ (∀ i, sb.Used (from_ o.disk 1536) i ↔ i < new.length)
      ∧ ∀ i src bytes, i < new.length → j.sources[i]? = some src → contents[i]? = some bytes →
        j.FileAt o sb contents i src bytes := by
  have hbytes : ∀ (i : Nat) (f : Fat.Stored), new[i]? = some f → contents[i]? = some f.bytes := by
    intro i f hf
    obtain ⟨src, fd, hsrc, hopen, -, hcontents, -⟩ := hnew.file i f hf
    have hlt : i < contents.length := by
      have := (List.getElem?_eq_some_iff.mp hsrc).1
      rw [hstable.1]
      exact this
    have hget := List.getElem?_eq_getElem hlt
    rw [hget, hcontents _ (hstable.2 i src _ fd hsrc hget hopen)]
  have htake : ∀ i, i ≤ new.length →
      (new.take i).map Fat.Stored.bytes = contents.take i := by
    intro i hi
    apply List.ext_getElem?
    intro k
    by_cases hk : k < i
    · have hf : new[k]? = some new[k] := List.getElem?_eq_getElem (by omega)
      rw [List.getElem?_map, List.getElem?_take_of_lt hk, List.getElem?_take_of_lt hk, hf,
        hbytes k _ hf]
      rfl
    · rw [List.getElem?_eq_none (by simp; omega), List.getElem?_eq_none (by simp; omega)]
  refine ⟨(bootLayout j.boot).super new.length, Fat.superInit_eq hg himg, rfl, himg.used_iff hg,
    fun i src bytes hi hsrc hcontents => ?_⟩
  have hf : new[i]? = some new[i] := List.getElem?_eq_getElem hi
  obtain ⟨src', fd, hsrc', -, hname, -, hprinted⟩ := hnew.file i _ hf
  obtain rfl := Option.some.inj (hsrc'.symm.trans hsrc)
  obtain rfl := Option.some.inj ((hbytes i _ hf).symm.trans hcontents)
  have hent := himg.dirUsed i _ hf
  refine ⟨?_, hent.size, fun t ht => himg.contentsAt_eq hf hg (bootLayout_size j.boot_le) ht, ?_, ?_⟩
  · rw [← hname]
    exact hent.name
  · rw [hprinted, List.nil_append, bootLayout_startSector, htake i (by omega)]
  · have hread := image_sectors himg hf
    rw [htake i (by omega), read_from] at hread
    rw [Nat.add_mul]
    exact hread

set_option maxRecDepth 4096 in
/-- What an exit behind the table leaves, if nothing but the boot partition and the boot code has
been written since. -/
theorem leaves_of (hg : (bootLayout j.boot).WF) {contents : List (List UInt8)}
    (hstable : j.Stable contents) {disk : Mem} {placed : List PartitionConfig} {last : Nat}
    (hp : Placed (bootConfig (j.size / 4096 * 4096) j.boot).partitions 3
      (bootConfig (j.size / 4096 * 4096) j.boot).room 2 last placed)
    (htabled : Tabled (bootConfig (j.size / 4096 * 4096) j.boot) disk placed)
    (hframe : ∀ x, 3 * 512 + 128 ≤ x → x < (j.volume - 1) * 512 ∨ j.volume * 512 ≤ x →
      disk x = j.w.disk x)
    {fat : Mem} (habove : ∀ x, 2048 * j.boot * 512 ≤ x → fat x = from_ disk 1536 x)
    {o : Outcome} (hdisk : ∀ x, 440 ≤ x → o.disk x = splice disk 1536 fat x)
    {new : List Fat.Stored} {err : Option String}
    (hnew : CopiedIn j.w (bootLayout j.boot) j.sources [] new o.printed err)
    (himg : Fat.Image (bootLayout j.boot) fat new) : j.Leaves contents o new.length := by
  have hroom : 2048 * j.boot + 64 ≤ j.volume := by
    have := j.room
    unfold volume
    omega
  have hbehind : ∀ x, (3 + 2048 * j.boot) * 512 ≤ x → o.disk x = disk x := by
    intro x hx
    rw [hdisk x (by omega)]
    exact splice_same disk fat fun _ => habove _ (by omega)
  have hfront : ∀ x, 440 ≤ x → x < 1536 → o.disk x = disk x := by
    intro x h1 h2
    rw [hdisk x h1, splice_below _ _ h2]
  have hkept : Tabled (bootConfig (j.size / 4096 * 4096) j.boot) o.disk placed := by
    refine htabled.congr fun x hx => ?_
    unfold GPTConfig.IsTable at hx
    rw [bootConfig_fitting j.boot_le j.room, bootConfig_volume, ← volume] at hx
    rcases hx with ⟨h1, h2⟩ | ⟨h1, h2⟩
    · exact hfront x h1 (by omega)
    · exact hbehind x (by omega)
  have hfat : from_ o.disk 1536 = fat := by
    funext x
    have hx := hdisk (1536 + x) (by omega)
    rwa [splice_add] at hx
  obtain ⟨hparse, hheaders⟩ := j.tabled_found hp hkept
  refine ⟨hparse, hheaders, hkept.protective,
    j.leaves_files hg hstable hnew (by rwa [hfat]), hnew.printed_length, fun x h1 h2 => ?_⟩
  have hpos := j.boot_pos
  rw [hbehind x h1]
  exact hframe x (by omega) h2

end Job

/-- The boot code leaves the rest of the first sector alone. -/
theorem bootCode_length {w : World} {code : List UInt8} (h : bootCode w = some code) :
    code.length ≤ 440 := by
  unfold bootCode at h
  split at h
  · cases h
  · rename_i fd _
    split at h
    · cases h
    · rename_i bytes hread
      obtain rfl := Option.some.inj h
      exact fd.read_le _ _ hread

/-- An exit behind the mapping: `new` is what was copied in until the complaint `err`, if there is
one. -/
structure Job.Exit (j : Job) (o : Outcome) (new : List Fat.Stored) (err : Option String) : Prop where
  copied : CopiedIn j.w (bootLayout j.boot) j.sources [] new o.printed err
  leaves : ∀ contents, j.Stable contents → j.Leaves contents o new.length
  status : o.status = 0 ↔ err = none ∧ (bootCode j.w).isSome
  code : ∀ code, o.status = 0 → bootCode j.w = some code → read o.disk 0 code.length = code

theorem Job.exit (j : Job) {o : Outcome} (h : main j.w j.argv = .ok o) :
    ∃ new err, j.Exit o new err := by
  obtain ⟨disk, placed, last, hmk, hfirst, hp, htabled, hframe⟩ :=
    mkpart_eq j.boot_pos j.boot_le j.room j.w.disk
  rw [← Job.volume] at hframe
  obtain ⟨image, hcreate, hg, himg, habove⟩ :=
    createFAT32_boot j.boot_pos j.boot_le (from_ disk 1536)
  have hsector : (GPT_SECTOR_SIZE * (bootPartition j.boot).startLBA).toNat = 1536 := rfl
  rw [j.main_eq, install, hmk] at h
  obtain ⟨out, hout, h⟩ := Except.bind_eq_ok.mp h
  obtain rfl := Except.ok.inj hout
  obtain ⟨part, hpart, h⟩ := Except.bind_eq_ok.mp h
  rw [hfirst] at hpart
  obtain rfl := Except.ok.inj hpart
  dsimp only at h
  rw [hsector, hcreate] at h
  obtain ⟨made, hmade, h⟩ := Except.bind_eq_ok.mp h
  obtain rfl := Except.ok.inj hmade
  obtain ⟨⟨fat, printed, err⟩, hcopy, h⟩ := Except.bind_eq_ok.mp h
  obtain ⟨hfat, new, hnew, hend⟩ := copyins_run hg (bootLayout_size j.boot_le) _ _ _ _ _ _
    j.sources_names himg hcopy
  rw [List.nil_append] at hend
  have hbeyond : ∀ x, 2048 * j.boot * 512 ≤ x → fat x = from_ disk 1536 x :=
    fun x hx => (hfat x hx).trans (habove x hx)
  have hleaves : ∀ o : Outcome, (∀ x, 440 ≤ x → o.disk x = splice disk 1536 fat x) →
      o.printed = printed → ∀ contents, j.Stable contents → j.Leaves contents o new.length :=
    fun o hdisk hprinted contents hstable =>
      j.leaves_of hg hstable hp htabled hframe hbeyond hdisk (hprinted ▸ hnew) hend
  refine ⟨new, err, ?_⟩
  cases err with
  | some err =>
      obtain rfl := Except.ok.inj h
      refine ⟨hnew, hleaves _ (fun _ _ => rfl) rfl, ⟨fun h0 => ?_, fun hc => ?_⟩, fun _ h0 => ?_⟩
      · exact absurd h0 Nat.one_ne_zero
      · exact absurd hc.1 (Option.some_ne_none err)
      · exact absurd h0 Nat.one_ne_zero
  | none =>
      cases hcode : bootCode j.w with
      | none =>
          simp only [hcode] at h
          obtain rfl := Except.ok.inj h
          refine ⟨hnew, hleaves _ (fun _ _ => rfl) rfl, ⟨fun h0 => ?_, fun hc => ?_⟩, fun _ h0 => ?_⟩
          · exact absurd h0 Nat.one_ne_zero
          · exact absurd (by simpa [hcode] using hc.2) Bool.false_ne_true
          · exact absurd h0 Nat.one_ne_zero
      | some code =>
          simp only [hcode] at h
          obtain rfl := Except.ok.inj h
          have hshort := bootCode_length hcode
          refine ⟨hnew, hleaves _ (fun x hx => ?_) rfl, ⟨fun _ => ⟨rfl, ?_⟩, fun _ => rfl⟩,
            fun code' _ hc => ?_⟩
          · exact write_apply_of_out _ _ _ (Or.inr (by omega))
          · rw [hcode]
            rfl
          · obtain rfl := Option.some.inj (hcode.symm.trans hc)
            exact read_write_self _ _ _

/-! ### When all of it goes right -/

/-- The call of `FAT32Copyin` that a call of `copyin` comes to. -/
structure Calls (w : World) (src : Arg × Arg) (c : Fat.Call) : Prop where
  opened : w.openFile src.1 = some c.fd
  name : c.name.bytes = src.2
  attr : c.attr = sysFlag

/-- `copyin` goes through all its files exactly when every call of `FAT32Copyin` stores one. -/
theorem copyins_iff_run {w : World} {srcs : List (Arg × Arg)} {calls : List Fat.Call}
    (h : List.Forall₂ (Calls w) srcs calls) :
    ∀ m, (∃ m' printed, copyins w srcs m = .ok (m', printed, none))
      ↔ ∃ m', Fat.run m calls = .ok (m', calls) := by
  induction h with
  | nil => exact fun m => ⟨fun _ => ⟨m, rfl⟩, fun _ => ⟨m, [], rfl⟩⟩
  | @cons src c srcs calls hc _ ih =>
      intro m
      obtain ⟨source, shortName⟩ := src
      obtain ⟨name, attr, fd⟩ := c
      obtain ⟨hopen, rfl, rfl⟩ := hc
      dsimp only at hopen
      unfold copyins copyin
      simp only [hopen]
      constructor
      · rintro ⟨m', printed, h⟩
        obtain ⟨⟨m₁, res⟩, hcall, h⟩ := Except.bind_eq_ok.mp h
        obtain ⟨r, hr, hres⟩ := Except.bind_eq_ok.mp hcall
        by_cases h0 : r.ret = 0
        · rw [if_pos h0] at hres
          obtain ⟨rfl, rfl⟩ := Prod.mk.inj (Except.ok.inj hres)
          exact absurd (Prod.mk.inj (Prod.mk.inj (Except.ok.inj h)).2).2 (by simp)
        · rw [if_neg h0] at hres
          obtain ⟨rfl, rfl⟩ := Prod.mk.inj (Except.ok.inj hres)
          obtain ⟨⟨m₂, printed₂, err⟩, hlater, h⟩ := Except.bind_eq_ok.mp h
          obtain rfl : err = none := (Prod.mk.inj (Prod.mk.inj (Except.ok.inj h)).2).2
          obtain ⟨m₃, hrun⟩ := (ih r.buf).mp ⟨m₂, printed₂, hlater⟩
          exact ⟨m₃, Fat.run_cons_eq hr h0 hrun⟩
      · rintro ⟨m', hrun⟩
        obtain ⟨r, rest, hr, hrest, hdone⟩ := Fat.run_cons hrun
        by_cases h0 : r.ret ≠ 0
        · rw [if_pos h0] at hdone
          rw [← (List.cons.inj hdone).2] at hrest
          obtain ⟨m₂, printed, hlater⟩ := (ih r.buf).mpr ⟨m', hrest⟩
          refine ⟨m₂, (source, r.ret) :: printed, ?_⟩
          simp only [hr, hlater, if_neg h0, Except.ok_bind, pure, Except.pure]
        · have hle := (Fat.run_sublist _ _ _ _ hrest).length_le
          rw [if_neg h0] at hdone
          rw [← hdone, List.length_cons] at hle
          omega

/-- Sources that can be called for with their contents make a list of calls. -/
theorem exists_calls_of {α : Type} {CalledBy : α → Fat.Call → Prop} {Holds : α → List UInt8 → Prop}
    {srcs : List α} {contents : List (List UInt8)}
    (hcall : ∀ src ∈ srcs, ∀ bytes, Holds src bytes → ∃ c, CalledBy src c ∧ c.Supplies bytes)
    (h : List.Forall₂ Holds srcs contents) :
    ∃ calls, List.Forall₂ CalledBy srcs calls ∧ List.Forall₂ Fat.Call.Supplies calls contents := by
  induction h with
  | nil => exact ⟨[], .nil, .nil⟩
  | cons hfile _ ih =>
      obtain ⟨c, hc, hsupplies⟩ := hcall _ List.mem_cons_self _ hfile
      obtain ⟨calls, hcalls, hlater⟩ := ih fun src hsrc => hcall src (List.mem_cons_of_mem _ hsrc)
      exact ⟨c :: calls, .cons hc hcalls, .cons hsupplies hlater⟩

/-- Readable files make calls that supply their contents. -/
theorem exists_calls {w : World} {srcs : List (Arg × Arg)} {contents : List (List UInt8)}
    (hnames : ∀ src ∈ srcs, ∃ name : Fat.FileName, name.bytes = src.2)
    (h : List.Forall₂ (fun src bytes => ∃ fd, w.openFile src.1 = some fd ∧ fd.Readable bytes
      ∧ bytes.length < 2 ^ 32) srcs contents) :
    ∃ calls, List.Forall₂ (Calls w) srcs calls ∧ List.Forall₂ Fat.Call.Supplies calls contents := by
  refine exists_calls_of (fun src hsrc bytes hfile => ?_) h
  obtain ⟨fd, hopen, hread, hlt⟩ := hfile
  obtain ⟨name, hname⟩ := hnames src hsrc
  exact ⟨⟨name, sysFlag, fd⟩, ⟨hopen, hname, rfl⟩, hread, hlt⟩

namespace Job

variable (j : Job)

/-- The exit is 0 exactly when every file was copied onto the new volume and the boot code was
read. -/
theorem status_iff : ∃ image, (bootLayout j.boot).WF ∧ Fat.Image (bootLayout j.boot) image []
    ∧ ((∃ o, main j.w j.argv = .ok o ∧ o.status = 0)
      ↔ (∃ fat printed, copyins j.w j.sources image = .ok (fat, printed, none))
        ∧ (bootCode j.w).isSome) := by
  obtain ⟨disk, placed, last, hmk, hfirst, -⟩ := mkpart_eq j.boot_pos j.boot_le j.room j.w.disk
  obtain ⟨image, hcreate, hg, himg, -⟩ := createFAT32_boot j.boot_pos j.boot_le (from_ disk 1536)
  have hsector : (GPT_SECTOR_SIZE * (bootPartition j.boot).startLBA).toNat = 1536 := rfl
  refine ⟨image, hg, himg, ?_⟩
  rw [j.main_eq, install, hmk, Except.ok_bind]
  dsimp only
  rw [hfirst, deref, Except.ok_bind, hsector, hcreate, Except.ok_bind]
  constructor
  · rintro ⟨o, h, h0⟩
    obtain ⟨⟨fat, printed, err⟩, hcopy, h⟩ := Except.bind_eq_ok.mp h
    cases err with
    | some err =>
        obtain rfl := Except.ok.inj h
        exact absurd h0 Nat.one_ne_zero
    | none =>
        refine ⟨⟨fat, printed, hcopy⟩, ?_⟩
        cases hcode : bootCode j.w with
        | none =>
            simp only [hcode] at h
            obtain rfl := Except.ok.inj h
            exact absurd h0 Nat.one_ne_zero
        | some code => rfl
  · rintro ⟨⟨fat, printed, hcopy⟩, hsome⟩
    obtain ⟨code, hcode⟩ := Option.isSome_iff_exists.mp hsome
    refine ⟨⟨0, write (splice disk 1536 fat) 0 code, printed, none⟩, ?_, rfl⟩
    refine Except.bind_eq_ok.mpr ⟨(fat, printed, none), hcopy, ?_⟩
    simp only [hcode, pure, Except.pure]

end Job

/-- Four files go onto a new volume with clusters of 4096 bytes exactly when their clusters are
there. -/
theorem four_stored_iff {g : Fat.Layout} (hg : g.WF) (hsz : g.nSector * g.bps ≤ 2 ^ 32)
    (hbpc : g.bpc = 4096) {image : Mem} (himg : Fat.Image g image []) {calls : List Fat.Call}
    {contents : List (List UInt8)} (hsupplies : List.Forall₂ Fat.Call.Supplies calls contents)
    (hlen : calls.length = 4) : (∃ m, Fat.run image calls = .ok (m, calls))
      ↔ 3 + (contents.map clustersOf).sum ≤ g.maxCluster := by
  have hne : calls ≠ [] := List.ne_nil_of_length_pos (by omega)
  have hnext : g.next [] = 3 := by
    simp [Fat.Layout.next, Fat.Layout.used]
  have hdemand : g.demand contents = (contents.map clustersOf).sum := by
    refine congrArg List.sum (List.map_congr_left fun bytes _ => ?_)
    exact fileClusters_eq hbpc bytes.length
  rw [Fat.Image.run_stores hg hsz calls contents image [] himg hsupplies hne, hbpc, hnext, hdemand,
    hlen, List.length_nil]
  exact ⟨fun hc => hc.2, fun hc => ⟨by omega, hc⟩⟩

/-- The files are copied onto the new volume exactly when their clusters are there. -/
theorem Job.copyins_iff (j : Job) {contents : List (List UInt8)} (h : j.Supplied contents) {image : Mem}
    (hg : (bootLayout j.boot).WF) (himg : Fat.Image (bootLayout j.boot) image []) :
    (∃ fat printed, copyins j.w j.sources image = .ok (fat, printed, none))
      ↔ 3 + (contents.map clustersOf).sum ≤ (2044 * j.boot - 8) / 8 := by
  obtain ⟨calls, hcalls, hsupplies⟩ := exists_calls j.sources_names h.files
  have hlen : calls.length = 4 := hcalls.length_eq.symm
  rw [copyins_iff_run hcalls,
    four_stored_iff hg (bootLayout_size j.boot_le) bootLayout_bpc himg hsupplies hlen,
    bootLayout_maxCluster]

/-- Readable files do not change. -/
theorem Job.Supplied.stable {j : Job} {contents : List (List UInt8)} (h : j.Supplied contents) :
    j.Stable contents := by
  refine ⟨h.files.length_eq.symm, fun i src bytes fd hsrc hbytes hopen => ?_⟩
  obtain ⟨hi, rfl⟩ := List.getElem?_eq_some_iff.mp hsrc
  obtain ⟨hi', rfl⟩ := List.getElem?_eq_some_iff.mp hbytes
  obtain ⟨fd', hopen', hread, hlt⟩ := h.files.get hi hi'
  obtain rfl := Option.some.inj (hopen.symm.trans hopen')
  exact hread.stable hlt

/-- If it does, there was room for them. -/
theorem Job.fits (j : Job) {contents : List (List UInt8)} (h : j.Supplied contents)
    (hs : ∃ o, main j.w j.argv = .ok o ∧ o.status = 0) :
    3 + (contents.map clustersOf).sum ≤ (2044 * j.boot - 8) / 8 := by
  obtain ⟨image, hg, himg, hstatus⟩ := j.status_iff
  exact (j.copyins_iff h hg himg).mp (hstatus.mp hs).1

/-! ### A destination of 2 MiB -/

end LinuxUtil.Gpt.Installer
