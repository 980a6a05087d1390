/-
The boot loader reads what the FAT writer stored.

The loop gives the bytes of the sectors it is pointed at (`readfileLoop_reads`).  The
writer hands over a single number, the start sector.  A file that was copied into a partition is
contiguous from that sector on, so the sectors the loop asks for are those of the file.
Only a file of `2 ^ 32` bytes or more is not there: the writer cuts its size to 32 bits.
-/
import LinuxUtil.Proofs.Bootloader.Sectors
import LinuxUtil.Proofs.Fat.Durable
import LinuxUtil.Proofs.Gpt.Usable

namespace LinuxUtil.Bootloader

open ByteMem

/-! ### A file in a partition -/

/-- The disk as a writer sees it that is given a pointer to sector `lba`. -/
def partitionAt (disk : Mem) (lba : Nat) : Mem := fun x => disk (512 * lba + x)

/-- The disk after the writer has left `image` behind. -/
def withPartition (disk : Mem) (lba : Nat) (image : Mem) : Mem :=
  fun x => if 512 * lba ≤ x then image (x - 512 * lba) else disk x

/-- `read_disk` reads the sectors of a disk. -/
def Drive.Reads (drive : Drive) (disk : Mem) (volume : Nat) : Prop :=
  ∀ (sect : Int32) (s : Nat), sect.toInt = s → s < volume →
    (drive sect).toList = read disk (512 * s) 512

/-- The byte at offset `b` of a file that starts at sector `lba + start`. -/
theorem Drive.Reads.byteAt {drive : Drive} {disk image : Mem} {volume lba start b : Nat}
    (h : drive.Reads (withPartition disk lba image) volume)
    (hsector : lba + start + b / 512 < volume) (hvol : volume < 2 ^ 31) {fstart : UInt32}
    (hstart : fstart = UInt32.ofNat (lba + start)) :
    drive.byteAt fstart b = image (start * 512 + b) := by
  -- The sector number stays positive when it becomes an `int`.
  have hint : (fstart + UInt32.ofNat (b / 512)).toInt32.toInt = (lba + start + b / 512 : Nat) := by
    rw [hstart, ← UInt32.ofNat_add]
    exact Int32.toInt_ofNat_of_lt (by omega)
  have hlt : b % 512 < 512 := Nat.mod_lt _ (by decide)
  unfold Drive.byteAt
  rw [h _ _ hint hsector, List.getD_eq_getElem?_getD, getElem?_read, if_pos hlt, Option.getD_some]
  unfold withPartition
  rw [if_pos (by omega)]
  congr 1
  omega

/-- A disk, a FAT volume in one of its partitions, and a call that stored its file there, with any
calls before and after it. -/
structure Install where
  buf : Mem
  gpt : Gpt.GPTConfig
  k : UInt64
  disk : Mem
  placed : List Gpt.PartitionConfig
  i : Nat
  part : Gpt.PartitionConfig
  config : Fat.FATConfig
  image : Mem
  before : List Fat.Call
  c : Fat.Call
  after : List Fat.Call
  m₁ : Mem
  r : Fat.Reply
  m : Mem
  done₁ : List Fat.Call
  done₂ : List Fat.Call
  generated : Gpt.GPTGenerate buf gpt = .ok (k, disk, placed)
  sectors : gpt.volume.toNat < 2 ^ 31
  index : i < k.toNat
  partition : placed[i]? = some part
  bytesPerSector : config.bytesPerSector = 512
  nSector : config.nSector.toNat = part.volume.toNat
  volume : part.volume.toNat ≤ 2 ^ 23
  created : Fat.createFAT32 (partitionAt disk part.startLBA.toNat) config = .ok (0, image)
  ranBefore : Fat.run image before = .ok (m₁, done₁)
  call : Fat.FAT32Copyin m₁ c.fd c.name.bytes c.attr = .ok r
  stored : r.ret ≠ 0
  ranAfter : Fat.run r.buf after = .ok (m, done₂)

namespace Install

variable (s : Install)

/-- The disk at the end. -/
def finalDisk : Mem := withPartition s.disk s.part.startLBA.toNat s.m

/-- The boot loader gets every part of the file out of its start sector: the part ends up at the
destination, and nothing else but the scratch buffer changes. -/
def Loads (bytes : List UInt8) : Prop :=
  ∀ drive : Drive, drive.Reads s.finalDisk s.gpt.volume.toNat →
    ∀ (mem : Mem) (dst : Nat) (off len : UInt32), off.toNat + len.toNat ≤ bytes.length →
      (dst + len.toNat ≤ SECTOR_DATA_START ∨ SECTOR_DATA_START + 512 ≤ dst) →
      ∃ mem', k_readfile drive mem dst (s.part.startLBA.toUInt32 + s.r.ret) off len = .ok mem'
        ∧ read mem' dst len.toNat = (bytes.drop off.toNat).take len.toNat
        ∧ ∀ x, (x < dst ∨ dst + len.toNat ≤ x) →
            (x < SECTOR_DATA_START ∨ SECTOR_DATA_START + 512 ≤ x) → mem' x = mem x

theorem fstat : ∃ size, s.c.fd.fstat = .ok size := by
  cases hf : s.c.fd.fstat with
  | error e =>
      have hcall := s.call
      unfold Fat.FAT32Copyin at hcall
      rw [hf] at hcall
      have hret := congrArg Fat.Reply.ret (Except.ok.inj hcall)
      exact absurd hret.symm s.stored
  | ok size => exact ⟨size, rfl⟩

/-- The loader gets the bytes that the volume has behind the start sector. -/
theorem readfile_image {drive : Drive} (hdrive : drive.Reads s.finalDisk s.gpt.volume.toNat)
    (mem : Mem) {dst : Nat} {off len : UInt32} (hlt : off.toNat + len.toNat < 2 ^ 32)
    (hdst : dst + len.toNat ≤ SECTOR_DATA_START ∨ SECTOR_DATA_START + 512 ≤ dst)
    (hsector : ∀ b, b < off.toNat + len.toNat →
      s.part.startLBA.toNat + s.r.ret.toNat + b / 512 < s.gpt.volume.toNat) :
    ∃ mem', k_readfile drive mem dst (s.part.startLBA.toUInt32 + s.r.ret) off len = .ok mem'
      ∧ read mem' dst len.toNat = read s.m (s.r.ret.toNat * 512 + off.toNat) len.toNat
      ∧ ∀ x, (x < dst ∨ dst + len.toNat ≤ x) →
          (x < SECTOR_DATA_START ∨ SECTOR_DATA_START + 512 ≤ x) → mem' x = mem x := by
  obtain ⟨mem', hrun, hin, hout⟩ := readfileLoop_reads drive SECTOR_DATA_START
    (s.part.startLBA.toUInt32 + s.r.ret) (len.toNat + 1) mem dst off len (by omega) (Nat.le_of_lt hlt) hdst
  refine ⟨mem', hrun, ?_, hout⟩
  have hstart : s.part.startLBA.toUInt32 + s.r.ret
      = UInt32.ofNat (s.part.startLBA.toNat + s.r.ret.toNat) := by
    rw [UInt32.ofNat_add, UInt32.ofNat_toNat]
    rfl
  refine read_shift fun j hj => ?_
  rw [hin j hj, hdrive.byteAt (hsector (off.toNat + j) (by omega)) s.sectors hstart, Nat.add_assoc]

/-- A file that `fobjSize` can measure is loaded. -/
theorem loads_of_small {bytes : List UInt8} (hfd : s.c.fd.Stable bytes) : s.Loads bytes := by
  intro drive hdrive mem dst off len hlen hdst
  have hbps : s.config.bytesPerSector.toNat = 512 := by
    rw [s.bytesPerSector]
    rfl
  have hvol := s.volume
  have hbound := Gpt.generate_bounds s.generated s.index s.partition
  obtain ⟨hcontents, hend⟩ := Fat.copyin_start_sector s.created
    (by rw [s.nSector, hbps]; omega) s.ranBefore s.call s.stored s.ranAfter hfd
  rw [hbps, s.nSector] at hend
  rw [hbps] at hcontents
  have hsmall := hfd.small
  obtain ⟨mem', hrun, hread, hout⟩ :=
    s.readfile_image hdrive mem (show off.toNat + len.toNat < 2 ^ 32 by omega) hdst
      fun b hb => by omega
  refine ⟨mem', hrun, ?_, hout⟩
  rw [hread, read_part s.m _ bytes.length hlen, hcontents]

end Install

/-- A drive that reads a disk. -/
def driveOf (disk : Mem) : Drive :=
  fun sect => Vector.ofFn fun j => disk (512 * sect.toInt.toNat + j)

theorem driveOf_reads (disk : Mem) (volume : Nat) : (driveOf disk).Reads disk volume := by
  intro sect s hs _
  have hnat : sect.toInt.toNat = s := by omega
  apply List.ext_getElem?
  intro j
  rw [getElem?_read]
  by_cases hj : j < 512
  · simp [driveOf, hnat, hj]
  · simp [driveOf, hj]

/-- Two files of at least `2 ^ 32` bytes that no `read` can tell apart are not both loaded. -/
theorem Install.not_loads_of_large (s : Install) {bytes : List UInt8}
    (hlarge : 2 ^ 32 ≤ bytes.length) {b : UInt8} (hb : bytes[2 ^ 32 - 1]? ≠ some b)
    (h : s.Loads bytes) : ¬ s.Loads (bytes.set (2 ^ 32 - 1) b) := by
  intro h'
  have hone : (2 ^ 32 - 1 : UInt32).toNat = 2 ^ 32 - 1 := by decide
  have hlen : (1 : UInt32).toNat = 1 := rfl
  obtain ⟨mem', hrun, hread, -⟩ := h (driveOf s.finalDisk) (driveOf_reads _ _) (fun _ => 0) 0x2000
    (2 ^ 32 - 1) 1 (by omega) (Or.inr (by decide))
  obtain ⟨mem'', hrun', hread', -⟩ := h' (driveOf s.finalDisk) (driveOf_reads _ _) (fun _ => 0) 0x2000
    (2 ^ 32 - 1) 1 (by rw [List.length_set]; omega) (Or.inr (by decide))
  obtain rfl := Except.ok.inj (hrun.symm.trans hrun')
  rw [hread, hone, hlen] at hread'
  have hhead := congrArg (fun l => l[0]?) hread'
  simp only [List.getElem?_take_of_lt Nat.zero_lt_one, List.getElem?_drop, Nat.add_zero] at hhead
  rw [List.getElem?_set_self (by omega)] at hhead
  exact hb hhead

/-- **The boot loader loads the files whose size `FAT32Copyin` can measure**: whatever the disk,
the calls and the answers about the descriptor, every contents these allow is loaded, from any
offset and in any length, exactly if the file is smaller than `2 ^ 32` bytes. -/
theorem readfile_loads_iff (s : Install) {bytes : List UInt8} (hfd : s.c.fd.Regular bytes) :
    (∀ contents, s.c.fd.Regular contents → s.Loads contents) ↔ bytes.length < 2 ^ 32 := by
  refine ⟨fun h => ?_, fun hsmall contents hcontents => ?_⟩
  · by_contra hlarge
    have hne : bytes[2 ^ 32 - 1]? ≠ some (bytes.getD (2 ^ 32 - 1) 0 + 1) := by
      rw [List.getD_eq_getElem?_getD, List.getElem?_eq_getElem (by omega)]
      intro hc
      have hnat := congrArg UInt8.toNat (Option.some.inj hc)
      rw [Option.getD_some, UInt8.toNat_add] at hnat
      have h1 : (1 : UInt8).toNat = 1 := rfl
      omega
    exact s.not_loads_of_large (by omega) hne (h bytes hfd) (h _ (hfd.set _))
  · obtain ⟨size, hsize⟩ := s.fstat
    have h1 := hfd.fstat size hsize
    have h2 := hcontents.fstat size hsize
    exact s.loads_of_small (hcontents.stable (by omega))

/-! ### A disk with one partition -/

/-- A disk of 69 sectors, with a partition for the small volume. -/
def kernelDisk : Gpt.GPTConfig where
  volume := 69
  partitions := [{ Gpt.bootPart with volume := 64 }]
  diskId := Gpt.sampleGuid
  buf_fits := by decide
  partitions_fit := by decide

def kernelPart : Gpt.PartitionConfig := { Gpt.bootPart with volume := 64, startLBA := 3 }

/-- The bytes `GPTGenerate` leaves on it. -/
def kernelDiskBytes : Mem :=
  match Gpt.GPTGenerate (fun _ => 0) kernelDisk with
  | .ok r => r.2.1
  | .error _ => fun _ => 0

theorem kernelDisk_generated : Gpt.GPTGenerate (fun _ => 0) kernelDisk
    = .ok (1, kernelDiskBytes, [kernelPart]) := by
  have hok : ((Gpt.GPTGenerate (fun _ => 0) kernelDisk).toOption.map fun r => (r.1, r.2.2))
      = some (1, [kernelPart]) := by decide +kernel
  unfold kernelDiskBytes
  cases hgen : Gpt.GPTGenerate (fun _ => 0) kernelDisk with
  | error e =>
      rw [hgen] at hok
      exact absurd hok (by simp [Except.toOption])
  | ok r =>
      rw [hgen] at hok
      obtain ⟨h1, h2⟩ := Prod.mk.inj (Option.some.inj hok)
      rw [← h1, ← h2]

/-- What the call leaves behind on the volume in that partition. -/
def kernelReply (c : Fat.Call) : Fat.Reply :=
  match Fat.FAT32Copyin (Fat.formatImage (partitionAt kernelDiskBytes 3) Fat.smallVolume)
      c.fd c.name.bytes c.attr with
  | .ok r => r
  | .error _ => ⟨0, fun _ => 0, none⟩

/-- One call on the volume in that partition. -/
def kernelInstall (c : Fat.Call) (h : (kernelReply c).ret ≠ 0) : Install where
  buf := fun _ => 0
  gpt := kernelDisk
  k := 1
  disk := kernelDiskBytes
  placed := [kernelPart]
  i := 0
  part := kernelPart
  config := Fat.smallVolume
  image := Fat.formatImage (partitionAt kernelDiskBytes 3) Fat.smallVolume
  before := []
  c := c
  after := []
  m₁ := Fat.formatImage (partitionAt kernelDiskBytes 3) Fat.smallVolume
  r := kernelReply c
  m := (kernelReply c).buf
  done₁ := []
  done₂ := []
  generated := kernelDisk_generated
  sectors := by decide
  index := by decide
  partition := rfl
  bytesPerSector := rfl
  nSector := rfl
  volume := by decide
  created := rfl
  ranBefore := rfl
  call := by
    unfold kernelReply at h ⊢
    split
    · assumption
    · rename_i he
      rw [he] at h
      exact absurd rfl h
  stored := h
  ranAfter := rfl

theorem helloCall_ret : (kernelReply Fat.helloCall).ret ≠ 0 := by decide +kernel

theorem readfile_loads_hello :
    (kernelInstall Fat.helloCall helloCall_ret).Loads Fat.helloFile := by
  have hfd : Fat.helloCall.fd.Regular Fat.helloFile :=
    ⟨Fat.helloCall_stable.fstat, Fat.helloCall_stable.read⟩
  exact (readfile_loads_iff (kernelInstall Fat.helloCall helloCall_ret) hfd).mpr (by decide) _ hfd

/-- A file of `2 ^ 32 + 3` bytes: it starts with `hi!`, and the rest are letters too. -/
def hugeFile : List UInt8 := Fat.helloFile ++ List.replicate (2 ^ 32) 120

def hugeCall : Fat.Call :=
  { Fat.helloCall with fd := { Fat.helloCall.fd with fstat := .ok 4294967299 } }

theorem hugeCall_ret : (kernelReply hugeCall).ret ≠ 0 := by decide +kernel

theorem hugeFile_length : hugeFile.length = 2 ^ 32 + 3 := by
  unfold hugeFile
  rw [List.length_append, List.length_replicate]
  rfl

theorem hugeCall_regular : hugeCall.fd.Regular hugeFile := by
  refine ⟨fun size h => ?_, fun n bs h => ?_⟩
  · rw [← Except.ok.inj h, hugeFile_length]
    rfl
  · rw [← Except.ok.inj h]
    exact (List.take_prefix _ _).trans (List.prefix_append _ _)

/-- `FAT32Copyin` takes the huge file for one of three bytes and stores these.  The boot loader
reads the fourth byte as 0. -/
theorem readfile_counterexample : hugeCall.fd.Regular hugeFile
    ∧ ¬ (kernelInstall hugeCall hugeCall_ret).Loads hugeFile := by
  refine ⟨hugeCall_regular, fun h => ?_⟩
  obtain ⟨mem', hrun, hread, -⟩ := h (driveOf _) (driveOf_reads _ _) (fun _ => 0) 0x2000 3 1
    (by rw [hugeFile_length]; decide) (Or.inr (by decide))
  obtain ⟨mem'', hrun', hread', -⟩ := (kernelInstall hugeCall hugeCall_ret).readfile_image
    (driveOf_reads _ _) (fun _ => 0) (show (3 : UInt32).toNat + (1 : UInt32).toNat < 2 ^ 32 by decide)
    (show 0x2000 + (1 : UInt32).toNat ≤ SECTOR_DATA_START ∨ SECTOR_DATA_START + 512 ≤ 0x2000 by decide)
    (by decide +kernel)
  obtain rfl := Except.ok.inj (hrun.symm.trans hrun')
  have hzero : read (kernelReply hugeCall).buf ((kernelReply hugeCall).ret.toNat * 512 + 3) 1 = [0] := by
    decide +kernel
  have hfile : (hugeFile.drop 3).take 1 = [120] := by
    unfold hugeFile
    rw [List.drop_left' (by decide), List.take_replicate]
    rfl
  have hbytes : [120] = [(0 : UInt8)] := hfile.symm.trans (hread.symm.trans (hread'.trans hzero))
  exact absurd hbytes (by decide)

end LinuxUtil.Bootloader
