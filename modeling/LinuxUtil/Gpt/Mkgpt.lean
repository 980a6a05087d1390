/-
`main` of `gpt/mkgpt.c`: the disk image `a.img`, made in memory and written in one piece.

The layout is fixed.  The files are copied in without looking at whether that worked: what the
program says about them is the start sectors in the header it prints, and those are 0 for the
ones that are not there.
-/
import LinuxUtil.Gpt.Install

namespace LinuxUtil.Gpt.Mkgpt

open ByteMem
open Installer (partition myDiskID fatConfig GPT_SECTOR_SIZE)

/-- What the operating system answers. -/
structure World where
  /-- `open` of `a.img`, which empties the file: whether it succeeds. -/
  openImage : Bool
  mmap : Bool
  /-- `open` for reading: the descriptor. -/
  openFile : List UInt8 → Option Fat.Fd
  /-- `write` of the image: how many bytes are in the file then, or the error. -/
  writeImage : Except Errno UInt64

/-- An exit: the status, the bytes of `a.img`, the header printed on the way (start sectors of the
partitions, and of the files) and the complaint, if there is one. -/
structure Outcome where
  status : Nat
  file : List UInt8
  starts : List UInt64
  offsets : List (String × UInt32)
  complaint : Option String

/-- The labels `fail` and `local_fail`. -/
def fail (file : List UInt8) (starts : List UInt64) (offsets : List (String × UInt32))
    (message : String) : Outcome :=
  ⟨1, file, starts, offsets, some message⟩

/-! ### The layout -/

def disk_size : UInt64 := 1024 * 1024 * 256

def volume : UInt64 := disk_size / GPT_SECTOR_SIZE

/-- The sectors of the boot partition. -/
def bootVolume : UInt64 := 262140

theorem volume_fits : volume.toNat * 512 < 2 ^ 64 := by
  show 268435456 / 512 * 512 < 2 ^ 64
  omega

/-- The two partitions. -/
def pc : List PartitionConfig :=
  [partition "Boot Partition" bootVolume, partition "Filesystem" (volume - 5 - bootVolume)]

theorem pc_fits : pc.length * 56 < 2 ^ 64 := by
  show 2 * 56 < 2 ^ 64
  omega

/-- `config`; the identifiers are those of the installer. -/
def config : GPTConfig where
  volume := volume
  partitions := pc
  diskId := myDiskID
  buf_fits := volume_fits
  partitions_fit := pc_fits

/-! ### The files -/

def EBADF : Errno := 9

/-- A number that is no descriptor. -/
def badFd : Fat.Fd where
  fstat := .error EBADF
  lseek := .error EBADF
  read := fun _ => .error EBADF
  errno := EBADF
  read_le := by
    intro n bs h
    cases h

/-- `fatFd`, which is -1 if the file does not open. -/
def fatFd (w : World) (path : List UInt8) : Fat.Fd := (w.openFile path).getD badFd

/-- A file to copy, and the macro that tells where it starts. -/
structure Source where
  macroName : String
  path : List UInt8
  name : List UInt8
  flags : UInt32

/-- `FAT_ATTR_READ_ONLY | FAT_ATTR_SYSTEM`. -/
def sysFlag : UInt32 := 0x01 ||| 0x04

/-- What is copied in. -/
def sources : List Source :=
  [⟨"BOOTLOADER_OFFSET", ascii "../bootloader/linuz.bin", ascii "linuz", sysFlag⟩,
   ⟨"KERNEL_OFFSET", ascii "../bootloader/kernel", ascii "kernel", sysFlag⟩,
   ⟨"BUSYBOX_OFFSET", ascii "/usr/bin/busybox", ascii "busybox", 0x01⟩,
   ⟨"INIT_OFFSET", ascii "init", ascii "init", 0x01⟩]

/-- The calls of `FAT32Copyin` in turn.  Gives the lines printed. -/
def copyins (w : World) : List Source → Mem → Except Fault (Mem × List (String × UInt32))
  | [], fat => .ok (fat, [])
  | src :: rest, fat => do
      let r ← Fat.FAT32Copyin fat (fatFd w src.path) src.name src.flags
      let (fat, offsets) ← copyins w rest r.buf
      return (fat, (src.macroName, r.ret) :: offsets)

/-- What `read` puts in front of the image. -/
def bootCode (w : World) : List UInt8 :=
  match (fatFd w (ascii "mbr.img")).read 440 with
  | .error _ => []
  | .ok bytes => bytes

/-! ### The program -/

/-- The image in memory, and what is printed about it; nothing if the partitions do not fit. -/
def makeImage (w : World) :
    Except Fault (Option (Mem × List UInt64 × List (String × UInt32))) := do
  let (n, buf, pc) ← GPTGenerate (fun _ => 0) config
  if config.numPart ≠ n then return none
  else do
    let part ← deref pc[0]?
    let sectorForFAT := (GPT_SECTOR_SIZE * part.startLBA).toNat
    let (_, fat) ← Fat.createFAT32 (from_ buf sectorForFAT) (fatConfig part)
    let (fat, offsets) ← copyins w sources fat
    let buf := splice buf sectorForFAT fat
    return some (write buf 0 (bootCode w), pc.map (·.startLBA), offsets)

/-- `main`. -/
def main (w : World) : Except Fault Outcome :=
  if w.openImage then
    if w.mmap then do
      let made ← makeImage w
      match made with
      | none => return fail [] [] [] "Error: disk full\n"
      | some (buf, starts, offsets) =>
          match w.writeImage with
          | .error _ => return fail [] starts offsets "write"
          | .ok n =>
              let file := read buf 0 n.toNat
              if n ≠ disk_size then return fail file starts offsets "write"
              else return ⟨0, file, starts, offsets, none⟩
    else .ok (fail [] [] [] "mmap")
  else .ok (fail [] [] [] "open")

end LinuxUtil.Gpt.Mkgpt
