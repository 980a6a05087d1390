/-
The loader of `bootloader/bzimage.c`.

The kernel's setup code goes to 0x2000 and the kernel to 0x100000, a sector at a time.  The
variables are not in the memory of the model.  What the compiler and `mbr.S` have put there,
the loader's code and its stack, is the argument `own`: a sector that is read over it is
the end of the loader.
-/
import LinuxUtil.Bootloader.Vmlinux

namespace LinuxUtil.Bootloader

open ByteMem

def LINUX_SECTOR_SIZE : UInt32 := 512

/-- `die` prints its message and halts. -/
def die {α : Type} : Except Fault α := .error (.assertion "DIE!")

/-- `read_disk`, unless it would be over the loader itself. -/
def loadSector (own : Nat → Bool) (drive : Drive) (mem : Mem) (load_addr sect : UInt32) :
    Except Fault Mem :=
  if (List.range 512).any fun k => own (load_addr.toNat + k) then .error .outOfBounds
  else .ok (read_disk drive mem load_addr.toNat sect.toInt32)

/-- A field of `struct KernelHeader`, by its offset and its size. -/
def khdr (mem : Mem) (off w : Nat) : Nat := load mem (0x2000 + off) w

/-- The loop over the rest of the real-mode code. -/
def setupLoop (own : Nat → Bool) (drive : Drive) (sector : UInt32) (setup_sects : UInt8) :
    Nat → Mem → UInt32 → UInt8 → Except Fault Mem
  | 0, _, _, _ => .error .diverges
  | fuel + 1, mem, load_addr, i =>
      if i < setup_sects then do
        let mem ← loadSector own drive mem load_addr (sector + i.toUInt32)
        setupLoop own drive sector setup_sects fuel mem (load_addr + LINUX_SECTOR_SIZE) (i + 1)
      else .ok mem

/-- The loop over the protected-mode kernel, up to sector `last` of the image. -/
def kernelLoop (own : Nat → Bool) (drive : Drive) (sector last : UInt32) :
    Nat → Mem → UInt32 → UInt32 → Except Fault Mem
  | 0, _, _, _ => .error .diverges
  | fuel + 1, mem, load_addr, i =>
      if i < last then do
        let mem ← loadSector own drive mem load_addr (sector + i)
        kernelLoop own drive sector last fuel mem (load_addr + LINUX_SECTOR_SIZE) (i + 1)
      else .ok mem

/-- The checks of the header, and the sectors behind the first two. -/
def loadRest (own : Nat → Bool) (drive : Drive) (sector load_start : UInt32) (mem : Mem) :
    Except Fault Mem :=
  let setup_sects := UInt8.ofNat (khdr mem 0x1f1 1)
  let setup_sects := if setup_sects = 0 then 4 else setup_sects
  let setup_sects := setup_sects + 1
  if khdr mem 0x1fe 2 ≠ 0xaa55 ∨ khdr mem 0x202 4 ≠ 0x53726448 then die
  else do
    let load_addr := load_start + LINUX_SECTOR_SIZE * 2
    let mem ← setupLoop own drive sector setup_sects 256 mem load_addr 2
    let img_size := setup_sects.toUInt32 * LINUX_SECTOR_SIZE + UInt32.ofNat (khdr mem 0x1f4 4) * 16
    let protocol := khdr mem 0x206 2
    if UInt8.ofNat (khdr mem 0x211 1) &&& 1 = 0 ∨ protocol < 0x0202 then die
    else
      let last := img_size / LINUX_SECTOR_SIZE
      kernelLoop own drive sector last (last.toNat + 1) mem 0x100000 setup_sects.toUInt32

/-- The first part of `__elf_main`: the image is loaded. -/
def loadImage (own : Nat → Bool) (drive : Drive) (mem : Mem) : Except Fault Mem := do
  let sector : UInt32 := 539
  let load_start : UInt32 := 0x2000
  let mem ← loadSector own drive mem load_start sector
  let mem ← loadSector own drive mem (load_start + LINUX_SECTOR_SIZE) (sector + 1)
  loadRest own drive sector load_start mem

def LINUX_CMD_LINE : List UInt8 :=
  ascii "init=/init trace_clock=local console=ttyS0 earlyprintk root=/dev/sda1 rw"

def code16 : List UInt8 :=
  [0x31, 0xc0, 0x05, 0x00, 0x02, 0x8e, 0xd8, 0x8e, 0xd0, 0x8e, 0xc0, 0x8e, 0xe0, 0x8e, 0xe8, 0x31,
    0xc0, 0xff, 0xe0]

/-- The second part: the fields that the loader fills in, the command line, and the code that enters
the setup code. -/
def patchHeader (mem : Mem) : Mem :=
  let heap_end := 0x10000
  let mem := store mem (0x2000 + 0x210) 1 0xff
  let mem := store mem (0x2000 + 0x224) 2 (heap_end - 0x200)
  let mem := store mem (0x2000 + 0x211) 1 (khdr mem 0x211 1 ||| 0x80)
  let mem := write mem (0x2000 + heap_end) (LINUX_CMD_LINE ++ [0])
  let mem := store mem (0x2000 + 0x228) 4 (0x2000 + heap_end)
  write mem (0x2000 + 0x8000) code16

/-- `__elf_main`, up to the jump to the setup code. -/
def bzElfMain (own : Nat → Bool) (drive : Drive) (mem : Mem) : Except Fault Mem := do
  let mem ← loadImage own drive mem
  return patchHeader mem

end LinuxUtil.Bootloader
