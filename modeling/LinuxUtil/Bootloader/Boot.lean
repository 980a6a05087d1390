/-
The way from the boot sector to the kernel.

Every stage has the sectors of the next one in it as numbers: `bootloader/mbr.c` those of the
first half of the loader and of the kernel, `bootloader/bzimage.S` that of the second half, and
the loader that of the kernel once more.
-/
import LinuxUtil.Bootloader.Bzimage

namespace LinuxUtil.Bootloader

open ByteMem

/-- `__elf_start` of `mbr.c`: the first sector of the loader, and the argument of `secondary`. -/
def elf_start (drive : Drive) (mem : Mem) : Mem × UInt32 :=
  (read_disk drive mem 0x1200 (3 + 528), 3 + 536)

/-- `_start` of `bzimage.S`, up to the call of `__elf_main`: the second sector. -/
def loaderStart (drive : Drive) (mem : Mem) : Mem := read_disk drive mem 0x1400 532

/-- From the boot sector to the jump into the setup code of a bzImage.  The loader does not look at
the argument of `secondary`. -/
def bootBzimage (own : Nat → Bool) (drive : Drive) (mem : Mem) : Except Fault Mem :=
  bzElfMain own drive (loaderStart drive (elf_start drive mem).1)

end LinuxUtil.Bootloader
