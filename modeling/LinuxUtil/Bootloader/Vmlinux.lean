/-
The loader of `bootloader/vmlinux.c`.

Memory is a byte memory and a pointer is an address in it; the integers are the
`uint32_t` of the source.  The disk drive is an argument, `Drive`: it answers a sector
number, the `int` that `read_disk` takes, with 512 bytes.

The buffer `data` of `__elf_main` is in the memory, at an address that is an argument: a
program header that does not end with its sector is read on behind the buffer.
-/
import LinuxUtil.Fault

namespace LinuxUtil.Bootloader

open ByteMem

def SECTSIZE : UInt32 := 512

/-- `SECTOR_DATA_START`, where a sector is put before its bytes are copied out. -/
def SECTOR_DATA_START : Nat := 0x1000

/-- The sectors of a disk. -/
abbrev Drive := Int32 → Vector UInt8 512

/-- `read_disk`. -/
def read_disk (drive : Drive) (mem : Mem) (buf : Nat) (sect : Int32) : Mem :=
  write mem buf (drive sect).toList

/-- The loop `dst[i] = src[i]`, for `n` bytes. -/
def copyBytes : Nat → Mem → Nat → Nat → Mem
  | 0, mem, _, _ => mem
  | n + 1, mem, dst, src => copyBytes n (write mem dst [mem src]) (dst + 1) (src + 1)

/-- The loop of `k_readfile`.  Every round takes at least a byte off `fsize`, so `fuel` rounds
are enough for fewer than `fuel` bytes. -/
def readfileLoop (drive : Drive) (sector_data : Nat) (fstart : UInt32) :
    Nat → Mem → Nat → UInt32 → UInt32 → Except Fault Mem
  | 0, _, _, _, _ => .error .diverges
  | fuel + 1, mem, dst, foff, fsize =>
      if fsize ≠ 0 then
        let read_start := foff % SECTSIZE
        let sector := fstart + foff / SECTSIZE
        let nb := SECTSIZE - read_start
        let nb := if nb > fsize then fsize else nb
        let mem := read_disk drive mem sector_data sector.toInt32
        let mem := copyBytes nb.toNat mem dst (sector_data + read_start.toNat)
        readfileLoop drive sector_data fstart fuel mem (dst + nb.toNat) (foff + nb) (fsize - nb)
      else .ok mem

/-- `__k_readfile`: read `fsize` bytes at offset `foff` of the file that starts at sector
`fstart`. -/
def k_readfile (drive : Drive) (mem : Mem) (addr : Nat) (fstart foff fsize : UInt32) :
    Except Fault Mem :=
  readfileLoop drive SECTOR_DATA_START fstart (fsize.toNat + 1) mem addr foff fsize

/-- The loop `buf[i] = 0`, for `n` bytes. -/
def zeroBytes : Nat → Mem → Nat → Mem
  | 0, mem, _ => mem
  | n + 1, mem, buf => zeroBytes n (write mem buf [0]) (buf + 1)

/-- `__k_memzero`. -/
def k_memzero (mem : Mem) (addr : Nat) (size : UInt32) : Mem := zeroBytes size.toNat mem addr

/-! ### The program headers

`Elf64_Phdr` has 56 bytes: `p_type` at 0, `p_offset` at 8, `p_paddr` at 24, `p_filesz` at 32 and
`p_memsz` at 40.
-/

def PT_LOAD : UInt32 := 1

/-- A segment is read, and the rest of it set to zero.  The fields of the header are looked up when they
are used; of 64 bits the pointers and the `uint32_t` arguments keep 32. -/
def loadSegment (drive : Drive) (sector : UInt32) (mem : Mem) (phdr : Nat) : Except Fault Mem := do
  let p_paddr := load mem (phdr + 24) 8
  let p_offset := load mem (phdr + 8) 8
  let p_filesz := load mem (phdr + 32) 8
  let mem ← k_readfile drive mem (UInt32.ofNat p_paddr).toNat sector (UInt32.ofNat p_offset)
    (UInt32.ofNat p_filesz)
  let p_paddr := load mem (phdr + 24) 8
  let p_filesz := load mem (phdr + 32) 8
  let p_memsz := load mem (phdr + 40) 8
  return k_memzero mem (UInt32.ofNat (p_paddr + p_filesz)).toNat
    (UInt32.ofNat p_memsz - UInt32.ofNat p_filesz)

/-- The segment of a header is loaded if a bit of its type is set. -/
def loadHeader (drive : Drive) (sector : UInt32) (mem : Mem) (phdr : Nat) : Except Fault Mem :=
  if UInt32.ofNat (load mem phdr 4) &&& PT_LOAD ≠ 0 then loadSegment drive sector mem phdr
  else .ok mem

/-- The loop over the program headers. -/
def phdrLoop (drive : Drive) (data : Nat) (sector phoff : UInt32) (phnum : UInt16) :
    Nat → Mem → UInt16 → Except Fault Mem
  | 0, _, _ => .error .diverges
  | fuel + 1, mem, i =>
      if i < phnum then do
        let off := phoff + i.toUInt32 * 56
        let mem := read_disk drive mem data (sector + off / SECTSIZE).toInt32
        let mem ← loadHeader drive sector mem (data + (off % SECTSIZE).toNat)
        phdrLoop drive data sector phoff phnum fuel mem (i + 1)
      else .ok mem

/-- `__elf_main`, up to the jump: the memory, and where the kernel is entered. -/
def elf_main (drive : Drive) (data : Nat) (sector : UInt32) (mem : Mem) :
    Except Fault (Mem × UInt32) := do
  let mem := read_disk drive mem data sector.toInt32
  let kernel_entry := UInt32.ofNat (load mem (data + 24) 8)
  let phnum := UInt16.ofNat (load mem (data + 56) 2)
  let phoff := UInt32.ofNat (load mem (data + 32) 8)
  let mem ← phdrLoop drive data sector phoff phnum (phnum.toNat + 1) mem 0
  return (mem, kernel_entry)

end LinuxUtil.Bootloader
