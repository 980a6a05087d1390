/-
`bootloader/getpayload.c`: the compressed kernel, out of a bzImage.

The input is a regular file that is mapped in whole pages: behind its end the mapping is zero, and
behind the last page there is nothing.  The output is a file that takes so many bytes of one
`write`.
-/
import LinuxUtil.Fault

namespace LinuxUtil.Bootloader.Getpayload

open ByteMem

/-- A field of `struct KernelHeader`, by its offset and its size. -/
def khdr (filedata : Mem) (off w : Nat) : Nat := load filedata off w

/-- `BiCheck`. -/
def BiCheck (filedata : Mem) : Nat :=
  if khdr filedata 0x1fe 2 ≠ 0xaa55 then 1
  else if khdr filedata 0x202 4 ≠ 0x53726448 then 1
  else 0

def LINUX_SECTOR_SIZE : Nat := 512

/-- `BiGetPayload`: where the payload is in the file, and its size. -/
def BiGetPayload (filedata : Mem) : Option (Nat × Nat) :=
  if BiCheck filedata ≠ 0 then none
  else
    let skip_sects := UInt8.ofNat (khdr filedata 0x1f1 1)
    let skip_sects := if skip_sects = 0 then 4 else skip_sects
    let skip_sects := skip_sects + 1
    let payload_len := khdr filedata 0x24c 4
    let offset := khdr filedata 0x248 4 + LINUX_SECTOR_SIZE * skip_sects.toNat
    some (offset, payload_len)

/-- The mapping of a file. -/
def mmap (file : List UInt8) : Mem := fun x => file.getD x 0

/-- `main`, with both files open: the exit status, and what is in the output. -/
def main (file : List UInt8) (room : Nat) : Nat × List UInt8 :=
  let file_size := (file.length + 4095) / 4096 * 4096
  if file_size = 0 then (1, [])
  else
    match BiGetPayload (mmap file) with
    | none => (1, [])
    | some (addr, len) =>
        -- what is not mapped cannot be written
        let n := min len (min room (file_size - addr))
        let out := read (mmap file) addr n
        if n ≠ len then (1, out) else (0, out)

end LinuxUtil.Bootloader.Getpayload
