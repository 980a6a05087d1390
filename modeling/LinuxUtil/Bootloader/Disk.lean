/-
`read_disk` of `bootloader/serial.h`, as it is without `__BIOS__`: through the ports of the disk
controller.

What is behind the ports is an argument, `Ports`.  In the other modules a drive is whatever answers
a sector number with 512 bytes; here the number goes out in four registers and the bytes come in as
128 words.
-/
import LinuxUtil.Bootloader.Vmlinux

namespace LinuxUtil.Bootloader

open ByteMem

/-- The ports of a machine whose state is a `σ`. -/
structure Ports (σ : Type) where
  inb : UInt16 → σ → UInt8 × σ
  inl : UInt16 → σ → UInt32 × σ
  outb : UInt16 → UInt8 → σ → σ

variable {σ : Type} (io : Ports σ)

/-- `wait_disk`, for so many looks at the status. -/
def wait_disk : Nat → σ → Except Fault σ
  | 0, _ => .error .diverges
  | fuel + 1, s =>
      let (status, s) := io.inb 0x1f7 s
      if status &&& 0xc0 ≠ 0x40 then wait_disk fuel s else .ok s

/-- The registers, and the command to read. -/
def commandRead (sect : Int32) (s : σ) : σ :=
  let s := io.outb 0x1f2 1 s
  let s := io.outb 0x1f3 sect.toUInt32.toUInt8 s
  let s := io.outb 0x1f4 (sect >>> 8).toUInt32.toUInt8 s
  let s := io.outb 0x1f5 (sect >>> 16).toUInt32.toUInt8 s
  let s := io.outb 0x1f6 ((sect >>> 24).toUInt32.toUInt8 ||| 0xE0) s
  io.outb 0x1f7 0x20 s

/-- The loop over the words, of which `n` are left. -/
def inlLoop : Nat → Mem → Nat → σ → Mem × σ
  | 0, mem, _, s => (mem, s)
  | n + 1, mem, buf, s =>
      let (word, s) := io.inl 0x1f0 s
      inlLoop n (store mem buf 4 word.toNat) (buf + 4) s

/-- `read_disk`. -/
def readPorts (fuel : Nat) (mem : Mem) (buf : Nat) (sect : Int32) (s : σ) : Except Fault (Mem × σ) := do
  let s ← wait_disk io fuel s
  let s := commandRead io sect s
  let s ← wait_disk io fuel s
  return inlLoop io 128 mem buf s

/-- One call after another. -/
def readsPorts (fuel : Nat) : List (Nat × Int32) → Mem → σ → Except Fault (Mem × σ)
  | [], mem, s => .ok (mem, s)
  | (buf, sect) :: reads, mem, s => do
      let (mem, s) ← readPorts io fuel mem buf sect s
      readsPorts fuel reads mem s

end LinuxUtil.Bootloader
