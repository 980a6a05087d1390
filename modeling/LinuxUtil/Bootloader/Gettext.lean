/-
`bootloader/gettext.c`: the code of an ELF file, as it is put on a disk.

The input is a regular file, the output a file on a device that takes so many bytes more and then
no others.  Offsets are of type `off_t`: from `2 ^ 63` on they are negative.
-/
import LinuxUtil.Fault

namespace LinuxUtil.Bootloader.Gettext

open ByteMem

/-- What has been written, and the room that is left. -/
structure Output where
  bytes : List UInt8
  room : Nat

/-- `write`: how many bytes, and the file. -/
def Output.write (o : Output) (buf : List UInt8) : Nat × Output :=
  (min buf.length o.room, ⟨o.bytes ++ buf.take o.room, o.room - buf.length⟩)

/-- `xreadat`, or nothing if it exits. -/
def xreadat (file : List UInt8) (offset count : Nat) : Option (List UInt8) :=
  if offset < 2 ^ 63 then
    let buf := (file.drop offset).take count
    if buf.length = count then some buf else none
  else none

/-- The loop of `xfcopy`.  Each round that goes on has read from the file, so a number of rounds
that is larger than its length is enough.  The result is whether the loop ends by itself. -/
def xfcopyLoop (file : List UInt8) : Nat → Nat → Nat → Output → Bool × Output
  | 0, _, _, o => (false, o)
  | fuel + 1, count, offset, o =>
      if count ≠ 0 then
        let nr := if count > 512 then 512 else count
        match xreadat file offset nr with
        | none => (false, o)
        | some buf =>
            let (n, o) := o.write buf
            if n ≠ nr then (false, o)
            else xfcopyLoop file fuel (count - nr) ((offset + nr) % 2 ^ 64) o
      else (true, o)

def xfcopy (file : List UInt8) (count offset : Nat) (o : Output) : Bool × Output :=
  xfcopyLoop file (file.length + 2) count offset o

/-! ### Headers -/

/-- A field of a header. -/
def field (buf : List UInt8) (off w : Nat) : Nat := leNat ((buf.drop off).take w)

/-- The layout of the headers of a class of ELF files: their sizes, and where the fields are. -/
structure Class where
  ehdr : Nat
  phdr : Nat
  word : Nat
  e_phoff : Nat
  e_phnum : Nat
  p_flags : Nat
  p_offset : Nat
  p_filesz : Nat

/-- `Elf32_Ehdr` and `Elf32_Phdr`. -/
def elf32 : Class where
  ehdr := 52
  phdr := 32
  word := 4
  e_phoff := 28
  e_phnum := 44
  p_flags := 24
  p_offset := 4
  p_filesz := 16

/-- `Elf64_Ehdr` and `Elf64_Phdr`. -/
def elf64 : Class where
  ehdr := 64
  phdr := 56
  word := 8
  e_phoff := 32
  e_phnum := 56
  p_flags := 4
  p_offset := 8
  p_filesz := 32

def EM_X86_64 : Nat := 62
def PT_LOAD : Nat := 1
def PF_X : Nat := 1

/-- `(p.p_flags & PF_X) && p.p_type == PT_LOAD`. -/
def isText (c : Class) (phdr : List UInt8) : Bool :=
  field phdr c.p_flags 4 &&& PF_X != 0 && field phdr 0 4 == PT_LOAD

/-- The loop over the program headers, of which `n` are left. -/
def phdrLoop (c : Class) (file : List UInt8) (phoff : Nat) : Nat → Nat → Output → Bool × Output
  | 0, _, o => (true, o)
  | n + 1, i, o =>
      match xreadat file ((phoff + c.phdr * i) % 2 ^ 64) c.phdr with
      | none => (false, o)
      | some phdr =>
          if isText c phdr then
            match xfcopy file (field phdr c.p_filesz c.word) (field phdr c.p_offset c.word) o with
            | (true, o) => phdrLoop c file phoff n (i + 1) o
            | (false, o) => (false, o)
          else phdrLoop c file phoff n (i + 1) o

/-- `main`, with both files open: whether it exits with 0, and what is in the output. -/
def main (file : List UInt8) (room : Nat) : Bool × List UInt8 :=
  let o : Output := ⟨[], room⟩
  match xreadat file 0 elf32.ehdr with
  | none => (false, [])
  | some e32 =>
      let m64 := field e32 18 2 = EM_X86_64
      let c := if m64 then elf64 else elf32
      match xreadat file 0 c.ehdr with
      | none => (false, [])
      | some ehdr =>
          let (done, o) := phdrLoop c file (field ehdr c.e_phoff c.word) (field ehdr c.e_phnum 2) 0 o
          (done, o.bytes)

end LinuxUtil.Bootloader.Gettext
