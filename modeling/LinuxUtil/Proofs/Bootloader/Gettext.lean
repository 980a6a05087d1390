/-
What `gettext` extracts.

Every part of the program writes a text that is known beforehand, unless it is stopped: by
something that is not in the file, or for want of room.  What has been written by then is the
beginning of the text.  `Writes` says so of one part, `Writes.seq` of one part after another, and a
chunk, a segment and a table of headers are put together from it.
-/
import LinuxUtil.Bootloader.Gettext

namespace LinuxUtil.Bootloader.Gettext

/-! ### Parts of a run -/

/-- The run writes `text` if `sound` holds and there is room for it, and its beginning if not. -/
structure Writes (o : Output) (text : List UInt8) (sound : Prop) (res : Bool × Output) : Prop where
  done : res.1 = true ↔ sound ∧ text.length ≤ o.room
  all : res.1 = true → res.2 = ⟨o.bytes ++ text, o.room - text.length⟩
  part : ∃ w, w <+: text ∧ res.2.bytes = o.bytes ++ w

theorem Writes.nothing (o : Output) : Writes o [] True (true, o) where
  done := by simp
  all := fun _ => by simp
  part := ⟨[], List.nil_prefix, by simp⟩

theorem Writes.congr {o : Output} {text : List UInt8} {sound sound' : Prop} {res : Bool × Output}
    (h : Writes o text sound res) (hiff : sound ↔ sound') : Writes o text sound' res :=
  ⟨by rw [h.done, hiff], h.all, h.part⟩

/-- A call of `write` that has to take everything. -/
theorem Writes.write (o : Output) (buf : List UInt8) :
    Writes o buf True ((o.write buf).1 == buf.length, (o.write buf).2) where
  done := by
    unfold Output.write
    simp only [beq_iff_eq, true_and]
    omega
  all := by
    unfold Output.write
    simp only [beq_iff_eq]
    intro hmin
    rw [List.take_of_length_le (by omega)]
  part := ⟨buf.take o.room, List.take_prefix _ _, rfl⟩

/-! ### Chunks -/

/-- A part of a file. -/
def part (file : List UInt8) (offset count : Nat) : List UInt8 := (file.drop offset).take count

/-- The part is all there. -/
def Inside (file : List UInt8) (offset count : Nat) : Prop := count = 0 ∨ offset + count ≤ file.length

variable {file : List UInt8} (hfile : file.length < 2 ^ 63)

theorem length_part {offset count : Nat} (h : offset + count ≤ file.length) :
    (part file offset count).length = count := by
  unfold part
  rw [List.length_take, List.length_drop]
  omega

include hfile

theorem xreadat_eq {offset count : Nat} (hpos : 0 < count) : xreadat file offset count
    = if offset + count ≤ file.length then some (part file offset count) else none := by
  unfold xreadat
  by_cases h : offset + count ≤ file.length
  · rw [if_pos h, if_pos (by omega)]
    exact if_pos (length_part h)
  · rw [if_neg h]
    split
    · refine if_neg ?_
      rw [List.length_take, List.length_drop]
      omega
    · rfl

omit hfile

/-! ### Segments -/

/-- The program header `i`. -/
def phdrAt (c : Class) (file : List UInt8) (phoff i : Nat) : List UInt8 :=
  part file (phoff + c.phdr * i) c.phdr

/-- The code of the program header `i`: nothing, unless it is of a segment that is executed. -/
def codeAt (c : Class) (file : List UInt8) (phoff i : Nat) : List UInt8 :=
  let phdr := phdrAt c file phoff i
  if isText c phdr then part file (field phdr c.p_offset c.word) (field phdr c.p_filesz c.word) else []

/-- The program header `i` is in the file, and so is its code. -/
def Good (c : Class) (file : List UInt8) (phoff i : Nat) : Prop :=
  let phdr := phdrAt c file phoff i
  phoff + c.phdr * (i + 1) ≤ file.length ∧
    (isText c phdr → Inside file (field phdr c.p_offset c.word) (field phdr c.p_filesz c.word))

include hfile

omit hfile

/-- One header, and its segment. -/
def segment (c : Class) (file : List UInt8) (phoff i : Nat) (o : Output) : Bool × Output :=
  let phdr := phdrAt c file phoff i
  if isText c phdr then xfcopy file (field phdr c.p_filesz c.word) (field phdr c.p_offset c.word) o
  else (true, o)

include hfile

omit hfile

/-! ### The whole file -/

/-- The class of a file, by the machine it is for. -/
def classOf (file : List UInt8) : Class := if field (part file 0 52) 18 2 = EM_X86_64 then elf64 else elf32

def phoffOf (file : List UInt8) : Nat :=
  field (part file 0 (classOf file).ehdr) (classOf file).e_phoff (classOf file).word

def phnumOf (file : List UInt8) : Nat :=
  field (part file 0 (classOf file).ehdr) (classOf file).e_phnum 2

/-- The code of a file: its executable segments, in the order of their headers. -/
def code (file : List UInt8) : List UInt8 :=
  (List.range' 0 (phnumOf file)).flatMap (codeAt (classOf file) file (phoffOf file))

/-- The header is in the file, and so are the program headers and the segments that are executed. -/
def Sound (file : List UInt8) : Prop :=
  52 ≤ file.length ∧ (classOf file).ehdr ≤ file.length ∧
    ∀ i ∈ List.range' 0 (phnumOf file), Good (classOf file) file (phoffOf file) i

theorem classOf_pos (file : List UInt8) : 0 < (classOf file).ehdr ∧ 0 < (classOf file).phdr := by
  unfold classOf
  split <;> decide

theorem main_eq (hfile : file.length < 2 ^ 63) (room : Nat) : main file room
    = if 52 ≤ file.length ∧ (classOf file).ehdr ≤ file.length then
        let res := phdrLoop (classOf file) file (phoffOf file) (phnumOf file) 0 ⟨[], room⟩
        (res.1, res.2.bytes)
      else (false, []) := by
  unfold main
  dsimp only
  rw [xreadat_eq hfile (by decide), Nat.zero_add]
  by_cases h52 : 52 ≤ file.length
  · rw [if_pos (show elf32.ehdr ≤ file.length from h52)]
    have hclass : (if field (part file 0 elf32.ehdr) 18 2 = EM_X86_64 then elf64 else elf32)
        = classOf file := rfl
    have hread := @xreadat_eq file hfile 0 (classOf file).ehdr (classOf_pos file).1
    rw [Nat.zero_add] at hread
    simp only [hclass, hread]
    by_cases hehdr : (classOf file).ehdr ≤ file.length
    · rw [if_pos hehdr, if_pos ⟨h52, hehdr⟩]
      rfl
    · rw [if_neg hehdr, if_neg (fun h => hehdr h.2)]
  · rw [if_neg (show ¬ elf32.ehdr ≤ file.length from h52), if_neg (fun h => h52 h.1)]

end LinuxUtil.Bootloader.Gettext
