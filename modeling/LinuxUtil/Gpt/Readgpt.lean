/-
`main` of `gpt/readgpt.c`: the partitions of a disk image, each saved into a file of its own.

The image is open and mapped; what `open` of an output and `write` do are arguments, the latter as
the number of bytes that one call takes at most.
-/
import LinuxUtil.Gpt.Gpt

namespace LinuxUtil.Gpt.Readgpt

open ByteMem

/-- The exit status, the lines behind the heading, and what is in the file of each number. -/
structure Outcome where
  status : Nat
  printed : List (UInt64 × UInt64)
  saved : List (Nat × List UInt8)

def GPT_SECTOR_SIZE : UInt64 := 512

/-- The loop over the partitions, from number `i` on. -/
def saveLoop (diskImage : Mem) (openOut : Nat → Bool) (limit : Nat) : Nat → List PartitionConfig → Outcome
  | _, [] => ⟨0, [], []⟩
  | i, part :: parts =>
      if part.startLBA = 0 then saveLoop diskImage openOut limit (i + 1) parts
      else
        let line := (part.startLBA, part.startLBA + part.volume - 1)
        if openOut i then
          let buf := read diskImage (part.startLBA * GPT_SECTOR_SIZE).toNat (part.volume * GPT_SECTOR_SIZE).toNat
          let o := saveLoop diskImage openOut limit (i + 1) parts
          ⟨o.status, line :: o.printed, (i, buf.take limit) :: o.saved⟩
        else ⟨1, [line], []⟩

/-- `main`. -/
def main (heap : Heap) (diskImage : Mem) (openOut : Nat → Bool) (limit : Nat) : Outcome :=
  match GPTParse heap diskImage with
  | .error _ => ⟨1, [], []⟩
  | .ok (_, partitions) => saveLoop diskImage openOut limit 0 partitions

end LinuxUtil.Gpt.Readgpt
