/-
What `readgpt` gets out of a disk.

The disk has a table of `GPTGenerate`, and its partitions were used.  The loop saves them in the order
of the table, each from where it was placed.
-/
import LinuxUtil.Gpt.Readgpt
import LinuxUtil.Proofs.Gpt.Kept

namespace LinuxUtil.Gpt.Readgpt

open ByteMem

/-- What a partition holds. -/
def contents (disk : Mem) (q : PartitionConfig) : List UInt8 :=
  read disk (q.startLBA.toNat * 512) (q.volume.toNat * 512)

end LinuxUtil.Gpt.Readgpt
