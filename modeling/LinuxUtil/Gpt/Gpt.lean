/-
The partition table writer and reader of `gpt/gpt.c`.

The disk is a byte memory; `size_t` and `uint64_t` are `UInt64`, so sector numbers
wrap where the source wraps.  `GPTGenerate` writes through pointers into the buffer
and into the caller's partition array: it gives back both.  `GPTParse` allocates, and
whether an allocation succeeds is an argument, `Heap`.
-/
import LinuxUtil.Gpt.Crc

namespace LinuxUtil.Gpt

open ByteMem

def BLOCK_SIZE : UInt64 := 512

def GPT_SIGNATURE : UInt16 := 0xAA55

/-! ### Configurations -/

structure GUID where
  timeLow : UInt32
  timeMid : UInt16
  timeHigh : UInt16
  clockSeqHigh : UInt8
  clockSeqLow : UInt8
  node : Vector UInt8 6
  deriving DecidableEq, Repr

/-- The 16 bytes of a packed `struct GUID`. -/
def GUID.bytes (g : GUID) : List UInt8 :=
  leBytes 4 g.timeLow.toNat ++ leBytes 2 g.timeMid.toNat ++ leBytes 2 g.timeHigh.toNat
    ++ [g.clockSeqHigh, g.clockSeqLow] ++ g.node.toList

/-- The `struct GUID` that `memcpy` makes of the 16 bytes at `a`. -/
def GUID.at (m : Mem) (a : Nat) : GUID where
  timeLow := UInt32.ofNat (load m a 4)
  timeMid := UInt16.ofNat (load m (a + 4) 2)
  timeHigh := UInt16.ofNat (load m (a + 6) 2)
  clockSeqHigh := m (a + 8)
  clockSeqLow := m (a + 9)
  node := Vector.ofFn fun i => m (a + 10 + i)

/-- `struct PartitionConfig`.  A null `name` is `none`. -/
structure PartitionConfig where
  partType : GUID
  partId : GUID
  name : Option (List UInt8)
  volume : UInt64
  startLBA : UInt64
  deriving DecidableEq, Repr

/-- `struct GPTConfig`, whose `buf` is passed alongside.  The buffer and the array of
`sizeof(struct PartitionConfig) = 56` byte records lie in one address space. -/
structure GPTConfig where
  volume : UInt64
  partitions : List PartitionConfig
  diskId : GUID
  buf_fits : volume.toNat * 512 < 2 ^ 64
  partitions_fit : partitions.length * 56 < 2 ^ 64

def GPTConfig.numPart (config : GPTConfig) : UInt64 := UInt64.ofNat config.partitions.length

/-! ### Writing -/

/-- A pointer to a sector. -/
def getSector (sector : UInt64) : Nat := (sector * BLOCK_SIZE).toNat

/-- The fields of `struct MBR`, those of its first record included. -/
def mbrFields (blockSize nBlock : UInt64) : List Field :=
  let bytes : UInt32 := (blockSize * nBlock).toUInt32
  let endCHS : UInt32 := if bytes > 0xFFFFFF then 0xFFFFFF else bytes
  let sizeInLBA : UInt32 := if nBlock ≥ 0xFFFFFFFF then 0xFFFFFFFF else (nBlock - 1).toUInt32
  [.int 510 2 GPT_SIGNATURE.toNat,
   .int 440 4 0,
   .int 444 2 0,
   .int 446 1 0x80,
   .int 447 3 0x000200,
   .int 450 1 0xEE,
   .int 451 3 endCHS.toNat,
   .int 454 4 1,
   .int 458 4 sizeInLBA.toNat]

def createProtectGPT (buf : Mem) (mbr : Nat) (blockSize nBlock : UInt64) : Mem :=
  let buf := fill buf mbr 512 0
  put buf mbr (mbrFields blockSize nBlock)

/-- The loop that gives each partition its place, as long as the next one fits.  Gives the
number of partitions placed, the first sector behind them and the array. -/
def allocate : List PartitionConfig → UInt64 → UInt64 → Nat × UInt64 × List PartitionConfig
  | [], start, _ => (0, start, [])
  | cp :: cps, start, remains =>
      if remains < cp.volume then (0, start, cp :: cps)
      else
        let (ret, last, cps) := allocate cps (start + cp.volume) (remains - cp.volume)
        (ret + 1, last, { cp with startLBA := start } :: cps)

/-- Every byte of the name is followed by a zero byte. -/
def writePartitionName (buf : Mem) (entry : Nat) (name : List UInt8) : Mem :=
  write buf (entry + 56) (name.flatMap fun ch => [ch, 0])

/-- The fields of `struct PartitionEntry` other than the name. -/
def entryFields (cp : PartitionConfig) : List Field :=
  [.int 32 8 cp.startLBA.toNat,
   .int 40 8 (cp.startLBA + cp.volume - 1).toNat,
   .int 48 8 5,
   ⟨16, cp.partId.bytes⟩,
   ⟨0, cp.partType.bytes⟩]

/-- One round of the loop that writes the entry array.  The range it clears has the length of
the whole array, wherever the entry is. -/
def writeEntry (buf : Mem) (nSectorForArray : UInt64) (entry : Nat) (cp : PartitionConfig) :
    Except Fault Mem := do
  let buf := fill buf entry (nSectorForArray * BLOCK_SIZE).toNat 0
  let buf := put buf entry (entryFields cp)
  let name ← deref cp.name
  return writePartitionName buf entry name

def writeEntries (nSectorForArray : UInt64) :
    List PartitionConfig → Mem → Nat → Except Fault Mem
  | [], buf, _ => .ok buf
  | cp :: cps, buf, entry => do
      let buf ← writeEntry buf nSectorForArray entry cp
      writeEntries nSectorForArray cps buf (entry + 128)

/-- The fields of the primary header, but for its checksum. -/
def headerFields (nBlock start nPartition : UInt64) (diskId : GUID) (entryArrayCRC : UInt32) :
    List Field :=
  [⟨0, ascii "EFI PART"⟩,
   .int 8 4 0x00010000,
   .int 12 4 92,
   .int 20 4 0,
   .int 24 8 1,
   .int 32 8 (nBlock - 1).toNat,
   .int 40 8 start.toNat,
   .int 48 8 (nBlock - 2).toNat,
   ⟨56, diskId.bytes⟩,
   .int 72 8 2,
   .int 80 4 nPartition.toNat,
   .int 84 4 128,
   .int 88 4 entryArrayCRC.toNat]

/-- Both headers, and then their checksums. -/
def writeHeaders (buf : Mem) (nBlock start nPartition : UInt64) (diskId : GUID)
    (entryArrayCRC : UInt32) : Mem :=
  let lba1 := getSector 1
  let last := getSector (nBlock - 1)
  let buf := fill buf lba1 92 0
  let buf := fill buf last 92 0
  let buf := put buf lba1 (headerFields nBlock start nPartition diskId entryArrayCRC)
  let buf := copy buf last lba1 92
  let buf := store buf (last + 24) 8 (nBlock - 1).toNat
  let buf := store buf (last + 32) 8 1
  let buf := store buf (lba1 + 16) 4 (crc32 (read buf lba1 (load buf (lba1 + 12) 4))).toNat
  store buf (last + 16) 4 (crc32 (read buf last (load buf (lba1 + 12) 4))).toNat

/-- Write a partition table.  Returns how many partitions it has. -/
def GPTGenerate (buf : Mem) (config : GPTConfig) :
    Except Fault (UInt64 × Mem × List PartitionConfig) :=
  let nBlock := config.volume
  let nEntryPerSector := BLOCK_SIZE / 128
  let nSectorForArray := (nEntryPerSector - 1 + config.numPart) / nEntryPerSector
  let nSectorsForFS := nBlock - 4 - nSectorForArray
  if nBlock < 4 + nSectorForArray || nSectorForArray == 0 then .ok (0, buf, config.partitions)
  else do
    let buf := createProtectGPT buf 0 BLOCK_SIZE nBlock
    let (ret, start, partitions) := allocate config.partitions (2 + nSectorForArray) nSectorsForFS
    let nPartition := UInt64.ofNat ret
    let entryArray := getSector 2
    let buf ← writeEntries nSectorForArray (partitions.take ret) buf entryArray
    let entryArrayCRC := crc32 (read buf entryArray (128 * nPartition).toNat)
    return (nPartition, writeHeaders buf nBlock start nPartition config.diskId entryArrayCRC,
      partitions)

/-! ### Reading -/

/-- What the allocator answers: whether `malloc` has a block of that size, and the copy `strdup`
makes of a string, if it can. -/
structure Heap where
  malloc : UInt64 → Bool
  strdup : List UInt8 → Option (List UInt8)

def EINVAL : Errno := 22
def ENOMEM : Errno := 12

/-- The loop that reads a name: every other byte, up to the first zero, at most `n` of them. -/
def readPartitionName (buf : Mem) : Nat → Nat → List UInt8
  | 0, _ => []
  | n + 1, a => if buf a = 0 then [] else buf a :: readPartitionName buf n (a + 2)

def parseEntry (heap : Heap) (buf : Mem) (entry : Nat) : PartitionConfig :=
  let startLBA := UInt64.ofNat (load buf (entry + 32) 8)
  let endLBA := UInt64.ofNat (load buf (entry + 40) 8)
  { partType := GUID.at buf entry
    partId := GUID.at buf (entry + 16)
    name := heap.strdup (readPartitionName buf 36 (entry + 56))
    volume := endLBA - startLBA + 1
    startLBA := startLBA }

/-- Read a partition table.  Gives `numPart` and `partitions`, or the error it returns. -/
def GPTParse (heap : Heap) (buf : Mem) : Except Errno (UInt64 × List PartitionConfig) :=
  let signature := UInt16.ofNat (load buf (getSector 0 + 510) 2)
  if signature ≠ GPT_SIGNATURE then .error EINVAL
  else
    let gptHeader := getSector 1
    if read buf gptHeader 8 ≠ ascii "EFI PART" then .error EINVAL
    else
      let numEntries := UInt32.ofNat (load buf (gptHeader + 80) 4)
      let startEntryArray := UInt64.ofNat (load buf (gptHeader + 72) 8)
      if heap.malloc (56 * numEntries.toUInt64) then
        let entryArray := getSector startEntryArray
        .ok (numEntries.toUInt64,
          (List.range numEntries.toNat).map fun i => parseEntry heap buf (entryArray + 128 * i))
      else .error ENOMEM

end LinuxUtil.Gpt
