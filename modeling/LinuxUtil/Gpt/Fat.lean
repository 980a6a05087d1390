/-
The FAT32 writer of `gpt/fat.c`.

The disk image is a byte memory and every pointer into it is an offset from
`buf`.  All other integers are the `uint32_t` of the source, so they wrap where
the source wraps.  A call that trips an assertion, follows a null pointer or
never comes back is a `Fault`: it does not return.

What the operating system answers about the file descriptor is an argument, `Fd`.
Nothing is assumed of it beyond `read` not returning more than was asked for.
-/
import LinuxUtil.Fault

namespace LinuxUtil.Fat

open ByteMem

/-- `CDIV`, ceiling division. -/
def cdiv (a b : UInt32) : UInt32 := (a + b - 1) / b

structure FATConfig where
  nSector : UInt32
  bytesPerSector : UInt32
  clusterSize : UInt32
  writeRandomData : Bool
  isFixed : Bool
  deriving DecidableEq, Repr

/-! ### Formatting -/

/-- `0x08000000`, the volume is clean. -/
def FAT32_CHUNK_SHUT_BITMASK : UInt32 := 0x08000000

/-- `0x04000000`, no I/O error was seen. -/
def FAT32_HDR_ERROR_BITMASK : UInt32 := 0x04000000

/-- The entry that ends a chain. -/
def endOfChain : UInt32 := 0xFFFFFFFF

/-- The fields of `struct BPB` in the order `createFAT32` assigns them. -/
def bpbFields (config : FATConfig) (media : UInt8) (fatSizeInSector numResevedSector : UInt32) :
    List Field :=
  [⟨0, [0xeb, 0x00, 0x90]⟩,
   ⟨3, ascii "mkfs.fat"⟩,
   .int 11 2 config.bytesPerSector.toNat,
   .int 13 1 config.clusterSize.toNat,
   .int 14 2 numResevedSector.toNat,
   .int 16 1 2,
   .int 17 2 0,
   .int 19 2 0,
   .int 21 1 media.toNat,
   .int 24 2 32,
   .int 26 2 8,
   .int 28 4 0,
   .int 32 4 config.nSector.toNat,
   .int 36 4 fatSizeInSector.toNat,
   .int 40 2 0,
   .int 42 2 0,
   .int 44 4 2,
   .int 48 2 1,
   .int 50 2 6,
   .int 64 1 0x80,
   .int 66 1 0x29,
   .int 67 4 0xe5792f15,
   ⟨71, (ascii "NO NAME         ").take 11⟩,
   ⟨82, ascii "FAT32   "⟩,
   .int 510 1 0x55,
   .int 511 1 0xaa]

/-- The fields of `struct FSInfo`; its reserved bytes are never written. -/
def fsInfoFields (numFreeFATEntry : UInt32) : List Field :=
  [.int 0 4 0x41615252,
   .int 484 4 0x61417272,
   .int 488 4 numFreeFATEntry.toNat,
   .int 492 4 0x3,
   .int 508 4 0xAA550000]

/-- The first three entries of a file allocation table. -/
def tableFields (media : UInt8) : List Field :=
  [.int 0 4 (0xFFFF00 ||| media.toUInt32).toNat,
   .int 4 4 (FAT32_CHUNK_SHUT_BITMASK ||| FAT32_HDR_ERROR_BITMASK).toNat,
   .int 8 4 endOfChain.toNat]

/-- The values the two validation loops try, `512, 1024, .. < 8192` and `1, 2, .. < 256`. -/
def validSectorSizes : List UInt32 := [512, 1024, 2048, 4096]
def validClusterSizes : List UInt32 := [1, 2, 4, 8, 16, 32, 64, 128]

/-- The three checks `createFAT32` makes before it touches the buffer. -/
def configValid (config : FATConfig) : Bool :=
  config.nSector ≥ 16 && validSectorSizes.contains config.bytesPerSector
    && validClusterSizes.contains config.clusterSize

/-- Sectors of one file allocation table. -/
def fatSizeInSector (config : FATConfig) : UInt32 :=
  cdiv (config.nSector / config.clusterSize) (config.bytesPerSector / 4)

/-- `numResevedSector`. -/
def numResevedSector : UInt32 := 8

/-- Everything `createFAT32` writes. -/
def formatImage (buf : Mem) (config : FATConfig) : Mem :=
  let media : UInt8 := if config.isFixed then 0xF8 else 0xF0
  let sectorSize := config.bytesPerSector
  let fatSize := fatSizeInSector config
  let numFATSector := fatSize * 2
  let numFreeFATEntry := numFATSector * (sectorSize / 4) - 3
  -- BIOS parameter block, and its copy at sector 6
  let buf := fill buf 0 512 0
  let buf := put buf 0 (bpbFields config media fatSize numResevedSector)
  let buf := copy buf (sectorSize * 6).toNat 0 512
  -- FSInfo at sector 1, and its copy at sector 7
  let buf := put buf (sectorSize * 1).toNat (fsInfoFields numFreeFATEntry)
  let buf := copy buf (sectorSize * 7).toNat (sectorSize * 1).toNat 512
  -- both file allocation tables
  let buf := fill buf (sectorSize * numResevedSector).toNat (sectorSize * numFATSector).toNat 0
  let buf := put buf (sectorSize * numResevedSector).toNat (tableFields media)
  let buf := put buf (sectorSize * (numResevedSector + fatSize)).toNat (tableFields media)
  -- the root directory
  let dataOffset := sectorSize * (numResevedSector + numFATSector)
  fill buf dataOffset.toNat (sectorSize * config.clusterSize).toNat 0

/-- Create a FAT32 file system on `buf`.  Returns 0 on success. -/
def createFAT32 (buf : Mem) (config : FATConfig) : Except Fault (Nat × Mem) :=
  if configValid config then do
    assert (config.nSector / config.clusterSize > 2) "too few clusters"
    return (0, formatImage buf config)
  else return (1, buf)

/-! ### Dates -/

def FAT32Date (year month day : UInt16) : UInt16 :=
  (day &&& (0x1F : UInt16)) ||| ((month &&& (0xF : UInt16)) <<< 5)
    ||| (((year - 1980) &&& (0x7F : UInt16)) <<< 9)

def FAT32Time (hour minute second : UInt16) : UInt16 :=
  ((second >>> 1) &&& (0x1F : UInt16)) ||| ((minute &&& (0x3F : UInt16)) <<< 5)
    ||| ((hour &&& (0x1F : UInt16)) <<< 11)

/-! ### The super block -/

/-- `struct FAT32Super`.  `buf` itself is passed alongside. -/
structure FAT32Super where
  fsInfo : Option Nat
  bytesPerSector : UInt32
  bytesPerCluster : UInt32
  bytesPerFAT : UInt32
  numSector : UInt32
  numReserved : UInt32
  numFAT : UInt32
  numData : UInt32
  maxCluster : UInt32
  rootCluster : UInt32
  tables : List Nat
  rootDir : Option Nat
  nextRootEntry : UInt32
  numRootEntry : UInt32
  deriving DecidableEq, Repr

/-- `_generic_load_le` into a `uint32_t`. -/
def load32 (buf : Mem) (a w : Nat) : UInt32 := UInt32.ofNat (load buf a w)

/-- A pointer to a sector, `NULL` past the end of the volume. -/
def FAT32SuperGetSector (numSector bytesPerSector sector : UInt32) : Option Nat :=
  if sector ≥ numSector then none else some (sector * bytesPerSector).toNat

/-- A pointer to a cluster, `NULL` outside `2 .. maxCluster - 1`. -/
def FAT32SuperCluster (sb : FAT32Super) (cluster : UInt32) : Option Nat :=
  if cluster < 2 || cluster ≥ sb.maxCluster then none
  else some (sb.bytesPerSector * (sb.numFAT + sb.numReserved)
    + sb.bytesPerCluster * (cluster - 2)).toNat

/-- The pointers `tables[0] ..`, each `stride` bytes after the one before. -/
def tablesFrom (first stride : Nat) : Nat → List Nat
  | 0 => []
  | n + 1 => first :: tablesFrom (first + stride) stride n

/-- Count the clusters of the chain that goes on with entry `ptr` of `table`.

A walk that has not ended after as many steps as there are entry numbers has been
at some entry twice, so it never ends. -/
def rootChain (buf : Mem) (table : Nat) : Nat → UInt32 → UInt32 → Except Fault UInt32
  | 0, _, _ => .error .diverges
  | fuel + 1, ptr, count =>
      let nextPtr := load32 buf (table + 4 * ptr.toNat) 4
      if nextPtr ≠ endOfChain then rootChain buf table fuel nextPtr (count + 1)
      else .ok count

/-- The first root entry whose name is empty, or `numRootEntry`. -/
def firstFreeEntry (buf : Mem) (rootDir numRootEntry : Nat) : Nat :=
  ((List.range numRootEntry).find? fun i => buf (rootDir + 32 * i) == 0).getD numRootEntry

/-- Parse the super block of `buf`. -/
def FAT32SuperInit (buf : Mem) : Except Fault FAT32Super := do
  let bytesPerSector := load32 buf 11 2
  let nsecPerCluster := load32 buf 13 1
  let bytesPerCluster := nsecPerCluster * bytesPerSector
  let fatSize := load32 buf 36 4
  let bytesPerFAT := fatSize * bytesPerSector
  let numSector := load32 buf 32 4
  let numReserved := load32 buf 14 2
  let numAllocTable := load32 buf 16 1
  let numFAT := fatSize * numAllocTable
  let numData := numSector - numReserved - numFAT
  let maxCluster := numData / nsecPerCluster
  let fsInfo := FAT32SuperGetSector numSector bytesPerSector 1
  let rootCluster := load32 buf 44 4
  let table0 := (bytesPerSector * numReserved).toNat
  let tables := tablesFrom table0 (4 * (bytesPerFAT / 4).toNat) numAllocTable.toNat
  let rootDirCluster ← rootChain buf table0 (2 ^ 32) rootCluster 1
  let rootDir := FAT32SuperGetSector numSector bytesPerSector (numReserved + numFAT)
  let numRootEntry := rootDirCluster * bytesPerCluster / 32
  let root ← if numRootEntry = 0 then pure 0 else deref rootDir
  let nextRootEntry := UInt32.ofNat (firstFreeEntry buf root numRootEntry.toNat)
  return { fsInfo, bytesPerSector, bytesPerCluster, bytesPerFAT, numSector, numReserved, numFAT,
           numData, maxCluster, rootCluster, tables, rootDir, nextRootEntry, numRootEntry }

/-- Read an entry of the first table. -/
def FAT32SuperReadEntry (sb : FAT32Super) (buf : Mem) (cluster : UInt32) :
    Except Fault UInt32 := do
  assert (cluster < sb.maxCluster) "read out of bound"
  return load32 buf (sb.tables.headD 0 + 4 * cluster.toNat) 4

/-- Write an entry of every table. -/
def FAT32SuperWriteEntry (sb : FAT32Super) (buf : Mem) (cluster value : UInt32) :
    Except Fault Mem := do
  assert (cluster < sb.maxCluster) "write out of bound"
  assert (cluster ≥ 1) "entry 0 cannot be modified"
  return sb.tables.foldl (fun buf t => store buf (t + 4 * cluster.toNat) 4 value.toNat) buf

/-- Copy the BPB to sector 6 and FSInfo to sector 7. -/
def FAT32SuperFree (sb : FAT32Super) (buf : Mem) : Except Fault Mem := do
  let s6 ← deref (FAT32SuperGetSector sb.numSector sb.bytesPerSector 6)
  let buf := copy buf s6 0 sb.bytesPerSector.toNat
  let s7 ← deref (FAT32SuperGetSector sb.numSector sb.bytesPerSector 7)
  let s1 ← deref (FAT32SuperGetSector sb.numSector sb.bytesPerSector 1)
  return copy buf s7 s1 sb.bytesPerSector.toNat

/-! ### Copying a file in -/

/-- `EDQUOT`. -/
def EDQUOT : Errno := 122

/-- What the operating system answers about a file descriptor. -/
structure Fd where
  /-- `fstat`: `st_size`, or the error. -/
  fstat : Except Errno UInt64
  /-- `lseek`: the resulting offset, or the error. -/
  lseek : Except Errno UInt64
  /-- `read`: the bytes put into the buffer, or the error. -/
  read : UInt32 → Except Errno (List UInt8)
  /-- What `errno` holds as long as no call has failed. -/
  errno : Errno
  read_le : ∀ n bs, read n = .ok bs → bs.length ≤ n.toNat

/-- What a call leaves behind: its value, the image, and `FAT32Errno` if it was set. -/
structure Reply where
  ret : UInt32
  buf : Mem
  errno : Option Errno

/-- The numeric attributes of a new directory entry, in the order they are stored. -/
def dirEntryFields (attr nextFree fobjSize : UInt32) : List Field :=
  let date := FAT32Date 1995 02 21
  let time := FAT32Time 8 30 25
  [.int 11 1 attr.toNat,
   .int 12 1 0,
   .int 13 1 42,
   .int 14 2 time.toNat,
   .int 16 2 date.toNat,
   .int 18 2 date.toNat,
   .int 20 2 (nextFree >>> 16).toNat,
   .int 22 2 time.toNat,
   .int 24 2 date.toNat,
   .int 26 2 (nextFree &&& 0xFFFF).toNat,
   .int 28 4 fobjSize.toNat]

/-- The two loops that copy the name: up to the first `.`, and from that `.` on at byte 8. -/
def writeName (buf : Mem) (entry : Nat) (name : List UInt8) : Mem :=
  let base := name.takeWhile (· ≠ 46)
  let rest := name.dropWhile (· ≠ 46)
  let buf := write buf entry base
  if rest ≠ [] then write buf (entry + 8) rest else buf

/-- The directory entry of the new file. -/
def writeDirEntry (buf : Mem) (entry : Nat) (name : List UInt8) (attr nextFree fobjSize : UInt32) :
    Mem :=
  let buf := fill buf entry 32 0
  let buf := writeName buf entry name
  put buf entry (dirEntryFields attr nextFree fobjSize)

/-- The loop that links `n` clusters from `nextFree` on, each to the one after it. -/
def linkClusters (sb : FAT32Super) : Nat → Mem → UInt32 → Except Fault (Mem × UInt32)
  | 0, buf, nextFree => .ok (buf, nextFree)
  | n + 1, buf, nextFree => do
      let buf ← FAT32SuperWriteEntry sb buf nextFree (1 + nextFree)
      linkClusters sb n buf (nextFree + 1)

/-- The exit at `err:`. -/
def copyinErr (sb : FAT32Super) (buf : Mem) (e : Errno) : Except Fault Reply := do
  let buf ← FAT32SuperFree sb buf
  return ⟨0, buf, some e⟩

/-- The directory entry, the chain and FSInfo of a file whose data is in place. -/
def copyinCommit (sb : FAT32Super) (fiPtr : Nat) (buf : Mem) (name : List UInt8) (attr : UInt32)
    (nextFree freeCount allocCluster fobjSize ret : UInt32) : Except Fault Reply := do
  let rootDir ← deref sb.rootDir
  let entry := rootDir + 32 * sb.nextRootEntry.toNat
  assert (buf entry == 0) "entry->name[0] == 0"
  let buf := writeDirEntry buf entry name attr nextFree fobjSize
  let (buf, nextFree) ← linkClusters sb (allocCluster.toNat - 1) buf nextFree
  let buf ← FAT32SuperWriteEntry sb buf nextFree endOfChain
  let nextFree := nextFree + 1
  assert (freeCount ≥ allocCluster) "freeCount >= allocCluster"
  let freeCount := freeCount - allocCluster
  let buf := store buf (fiPtr + 488) 4 freeCount.toNat
  let buf := store buf (fiPtr + 492) 4 nextFree.toNat
  let buf ← FAT32SuperFree sb buf
  return ⟨ret, buf, none⟩

/-- Rewind the file and read it to `addr`; then record it, unless either call failed. -/
def copyinRead (sb : FAT32Super) (fiPtr : Nat) (buf : Mem) (fd : Fd) (name : List UInt8)
    (attr nextFree freeCount allocCluster fobjSize ret : UInt32) (addr : Nat) :
    Except Fault Reply :=
  match fd.lseek with
  | .error e => copyinErr sb buf e
  | .ok off =>
    if off ≠ 0 then copyinErr sb buf fd.errno
    else
      match fd.read fobjSize with
      | .error e => copyinErr sb buf e
      | .ok data =>
        if data.length ≠ fobjSize.toNat then copyinErr sb (write buf addr data) fd.errno
        else
          copyinCommit sb fiPtr (write buf addr data) name attr nextFree freeCount
            allocCluster fobjSize ret

/-- From the first free cluster on: clear the space and read the file into it. -/
def copyinData (sb : FAT32Super) (fiPtr : Nat) (buf : Mem) (fd : Fd) (name : List UInt8)
    (attr nextFree freeCount fobjSize : UInt32) : Except Fault Reply := do
  let allocCluster := cdiv fobjSize sb.bytesPerCluster
  assert (nextFree > 2) "nextFree > 2u"
  let sectorPerCluster := sb.bytesPerCluster / sb.bytesPerSector
  let ret := (nextFree - 2) * sectorPerCluster + (sb.numReserved + sb.numFAT)
  let addr ← deref (FAT32SuperGetSector sb.numSector sb.bytesPerSector ret)
  let buf := fill buf addr (allocCluster * sb.bytesPerCluster).toNat 0
  copyinRead sb fiPtr buf fd name attr nextFree freeCount allocCluster fobjSize ret addr

/-- Copy a file into the root directory.  Returns its start sector, 0 on error. -/
def FAT32Copyin (buf : Mem) (fd : Fd) (name : List UInt8) (attr : UInt32) :
    Except Fault Reply :=
  match fd.fstat with
  | .error e => .ok ⟨0, buf, some e⟩
  | .ok st_size => do
      let fobjSize := st_size.toUInt32
      let sb ← FAT32SuperInit buf
      let fiPtr ← deref sb.fsInfo
      let nextFree := load32 buf (fiPtr + 492) 4
      let freeCount := load32 buf (fiPtr + 488) 4
      assert (sb.maxCluster ≥ nextFree) "incorrect fs"
      let maxFileSize := sb.bytesPerCluster * (sb.maxCluster - nextFree)
      if maxFileSize < fobjSize then copyinErr sb buf EDQUOT
      else if sb.nextRootEntry = sb.numRootEntry then copyinErr sb buf EDQUOT
      else copyinData sb fiPtr buf fd name attr nextFree freeCount fobjSize

end LinuxUtil.Fat
