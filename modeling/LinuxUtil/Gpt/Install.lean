/-
`main` of `gpt/installer.c`: a partition table, a FAT volume in its first partition, four files
on the volume, and the boot code.

The destination is mapped shared, so whatever has been written to the mapping is on the disk
however the program exits.  What the operating system answers is an argument, `World`.
-/
import LinuxUtil.Gpt.Installer
import LinuxUtil.Gpt.Gpt
import LinuxUtil.Gpt.Fat
import LinuxUtil.Lib.Window

namespace LinuxUtil.Gpt.Installer

open ByteMem

/-- `st_mode` and `st_size`. -/
structure Stat where
  st_mode : UInt32
  st_size : UInt64
  deriving DecidableEq, Repr

/-- What the operating system answers. -/
structure World where
  /-- `open` of the destination: whether it succeeds. -/
  openDst : List UInt8 → Bool
  /-- `fstat` of the destination. -/
  fstat : Option Stat
  /-- What `fopen` and `fscanf` get out of a file in `/sys`: nothing if it does not open, and 0 if
  there is no number in it. -/
  scanSize : List UInt8 → Option UInt64
  mmap : UInt64 → Bool
  /-- `open` for reading: the descriptor. -/
  openFile : List UInt8 → Option Fat.Fd
  /-- The bytes of the destination. -/
  disk : Mem

/-- An exit: the status, the bytes of the destination, the start sectors printed on the way and the
complaint, if there is one. -/
structure Outcome where
  status : Nat
  disk : Mem
  printed : List (List UInt8 × UInt32)
  complaint : Option String

/-- `die`. -/
def die (disk : Mem) (printed : List (List UInt8 × UInt32)) (err : String) : Outcome :=
  ⟨1, disk, printed, some err⟩

/-! ### The size of the destination -/

def S_IFMT : UInt32 := 0o170000
def S_IFREG : UInt32 := 0o100000
def S_IFBLK : UInt32 := 0o060000

/-- The loop of `basename`, which stops behind the last character. -/
def basenameLoop : List UInt8 → List UInt8 → List UInt8
  | ret, [] => ret
  | ret, ch :: pt => basenameLoop (if ch = 47 then ch :: pt else ret) pt

/-- From the last slash on. -/
def basename (path : List UInt8) : List UInt8 := basenameLoop path path

/-- What `sprintf` puts into `sbuf`. -/
def sysPath (path : List UInt8) : List UInt8 :=
  ascii "/sys/class/block/" ++ basename path ++ ascii "/size"

/-- The bytes of the destination, or a complaint. -/
def fdsize (w : World) (path : List UInt8) : Except Fault (Except String UInt64) :=
  match w.fstat with
  | none => .ok (.error "fstat")
  | some st =>
      if st.st_mode &&& S_IFREG = S_IFREG then .ok (.ok st.st_size)
      else if st.st_mode &&& S_IFMT = S_IFBLK then
        let sbuf := sysPath path
        if sbuf.length < 192 then
          match w.scanSize sbuf with
          | none => .ok (.error "fopen")
          | some ret => .ok (.ok (ret * 512))
        else .error .outOfBounds
      else .ok (.error "Not a file or block dev\n")

/-! ### The partition table -/

/-- The last field of a GUID. -/
def nodeField (a b c d e f : UInt8) : Vector UInt8 6 := #v[a, b, c, d, e, f]

def EFI_SYSTEM_PARTITION : GUID :=
  ⟨0xc12a7328, 0xf81f, 0x11d2, 0xba, 0x4b, nodeField 0x00 0xa0 0xc9 0x3e 0xc9 0x3b⟩

def myDiskID : GUID :=
  ⟨0x9e8d8d40, 0xe4d1, 0x3547, 0xad, 0x9e, nodeField 0x86 0x52 0x3f 0x5e 0x2f 0x4a⟩

def GPT_SECTOR_SIZE : UInt64 := 512

/-- One of the two records of `pc`, which starts out as zeros. -/
def partition (name : String) (volume : UInt64) : PartitionConfig where
  partType := EFI_SYSTEM_PARTITION
  partId := myDiskID
  name := some (ascii name)
  volume := volume
  startLBA := 0

/-- `config`, for a boot partition of `boot_size` bytes. -/
def gptConfig (disk_size boot_size : UInt64) : GPTConfig where
  volume := disk_size / GPT_SECTOR_SIZE
  partitions :=
    [partition "Boot Partition" (boot_size / GPT_SECTOR_SIZE),
     partition "Filesystem" (disk_size / GPT_SECTOR_SIZE - 5 - boot_size / GPT_SECTOR_SIZE)]
  diskId := myDiskID
  buf_fits := by
    rw [UInt64.toNat_div]
    exact Nat.lt_of_le_of_lt (Nat.div_mul_le_self _ _) disk_size.toNat_lt
  partitions_fit := by
    show 2 * 56 < 2 ^ 64
    omega

/-- Write the table; `boot_size` is in MiB.  Gives the placed partitions, or a complaint. -/
def mkpart (buf : Mem) (disk_size boot_size : UInt64) :
    Except Fault (Mem × Except String (List PartitionConfig)) :=
  let boot_size := boot_size * (1024 * 1024)
  if boot_size + GPT_SECTOR_SIZE * 64 > disk_size then
    .ok (buf, .error "Boot partition too large\n")
  else do
    let config := gptConfig disk_size boot_size
    let (n, buf, partitions) ← GPTGenerate buf config
    if config.numPart ≠ n then return (buf, .error "an error ocurred creating GPT\n")
    else return (buf, .ok partitions)

/-! ### The files -/

/-- `fconfig`, for the first partition. -/
def fatConfig (part : PartitionConfig) : Fat.FATConfig where
  nSector := part.volume.toUInt32
  bytesPerSector := GPT_SECTOR_SIZE.toUInt32
  clusterSize := 8
  writeRandomData := false
  isFixed := true

/-- `FAT_ATTR_READ_ONLY | FAT_ATTR_SYSTEM`. -/
def sysFlag : UInt32 := 0x01 ||| 0x04

/-- Copy one file in.  Gives the volume, and the start sector or a complaint. -/
def copyin (w : World) (fat : Mem) (src name : List UInt8) :
    Except Fault (Mem × Except String UInt32) :=
  match w.openFile src with
  | none => .ok (fat, .error "open")
  | some fd => do
      let r ← Fat.FAT32Copyin fat fd name sysFlag
      if r.ret = 0 then return (r.buf, .error "disk full") else return (r.buf, .ok r.ret)

/-- The calls of `copyin` in turn, up to the first that complains.  Gives the lines printed. -/
def copyins (w : World) : List (List UInt8 × List UInt8) → Mem →
    Except Fault (Mem × List (List UInt8 × UInt32) × Option String)
  | [], fat => .ok (fat, [], none)
  | (src, name) :: rest, fat => do
      let (fat, res) ← copyin w fat src name
      match res with
      | .error err => return (fat, [], some err)
      | .ok ret =>
          let (fat, printed, err) ← copyins w rest fat
          return (fat, (src, ret) :: printed, err)

/-- What is copied in, and the names it gets. -/
def systemFiles (path_bzimage path_busybox : List UInt8) : List (List UInt8 × List UInt8) :=
  [(ascii "linuz.bin", ascii "loader"), (path_bzimage, ascii "kernel"),
   (path_busybox, ascii "busybox"), (ascii "init.elf", ascii "init")]

/-- What `read` gets of the boot code; a file that does not open cannot be read either. -/
def bootCode (w : World) : Option (List UInt8) :=
  match w.openFile (ascii "mbr.img") with
  | none => none
  | some fd =>
      match fd.read 440 with
      | .error _ => none
      | .ok bytes => some bytes

/-! ### The program -/

/-- From the open destination on. -/
def install (w : World) (path_bzimage path_busybox : List UInt8) (disk_size boot_size : UInt64) :
    Except Fault Outcome := do
  let (disk, placed) ← mkpart w.disk disk_size boot_size
  match placed with
  | .error err => return die disk [] err
  | .ok pc =>
      let part ← deref pc[0]?
      let sectorForFAT := (GPT_SECTOR_SIZE * part.startLBA).toNat
      let (_, fat) ← Fat.createFAT32 (from_ disk sectorForFAT) (fatConfig part)
      let (fat, printed, err) ← copyins w (systemFiles path_bzimage path_busybox) fat
      let disk := splice disk sectorForFAT fat
      match err with
      | some err => return die disk printed err
      | none =>
          match bootCode w with
          | none => return die disk printed "read mbr.img"
          | some bytes => return ⟨0, write disk 0 bytes, printed, none⟩

/-- `main`.  A loop over the arguments that ends takes at least one of them a round. -/
def main (w : World) (argv : List (List UInt8)) : Except Fault Outcome := do
  let o ← parseLoop argv (argv.length + 1) 1 Options.start
  if o.print_help then return ⟨0, w.disk, [], none⟩
  else
    match o.path_bzimage, o.dst, o.path_busybox with
    | none, _, _ => return die w.disk [] "Error: no bzimage provided.\n"
    | some _, none, _ => return die w.disk [] "Error: no destination provided.\n"
    | some _, some _, none => return die w.disk [] "Error: no busybox provided.\n"
    | some path_bzimage, some dst, some path_busybox =>
        if w.openDst dst then do
          let size ← fdsize w dst
          match size with
          | .error err => return die w.disk [] err
          | .ok size =>
              let disk_size := size / 4096 * 4096
              if w.mmap disk_size then
                install w path_bzimage path_busybox disk_size (UInt64.ofNat o.boot_size)
              else return die w.disk [] "mmap"
        else return die w.disk [] "open dest"

end LinuxUtil.Gpt.Installer
