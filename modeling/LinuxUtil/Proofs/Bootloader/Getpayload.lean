/-
The payload of a bzImage, on disk and in memory.

`getpayload` and the loader read the same header, each with a code of its own: one counts the setup
sectors to find the payload in the file, the other to find where the kernel begins.
-/
import LinuxUtil.Bootloader.Getpayload
import LinuxUtil.Proofs.Bootloader.Boot

namespace LinuxUtil.Bootloader

open ByteMem

variable {kernel : List UInt8}

/-- Where the payload is in the kernel, and its size. -/
def payloadOffset (kernel : List UInt8) : Nat := load (fileMem kernel) 0x248 4

def payloadLength (kernel : List UInt8) : Nat := load (fileMem kernel) 0x24c 4

/-- The sectors in front of the kernel are counted as the loader counts them. -/
theorem payload_eq (h : KernelFile kernel) : Getpayload.BiGetPayload (Getpayload.mmap kernel)
    = some (payloadOffset kernel + 512 * (setupSects (fileMem kernel) + 1), payloadLength kernel) := by
  have hflag : Getpayload.khdr (Getpayload.mmap kernel) 0x1fe 2 = 0xaa55 := h.bootable.boot_flag
  have hheader : Getpayload.khdr (Getpayload.mmap kernel) 0x202 4 = 0x53726448 := h.bootable.header
  have hcheck : Getpayload.BiCheck (Getpayload.mmap kernel) = 0 := by
    unfold Getpayload.BiCheck
    rw [if_neg (not_not.mpr hflag), if_neg (not_not.mpr hheader)]
  have hsects : ((if UInt8.ofNat (load (fileMem kernel) 0x1f1 1) = 0 then 4
      else UInt8.ofNat (load (fileMem kernel) 0x1f1 1)) + 1).toNat = setupSects (fileMem kernel) + 1 := by
    have hsetup := h.setup
    rw [counted_eq]
    exact Nat.mod_eq_of_lt (by omega)
  unfold Getpayload.BiGetPayload
  rw [if_neg (not_not.mpr hcheck)]
  refine congrArg some (Prod.ext ?_ rfl)
  exact congrArg (payloadOffset kernel + 512 * ·) hsects

/-- `getpayload` exits with 0 and the payload, if the payload is in the file and there is room. -/
theorem getpayload_eq (h : KernelFile kernel)
    (hfit : payloadOffset kernel + payloadLength kernel ≤ kernelSize (fileMem kernel)) {room : Nat}
    (hroom : payloadLength kernel ≤ room) : Getpayload.main kernel room
      = (0, read (fileMem kernel) (payloadOffset kernel + 512 * (setupSects (fileMem kernel) + 1))
          (payloadLength kernel)) := by
  have hcomplete := h.complete
  have hsize : (kernel.length + 4095) / 4096 * 4096 ≠ 0 := by omega
  have hall : min (payloadLength kernel) (min room ((kernel.length + 4095) / 4096 * 4096
      - (payloadOffset kernel + 512 * (setupSects (fileMem kernel) + 1)))) = payloadLength kernel := by
    omega
  unfold Getpayload.main
  dsimp only
  rw [if_neg hsize, payload_eq h]
  dsimp only
  rw [hall, if_neg (not_not.mpr rfl)]
  rfl

/-- **The payload that `getpayload` extracts is the one in memory**: with the kernel on a disk, the boot
stages put at `0x100000 + payload_offset` what `getpayload` gets out of the kernel's file. -/
theorem payload_booted {drive : Drive} {disk : Mem} {volume : Nat} (h : drive.Reads disk volume)
    {loader : List UInt8} (hvol : 540 + kernel.length / 512 ≤ volume) (hlarge : kernel.length < 2 ^ 31)
    (hkernel : KernelFile kernel)
    (hfit : payloadOffset kernel + payloadLength kernel ≤ kernelSize (fileMem kernel)) {room : Nat}
    (hroom : payloadLength kernel ≤ room)
    (hloader : ∀ i, i < loader.length → disk (512 * 531 + i) = fileMem loader i)
    (hfile : ∀ i, i < kernel.length → disk (512 * 539 + i) = fileMem kernel i) (mem : Mem) :
    ∃ mem', bootBzimage loaderOwn drive mem = .ok mem'
      ∧ Getpayload.main kernel room
        = (0, read mem' (0x100000 + payloadOffset kernel) (payloadLength kernel)) := by
  obtain ⟨mem', hboot, hbooted⟩ := bootBzimage_loads h hvol hlarge hkernel hloader hfile mem
  have hcomplete := hkernel.complete
  refine ⟨mem', hboot, ?_⟩
  rw [getpayload_eq hkernel hfit hroom, read_part mem' 0x100000 (kernelSize (fileMem kernel)) hfit,
    hbooted.rest, ← read_fileMem kernel hcomplete, ← read_part _ _ _ hfit]
  refine congrArg (Prod.mk 0) (congrArg (read (fileMem kernel) · _) ?_)
  omega

/-- A kernel with 300 bytes of payload, 16 bytes behind its beginning. -/
def payloadImage : Mem := store (store (smallImage 1 32) 0x248 4 16) 0x24c 4 300

theorem payloadImage_file : KernelFile (read payloadImage 0 1536) :=
  kernelFile_read ⟨rfl, rfl, by decide, rfl, by decide⟩ (by decide) (by decide) (by decide)

def payloadDisk : Mem := fun x => fileMem (read payloadImage 0 1536) (x - 512 * 539)

theorem payload_booted_sample : ∃ mem', bootBzimage loaderOwn (driveOf payloadDisk) (fun _ => 0) = .ok mem'
      ∧ Getpayload.main (read payloadImage 0 1536) 300 = (0, read mem' 0x100010 300) := by
  have hlen : (read payloadImage 0 1536).length = 1536 := length_read _ _ _
  have hload : ∀ {off w : Nat}, off + w ≤ 1536 →
      load (fileMem (read payloadImage 0 1536)) off w = load payloadImage off w := fun hoff => by
    unfold load
    rw [read_fileMem _ (by rw [hlen]; exact hoff), ← read_part payloadImage 0 1536 hoff, Nat.zero_add]
  have hoffset : payloadOffset (read payloadImage 0 1536) = 16 := hload (by decide)
  have hlength : payloadLength (read payloadImage 0 1536) = 300 := hload (by decide)
  have hsize : kernelSize (fileMem (read payloadImage 0 1536)) = 512 := congrArg (16 * ·) (hload (by decide))
  have hloader : ∀ i, i < ([] : List UInt8).length → payloadDisk (512 * 531 + i) = fileMem [] i := nofun
  have hfile : ∀ i, i < (read payloadImage 0 1536).length →
      payloadDisk (512 * 539 + i) = fileMem (read payloadImage 0 1536) i := by
    intro i _
    unfold payloadDisk
    rw [Nat.add_sub_cancel_left]
  have hroom : payloadLength (read payloadImage 0 1536) ≤ 300 := by rw [hlength]
  obtain ⟨mem', hboot, hmain⟩ := payload_booted (driveOf_reads payloadDisk 1000) (by rw [hlen]; decide)
    (by rw [hlen]; decide) payloadImage_file (by rw [hoffset, hlength, hsize]; decide) hroom hloader hfile
    (fun _ => 0)
  rw [hoffset, hlength] at hmain
  exact ⟨mem', hboot, hmain⟩

end LinuxUtil.Bootloader
