/-
The table of `gpt.c` is that of CRC-32.

The entry of a byte is what eight steps with the polynomial 0xEDB88320 make of it, all 256 of
them (`crc32_tab_eq`).  So a round of the loop takes in the eight bits of a byte.
-/
import LinuxUtil.Gpt.Crc
import LinuxUtil.Lib.Crc

namespace LinuxUtil.Gpt

/-- The polynomial of CRC-32, reflected. -/
def crcPoly : BitVec 32 := 0xEDB88320#32

/-- The bits of a byte string: of each byte from the lowest to the highest. -/
def bitsOf (buf : List UInt8) : List Bool := buf.flatMap fun b => Crc.bits 8 b.toBitVec

/-- CRC-32, a bit at a time. -/
def bitwiseCrc32 (buf : List UInt8) : UInt32 :=
  .ofBitVec (~~~ Crc.register crcPoly 0xFFFFFFFF#32 (bitsOf buf))

theorem crc32_tab_toList :
    crc32_tab.toList = (List.range 256).map fun i =>
      .ofBitVec ((Crc.step crcPoly)^[8] (BitVec.ofNat 32 i)) := by
  decide +kernel

theorem crc32_tab_eq {i : Nat} (hi : i < 256) :
    (crc32_tab.getD i 0).toBitVec = (Crc.step crcPoly)^[8] (BitVec.ofNat 32 i) := by
  have hrange : (List.range 256)[i]? = some i := List.getElem?_range hi
  rw [Array.getD_eq_getD_getElem?, ← Array.getElem?_toList, crc32_tab_toList, List.getElem?_map, hrange]
  rfl

/-- A round takes in the bits of a byte. -/
theorem crcByte_eq (c : UInt32) (b : UInt8) :
    (crcByte c b).toBitVec = Crc.register crcPoly c.toBitVec (Crc.bits 8 b.toBitVec) := by
  have hbits : Crc.bits 8 b.toBitVec = Crc.bits 8 b.toUInt32.toBitVec := by
    refine Crc.bits_congr fun i hi => ?_
    rw [UInt8.toBitVec_toUInt32, BitVec.getLsbD_setWidth, decide_eq_true (by omega), Bool.true_and]
  have hlow : ((c ^^^ b.toUInt32) &&& 0xff).toBitVec = Crc.low 8 (c.toBitVec ^^^ b.toUInt32.toBitVec) := rfl
  have hlt : ((c ^^^ b.toUInt32) &&& 0xff).toNat < 256 := by
    rw [UInt32.toNat_and]
    exact Nat.lt_of_le_of_lt Nat.and_le_right (by decide)
  have hindex : BitVec.ofNat 32 ((c ^^^ b.toUInt32) &&& 0xff).toNat = ((c ^^^ b.toUInt32) &&& 0xff).toBitVec :=
    BitVec.ofNat_toNat _ _
  rw [hbits, Crc.register_bits, ← hlow, crcByte, UInt32.toBitVec_xor, crc32_tab_eq hlt, hindex,
    UInt32.toBitVec_shiftRight]
  rfl

theorem efi_crc32_eq (buf : List UInt8) (seed : UInt32) :
    (efi_crc32 buf seed).toBitVec = Crc.register crcPoly seed.toBitVec (bitsOf buf) := by
  induction buf generalizing seed with
  | nil => rfl
  | cons b buf ih =>
      have hstep : efi_crc32 (b :: buf) seed = efi_crc32 buf (crcByte seed b) := rfl
      have hbits : bitsOf (b :: buf) = Crc.bits 8 b.toBitVec ++ bitsOf buf := List.flatMap_cons
      rw [hstep, ih, crcByte_eq, hbits, Crc.register_append]

/-- **The table-driven CRC is CRC-32**, and the loop goes on where it has stopped. -/
theorem crc32_bitwise :
    (∀ buf, crc32 buf = bitwiseCrc32 buf) ∧
      ∀ xs ys seed, efi_crc32 (xs ++ ys) seed = efi_crc32 ys (efi_crc32 xs seed) := by
  refine ⟨fun buf => ?_, fun xs ys seed => List.foldl_append⟩
  apply UInt32.toBitVec_inj.mp
  rw [crc32, UInt32.toBitVec_xor, efi_crc32_eq]
  exact BitVec.xor_allOnes

end LinuxUtil.Gpt
