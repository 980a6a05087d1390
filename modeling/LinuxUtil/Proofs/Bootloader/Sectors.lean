/-
What the boot loaders read off the disk.

A round of `__k_readfile` reads a sector into the scratch buffer and copies a part of it
out.  Whatever the offset and the length, the loop ends with the bytes of the sectors it was
pointed at, one behind the other (`readfileLoop_reads`).
-/
import LinuxUtil.Bootloader.Vmlinux

namespace LinuxUtil.Bootloader

open ByteMem

/-! ### The loop -/

/-- Copying out of a range that the destination does not overlap. -/
theorem copyBytes_apply :
    ∀ (n : Nat) (mem : Mem) (dst src : Nat), (dst + n ≤ src ∨ src + n ≤ dst) →
      (∀ i, i < n → copyBytes n mem dst src (dst + i) = mem (src + i))
        ∧ ∀ x, (x < dst ∨ dst + n ≤ x) → copyBytes n mem dst src x = mem x := by
  intro n
  induction n with
  | zero => intro mem dst src _; exact ⟨fun i hi => absurd hi (Nat.not_lt_zero _), fun x _ => rfl⟩
  | succ n ih =>
      intro mem dst src hap
      obtain ⟨hin, hout⟩ := ih (write mem dst [mem src]) (dst + 1) (src + 1) (by omega)
      have hwrite : ∀ x, x ≠ dst → write mem dst [mem src] x = mem x :=
        fun x hx => write_apply_of_out _ _ _ (by simp; omega)
      refine ⟨fun i hi => ?_, fun x hx => ?_⟩
      · unfold copyBytes
        cases i with
        | zero =>
            rw [hout (dst + 0) (by omega)]
            exact write_apply_of_in mem dst [mem src] (i := 0) (by simp)
        | succ i =>
            rw [show dst + (i + 1) = dst + 1 + i by omega, hin i (by omega), hwrite _ (by omega),
              show src + (i + 1) = src + 1 + i by omega]
      · unfold copyBytes
        rw [hout x (by omega), hwrite x (by omega)]

/-- No byte is one more than itself. -/
theorem add_one_ne (b : UInt8) : b + 1 ≠ b := by
  intro hb
  have hnat := congrArg UInt8.toNat hb
  have h1 : (1 : UInt8).toNat = 1 := rfl
  rw [UInt8.toNat_add, h1] at hnat
  have := b.toNat_lt
  omega

/-- The part of a sector one round copies. -/
def roundBytes (foff fsize : Nat) : Nat := min (512 - foff % 512) fsize

/-- The sector and the place in it of the byte at offset `b`. -/
def Drive.byteAt (drive : Drive) (fstart : UInt32) (b : Nat) : UInt8 :=
  (drive (fstart + UInt32.ofNat (b / 512)).toInt32).toList.getD (b % 512) 0

theorem Drive.byteAt_sector (drive : Drive) (sector i : UInt32) {j : Nat} (hj : j < 512) :
    drive.byteAt sector (512 * i.toNat + j) = (drive (sector + i).toInt32).toList.getD j 0 := by
  unfold Drive.byteAt
  rw [show (512 * i.toNat + j) / 512 = i.toNat by omega, UInt32.ofNat_toNat,
    show (512 * i.toNat + j) % 512 = j by omega]

section Round

variable (drive : Drive) (sd : Nat) (fstart : UInt32) (mem : Mem) (dst : Nat) (foff fsize : UInt32)

/-- One round: a sector is read and a part of it copied. -/
def roundImage : Mem :=
  copyBytes (roundBytes foff.toNat fsize.toNat)
    (read_disk drive mem sd (fstart + foff / SECTSIZE).toInt32) dst (sd + foff.toNat % 512)

theorem toNat_roundBytes :
    (if SECTSIZE - foff % SECTSIZE > fsize then fsize else SECTSIZE - foff % SECTSIZE).toNat
      = roundBytes foff.toNat fsize.toNat := by
  have hmod : (foff % SECTSIZE).toNat = foff.toNat % 512 := UInt32.toNat_mod _ _
  have hlt : foff.toNat % 512 < 512 := Nat.mod_lt _ (by decide)
  have hsub : (SECTSIZE - foff % SECTSIZE).toNat = 512 - foff.toNat % 512 := by
    rw [UInt32.toNat_sub_of_le _ _ (UInt32.le_iff_toNat_le.mpr
      (by rw [hmod]; exact Nat.le_of_lt hlt)), hmod]
    rfl
  unfold roundBytes
  by_cases h : SECTSIZE - foff % SECTSIZE > fsize
  · rw [if_pos h]
    rw [gt_iff_lt, UInt32.lt_iff_toNat_lt, hsub] at h
    omega
  · rw [if_neg h, hsub]
    rw [gt_iff_lt, UInt32.lt_iff_toNat_lt, hsub] at h
    omega

/-- What a round leaves behind: its part of the file, and everything else but the scratch buffer. -/
theorem roundImage_apply
    (hap : dst + roundBytes foff.toNat fsize.toNat ≤ sd ∨ sd + 512 ≤ dst) :
    (∀ i, i < roundBytes foff.toNat fsize.toNat →
        roundImage drive sd fstart mem dst foff fsize (dst + i)
          = drive.byteAt fstart (foff.toNat + i))
      ∧ ∀ x, (x < dst ∨ dst + roundBytes foff.toNat fsize.toNat ≤ x) → (x < sd ∨ sd + 512 ≤ x) →
          roundImage drive sd fstart mem dst foff fsize x = mem x := by
  have hnb : roundBytes foff.toNat fsize.toNat ≤ 512 - foff.toNat % 512 := Nat.min_le_left _ _
  have hlt : foff.toNat % 512 < 512 := Nat.mod_lt _ (by decide)
  obtain ⟨hin, hout⟩ := copyBytes_apply (roundBytes foff.toNat fsize.toNat)
    (read_disk drive mem sd (fstart + foff / SECTSIZE).toInt32) dst (sd + foff.toNat % 512) (by omega)
  refine ⟨fun i hi => ?_, fun x h1 h2 => ?_⟩
  · have hsector : foff / SECTSIZE = UInt32.ofNat ((foff.toNat + i) / 512) := by
      apply UInt32.toNat.inj
      have := foff.toNat_lt
      rw [UInt32.toNat_div, UInt32.toNat_ofNat_of_lt' (show _ < 2 ^ 32 by omega)]
      show foff.toNat / 512 = _
      omega
    unfold roundImage
    rw [hin i hi, hsector]
    unfold read_disk Drive.byteAt
    rw [Nat.add_assoc, show (foff.toNat + i) % 512 = foff.toNat % 512 + i by omega,
      write_apply_of_in _ _ _ (by simp; omega), List.getD_eq_getElem?_getD,
      List.getElem?_eq_getElem (by simp; omega)]
    rfl
  · unfold roundImage
    rw [hout x h1]
    exact write_apply_of_out _ _ _ (by simpa using h2)

end Round

/-- **The loop reads the bytes of consecutive sectors**, from any offset on and any number of them,
and ends. -/
theorem readfileLoop_reads (drive : Drive) (sd : Nat) (fstart : UInt32) :
    ∀ (fuel : Nat) (mem : Mem) (dst : Nat) (foff fsize : UInt32), fsize.toNat < fuel →
      foff.toNat + fsize.toNat ≤ 2 ^ 32 → (dst + fsize.toNat ≤ sd ∨ sd + 512 ≤ dst) →
      ∃ mem', readfileLoop drive sd fstart fuel mem dst foff fsize = .ok mem'
        ∧ (∀ i, i < fsize.toNat → mem' (dst + i) = drive.byteAt fstart (foff.toNat + i))
        ∧ ∀ x, (x < dst ∨ dst + fsize.toNat ≤ x) → (x < sd ∨ sd + 512 ≤ x) → mem' x = mem x := by
  intro fuel
  induction fuel with
  | zero => intro mem dst foff fsize hfuel; omega
  | succ fuel ih =>
      intro mem dst foff fsize hfuel hlt hap
      unfold readfileLoop
      by_cases h0 : fsize = 0
      · subst h0
        refine ⟨mem, rfl, fun i hi => ?_, fun x _ _ => rfl⟩
        simp at hi
      · have hpos : 0 < fsize.toNat := by
          refine Nat.pos_of_ne_zero fun hc => h0 ?_
          exact UInt32.toNat.inj hc
        have hmod : foff.toNat % 512 < 512 := Nat.mod_lt _ (by decide)
        have hnb : 1 ≤ roundBytes foff.toNat fsize.toNat
            ∧ roundBytes foff.toNat fsize.toNat ≤ fsize.toNat := by
          unfold roundBytes
          omega
        have hnbNat := toNat_roundBytes foff fsize
        rw [if_pos h0]
        dsimp only
        generalize (if SECTSIZE - foff % SECTSIZE > fsize then fsize
          else SECTSIZE - foff % SECTSIZE) = nb at hnbNat ⊢
        have hadd : (foff + nb).toNat = (foff.toNat + nb.toNat) % 2 ^ 32 := UInt32.toNat_add _ _
        have hsub : (fsize - nb).toNat = fsize.toNat - nb.toNat :=
          UInt32.toNat_sub_of_le _ _ (UInt32.le_iff_toNat_le.mpr (by omega))
        obtain ⟨hin, hout⟩ := roundImage_apply drive sd fstart mem dst foff fsize (by omega)
        obtain ⟨mem', hrun, hin', hout'⟩ :=
          ih (roundImage drive sd fstart mem dst foff fsize) (dst + nb.toNat) (foff + nb) (fsize - nb)
            (by omega) (by omega) (by omega)
        refine ⟨mem', ?_, fun i hi => ?_, fun x h1 h2 => ?_⟩
        · rw [← hrun, hnbNat]
          rfl
        · by_cases hi' : i < nb.toNat
          · rw [hout' _ (by omega) (by omega), hin i (by omega)]
          · have := hin' (i - nb.toNat) (by omega)
            rwa [hadd, Nat.mod_eq_of_lt (by omega), show dst + nb.toNat + (i - nb.toNat) = dst + i by omega,
              show foff.toNat + nb.toNat + (i - nb.toNat) = foff.toNat + i by omega] at this
        · rw [hout' x (by omega) h2, hout x (by omega) h2]

/-! ### Drives with an image -/

/-- A drive with an image from sector 539 on. -/
def imageDrive (image : Mem) : Drive :=
  fun sect => Vector.ofFn fun j => image (512 * (sect.toInt.toNat - 539) + j)

theorem byteAt_imageDrive (image : Mem) {b : Nat} (hb : b < 2 ^ 32) :
    (imageDrive image).byteAt 539 b = image b := by
  have hint : ((539 : UInt32) + UInt32.ofNat (b / 512)).toInt32.toInt = (539 + b / 512 : Nat) := by
    rw [show (539 : UInt32) = UInt32.ofNat 539 from rfl, ← UInt32.ofNat_add]
    exact Int32.toInt_ofNat_of_lt (by omega)
  have hlt : b % 512 < 512 := Nat.mod_lt _ (by decide)
  unfold Drive.byteAt imageDrive
  rw [hint, List.getD_eq_getElem?_getD, List.getElem?_eq_getElem (by simpa using hlt), Option.getD_some]
  simp only [Int.toNat_natCast, Vector.getElem_toList, Vector.getElem_ofFn]
  congr 1
  omega

theorem load_imageDrive (image : Mem) {off w : Nat} (hoff : off + w ≤ 2 ^ 32) :
    load ((imageDrive image).byteAt 539) off w = load image off w :=
  load_congr fun x _ h2 => byteAt_imageDrive _ (by omega)

end LinuxUtil.Bootloader
