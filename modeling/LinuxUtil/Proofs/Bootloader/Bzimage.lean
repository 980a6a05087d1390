/-
What the bzImage loader puts into memory.

Both loops read consecutive sectors to consecutive addresses, so each is `loadSectors`.
The count of the second is what is left of a division: the part of a sector at the end of
the kernel is not read.  And the count of the setup sectors has 8 bits, so 255 of them and
the boot sector are none.
-/
import LinuxUtil.Bootloader.Bzimage
import LinuxUtil.Proofs.Bootloader.Sectors

namespace LinuxUtil.Bootloader

open ByteMem

variable (own : Nat → Bool) (drive : Drive)

/-! ### Consecutive sectors -/

/-- `n` sectors from the `i`-th of the image on. -/
def loadSectors (sector : UInt32) : Nat → Mem → Nat → UInt32 → Except Fault Mem
  | 0, mem, _, _ => .ok mem
  | n + 1, mem, addr, i => do
      let mem ← loadSector own drive mem (UInt32.ofNat addr) (sector + i)
      loadSectors sector n mem (addr + 512) (i + 1)

theorem ofNat_next (addr : Nat) : UInt32.ofNat addr + LINUX_SECTOR_SIZE = UInt32.ofNat (addr + 512) := by
  rw [UInt32.ofNat_add]
  rfl

theorem setupLoop_eq (sector : UInt32) (setup_sects : UInt8) :
    ∀ (fuel : Nat) (mem : Mem) (addr : Nat) (i : UInt8), setup_sects.toNat - i.toNat < fuel →
      setupLoop own drive sector setup_sects fuel mem (UInt32.ofNat addr) i =
        loadSectors own drive sector (setup_sects.toNat - i.toNat) mem addr i.toUInt32 := by
  intro fuel
  induction fuel with
  | zero => intro mem addr i hfuel; omega
  | succ fuel ih =>
      intro mem addr i hfuel
      rw [setupLoop]
      by_cases hi : i < setup_sects
      · have hlt := UInt8.lt_iff_toNat_lt.mp hi
        have hmax := setup_sects.toNat_lt
        have hnext : (i + 1).toNat = i.toNat + 1 := by
          rw [UInt8.toNat_add]
          exact Nat.mod_eq_of_lt (by have h1 : (1 : UInt8).toNat = 1 := rfl; omega)
        have hwide : (i + 1).toUInt32 = i.toUInt32 + 1 := by
          apply UInt32.toNat.inj
          rw [UInt8.toNat_toUInt32, hnext, UInt32.toNat_add, UInt8.toNat_toUInt32]
          exact (Nat.mod_eq_of_lt (by omega)).symm
        rw [if_pos hi, show setup_sects.toNat - i.toNat = (setup_sects.toNat - (i + 1).toNat) + 1 by omega,
          loadSectors]
        refine bind_congr fun mem => ?_
        rw [ofNat_next, ih mem (addr + 512) (i + 1) (by omega), hwide]
      · have hge := UInt8.le_iff_toNat_le.mp (UInt8.not_lt.mp hi)
        rw [if_neg hi, Nat.sub_eq_zero_of_le hge, loadSectors]

theorem kernelLoop_eq (sector last : UInt32) :
    ∀ (fuel : Nat) (mem : Mem) (addr : Nat) (i : UInt32), last.toNat - i.toNat < fuel →
      kernelLoop own drive sector last fuel mem (UInt32.ofNat addr) i =
        loadSectors own drive sector (last.toNat - i.toNat) mem addr i := by
  intro fuel
  induction fuel with
  | zero => intro mem addr i hfuel; omega
  | succ fuel ih =>
      intro mem addr i hfuel
      rw [kernelLoop]
      by_cases hi : i < last
      · have hlt := UInt32.lt_iff_toNat_lt.mp hi
        have hmax := last.toNat_lt
        have hnext : (i + 1).toNat = i.toNat + 1 := by
          rw [UInt32.toNat_add]
          exact Nat.mod_eq_of_lt (by have h1 : (1 : UInt32).toNat = 1 := rfl; omega)
        rw [if_pos hi, show last.toNat - i.toNat = (last.toNat - (i + 1).toNat) + 1 by omega,
          loadSectors]
        refine bind_congr fun mem => ?_
        rw [ofNat_next, ih mem (addr + 512) (i + 1) (by omega)]
      · have hge := UInt32.le_iff_toNat_le.mp (UInt32.not_lt.mp hi)
        rw [if_neg hi, Nat.sub_eq_zero_of_le hge, loadSectors]

/-- What some sectors leave behind: there was nothing of the loader, and they are in memory. -/
structure SectorsAt (sector : UInt32) (n : Nat) (mem mem' : Mem) (addr i : Nat) : Prop where
  free : ∀ x, addr ≤ x → x < addr + 512 * n → own x = false
  bytes : ∀ j, j < 512 * n → mem' (addr + j) = drive.byteAt sector (512 * i + j)
  other : ∀ x, x < addr ∨ addr + 512 * n ≤ x → mem' x = mem x

theorem loadSector_cases (sector i : UInt32) (mem : Mem) {addr : Nat} (haddr : addr < 2 ^ 32) :
    (∃ mem', loadSector own drive mem (UInt32.ofNat addr) (sector + i) = .ok mem' ∧
        SectorsAt own drive sector 1 mem mem' addr i.toNat) ∨
      loadSector own drive mem (UInt32.ofNat addr) (sector + i) = .error .outOfBounds ∧
        ∃ x, addr ≤ x ∧ x < addr + 512 ∧ own x = true := by
  have hnat : (UInt32.ofNat addr).toNat = addr := UInt32.toNat_ofNat_of_lt' haddr
  unfold loadSector
  rw [hnat]
  by_cases hany : (List.range 512).any fun k => own (addr + k)
  · rw [if_pos hany]
    obtain ⟨k, hk, hown⟩ := List.any_eq_true.mp hany
    exact .inr ⟨rfl, addr + k, by omega, by have := List.mem_range.mp hk; omega, hown⟩
  · rw [if_neg hany]
    have hlen : (drive (sector + i).toInt32).toList.length = 512 := by simp
    refine .inl ⟨_, rfl, ?_, ?_, ?_⟩
    · intro x h1 h2
      refine Bool.eq_false_iff.mpr fun hown => hany (List.any_eq_true.mpr ⟨x - addr, ?_, ?_⟩)
      · exact List.mem_range.mpr (by omega)
      · rwa [Nat.add_sub_cancel' h1]
    · intro j hj
      rw [drive.byteAt_sector sector i (by omega), read_disk, write_apply_of_in _ _ _ (by omega),
        List.getD_eq_getElem?_getD, List.getElem?_eq_getElem (by omega), Option.getD_some]
    · exact fun x hx => write_apply_of_out _ _ _ (by omega)

theorem loadSectors_cases (sector : UInt32) :
    ∀ (n : Nat) (mem : Mem) (addr : Nat) (i : UInt32), addr + 512 * n ≤ 2 ^ 32 → i.toNat + n < 2 ^ 32 →
      (∃ mem', loadSectors own drive sector n mem addr i = .ok mem' ∧
          SectorsAt own drive sector n mem mem' addr i.toNat) ∨
        loadSectors own drive sector n mem addr i = .error .outOfBounds ∧
          ∃ x, addr ≤ x ∧ x < addr + 512 * n ∧ own x = true := by
  intro n
  induction n with
  | zero =>
      intro mem addr i _ _
      exact .inl ⟨mem, rfl, fun x h1 h2 => by omega, fun j hj => by omega, fun x _ => rfl⟩
  | succ n ih =>
      intro mem addr i haddr hi
      have hnext : (i + 1).toNat = i.toNat + 1 := by
        rw [UInt32.toNat_add]
        exact Nat.mod_eq_of_lt (by have h1 : (1 : UInt32).toNat = 1 := rfl; omega)
      have hfirst : addr + 512 ≤ addr + 512 * (n + 1) :=
        Nat.add_le_add_left (Nat.mul_le_mul_left 512 (Nat.succ_pos n)) addr
      rw [loadSectors]
      rcases loadSector_cases own drive sector i mem (show addr < 2 ^ 32 by omega) with
        ⟨mem₁, hok₁, hat₁⟩ | ⟨herr, x, h1, h2, hown⟩
      · rw [hok₁]
        rcases ih mem₁ (addr + 512) (i + 1) (by omega) (by omega) with
          ⟨mem₂, hok₂, hat₂⟩ | ⟨herr, x, h1, h2, hown⟩
        · rw [hnext] at hat₂
          refine .inl ⟨mem₂, hok₂, ?_, ?_, ?_⟩
          · intro x h1 h2
            by_cases hx : x < addr + 512
            · exact hat₁.free x h1 hx
            · exact hat₂.free x (Nat.le_of_not_lt hx) (by omega)
          · intro j hj
            by_cases hj₁ : j < 512
            · rw [hat₂.other (addr + j) (.inl (Nat.add_lt_add_left hj₁ addr)), hat₁.bytes j hj₁]
            · have hbytes := hat₂.bytes (j - 512) (by omega)
              rwa [show addr + 512 + (j - 512) = addr + j by omega,
                show 512 * (i.toNat + 1) + (j - 512) = 512 * i.toNat + j by omega] at hbytes
          · exact fun x hx => (hat₂.other x (by omega)).trans
              (hat₁.other x (hx.imp_right (Nat.le_trans hfirst)))
        · exact .inr ⟨herr, x, by omega, by omega, hown⟩
      · rw [herr]
        exact .inr ⟨rfl, x, h1, Nat.lt_of_lt_of_le h2 hfirst, hown⟩

/-- Whatever the address, it has 32 bits. -/
theorem loadSectors_high (sector : UInt32) :
    ∀ (n : Nat) (mem : Mem) (addr : Nat) (i : UInt32) {mem' : Mem}, addr % 512 = 0 →
      loadSectors own drive sector n mem addr i = .ok mem' → ∀ x, 2 ^ 32 ≤ x → mem' x = mem x := by
  intro n
  induction n with
  | zero =>
      intro mem addr i mem' _ hok x _
      rw [← Except.ok.inj hok]
  | succ n ih =>
      intro mem addr i mem' haddr hok x hx
      rw [loadSectors] at hok
      have hmod : (UInt32.ofNat addr).toNat = addr % 2 ^ 32 := UInt32.toNat_ofNat'
      unfold loadSector at hok
      by_cases hany : (List.range 512).any fun k => own ((UInt32.ofNat addr).toNat + k)
      · rw [if_pos hany] at hok
        cases hok
      · rw [if_neg hany] at hok
        rw [ih _ _ _ (by omega) hok x hx]
        refine write_apply_of_out _ _ _ (.inr ?_)
        rw [hmod]
        simp only [Vector.length_toList]
        omega

/-! ### The image -/

/-- The boot protocol's header of an image that the loader can take. -/
structure Bootable (image : Mem) : Prop where
  boot_flag : load image 0x1fe 2 = 0xaa55
  header : load image 0x202 4 = 0x53726448
  version : 0x0202 ≤ load image 0x206 2
  loaded_high : load image 0x211 1 % 2 = 1
  small : load image 0x1f4 4 * 16 + 256 * 512 < 2 ^ 32

def setupSects (image : Mem) : Nat := if load image 0x1f1 1 = 0 then 4 else load image 0x1f1 1

/-- The kernel behind the setup code has 16 bytes for each unit of `syssize`. -/
def kernelSize (image : Mem) : Nat := 16 * load image 0x1f4 4

/-- The loader loads the whole image, whatever was in memory. -/
def LoadsImage : Prop :=
  ∀ mem, ∃ mem', loadImage own drive mem = .ok mem' ∧
    read mem' 0x2000 ((setupSects (drive.byteAt 539) + 1) * 512) =
      read (drive.byteAt 539) 0 ((setupSects (drive.byteAt 539) + 1) * 512) ∧
    read mem' 0x100000 (kernelSize (drive.byteAt 539)) =
      read (drive.byteAt 539) ((setupSects (drive.byteAt 539) + 1) * 512)
        (kernelSize (drive.byteAt 539))

/-- The number of setup sectors with the boot sector, as the loader counts them. -/
def counted (image : Mem) : Nat := (setupSects image + 1) % 256

variable {own drive}

theorem khdr_eq {mem mem' : Mem} (hat : SectorsAt own drive 539 2 mem mem' 0x2000 0) {off w : Nat}
    (hoff : off + w ≤ 1024) : khdr mem' off w = load (drive.byteAt 539) off w := by
  refine load_shift fun i hi => ?_
  have hbytes := hat.bytes (off + i) (by omega)
  rwa [← Nat.add_assoc, Nat.mul_zero, Nat.zero_add] at hbytes

theorem counted_eq (image : Mem) :
    ((if UInt8.ofNat (load image 0x1f1 1) = 0 then 4 else UInt8.ofNat (load image 0x1f1 1)) + 1).toNat =
      counted image := by
  have hlt : load image 0x1f1 1 < 256 := load_lt image 0x1f1 1
  have hnat : (UInt8.ofNat (load image 0x1f1 1)).toNat = load image 0x1f1 1 :=
    UInt8.toNat_ofNat_of_lt' hlt
  have hiff : UInt8.ofNat (load image 0x1f1 1) = 0 ↔ load image 0x1f1 1 = 0 := by
    rw [← UInt8.toNat_inj, hnat]
    rfl
  unfold counted setupSects
  rw [UInt8.toNat_add]
  by_cases hz : load image 0x1f1 1 = 0
  · rw [if_pos (hiff.mpr hz), if_pos hz]
    rfl
  · rw [if_neg (mt hiff.mp hz), if_neg hz, hnat]
    rfl

/-- There is a last partial sector in the size, but not in the count. -/
theorem last_eq {image : Mem} (h : Bootable image) {setup_sects : UInt8}
    (hcount : setup_sects.toNat = counted image) :
    ((setup_sects.toUInt32 * LINUX_SECTOR_SIZE + UInt32.ofNat (load image 0x1f4 4) * 16) /
      LINUX_SECTOR_SIZE).toNat = counted image + kernelSize image / 512 := by
  have hsmall := h.small
  have hlt : counted image < 256 := Nat.mod_lt _ (by decide)
  have h512 : LINUX_SECTOR_SIZE.toNat = 512 := rfl
  have h16 : (16 : UInt32).toNat = 16 := rfl
  have hsize : (UInt32.ofNat (load image 0x1f4 4)).toNat = load image 0x1f4 4 :=
    UInt32.toNat_ofNat_of_lt' (by show _ < 2 ^ 32; omega)
  rw [UInt32.toNat_div, UInt32.toNat_add, UInt32.toNat_mul, UInt32.toNat_mul, UInt8.toNat_toUInt32,
    hcount, h512, h16, hsize]
  unfold kernelSize
  omega

theorem loaded_high_ne {n : Nat} (h : n % 2 = 1) : UInt8.ofNat n &&& 1 ≠ 0 := by
  intro hzero
  have hnat := congrArg UInt8.toNat hzero
  rw [UInt8.toNat_and, UInt8.toNat_ofNat', show (1 : UInt8).toNat = 1 from rfl, Nat.and_one_is_mod] at hnat
  have h0 : (0 : UInt8).toNat = 0 := rfl
  omega

theorem loadRest_eq {mem mem₁ : Mem} (h : Bootable (drive.byteAt 539))
    (hat : SectorsAt own drive 539 2 mem mem₁ 0x2000 0) :
    loadRest own drive 539 0x2000 mem₁ =
      (loadSectors own drive 539 (counted (drive.byteAt 539) - 2) mem₁ 0x2400 2).bind fun mem₂ =>
        loadSectors own drive 539 (kernelSize (drive.byteAt 539) / 512) mem₂ 0x100000
          (UInt32.ofNat (counted (drive.byteAt 539))) := by
  have hcount := counted_eq (drive.byteAt 539)
  have hlt : counted (drive.byteAt 539) < 256 := Nat.mod_lt _ (by decide)
  unfold loadRest
  rw [khdr_eq hat (by decide), khdr_eq hat (by decide), khdr_eq hat (by decide), h.boot_flag, h.header,
    if_neg (by decide)]
  dsimp only
  generalize (if UInt8.ofNat (load (drive.byteAt 539) 0x1f1 1) = 0 then 4
    else UInt8.ofNat (load (drive.byteAt 539) 0x1f1 1)) + 1 = setup_sects at hcount ⊢
  have hsetup := setupLoop_eq own drive 539 setup_sects 256 mem₁ 0x2400 2 (by omega)
  rw [hcount] at hsetup
  have hcases := loadSectors_cases own drive 539 (counted (drive.byteAt 539) - 2) mem₁ 0x2400 2
    (by omega) (by have h2 : (2 : UInt32).toNat = 2 := rfl; omega)
  rw [show (0x2000 : UInt32) + LINUX_SECTOR_SIZE * 2 = UInt32.ofNat 0x2400 from rfl, hsetup]
  change (loadSectors own drive 539 (counted (drive.byteAt 539) - 2) mem₁ 0x2400 2).bind _ = _
  rcases hcases with ⟨mem₂, hok, hat₂⟩ | ⟨herr, -⟩
  · have hkhdr : ∀ {off w}, off + w ≤ 1024 → khdr mem₂ off w = load (drive.byteAt 539) off w := by
      intro off w hoff
      rw [← khdr_eq hat hoff]
      exact load_congr fun x h1 h2 => hat₂.other x (.inl (by omega))
    have hgood : ¬ (UInt8.ofNat (load (drive.byteAt 539) 0x211 1) &&& 1 = 0 ∨
        load (drive.byteAt 539) 0x206 2 < 0x0202) :=
      not_or.mpr ⟨loaded_high_ne h.loaded_high, Nat.not_lt.mpr h.version⟩
    rw [hok]
    simp only [Except.bind]
    rw [hkhdr (by decide), hkhdr (by decide), hkhdr (by decide), if_neg hgood]
    have hlast := last_eq h hcount
    have hwide : setup_sects.toUInt32 = UInt32.ofNat (counted (drive.byteAt 539)) := by
      rw [← hcount, ← UInt8.toNat_toUInt32, UInt32.ofNat_toNat]
    generalize (setup_sects.toUInt32 * LINUX_SECTOR_SIZE +
      UInt32.ofNat (load (drive.byteAt 539) 0x1f4 4) * 16) / LINUX_SECTOR_SIZE = last at hlast ⊢
    have hkernel := kernelLoop_eq own drive 539 last (last.toNat + 1) mem₂ 0x100000
      setup_sects.toUInt32 (Nat.lt_succ_of_le (Nat.sub_le _ _))
    rw [hlast, UInt8.toNat_toUInt32, hcount, Nat.add_sub_cancel_left] at hkernel
    rw [hlast, ← hwide]
    exact hkernel
  · rw [herr]
    rfl

/-- The addresses of the sectors that are read. -/
def Written (image : Mem) (x : Nat) : Prop :=
  0x2000 ≤ x ∧ x < 0x2000 + 512 * max 2 (counted image) ∨
    0x100000 ≤ x ∧ x < 0x100000 + 512 * (kernelSize image / 512)

/-- What the loader leaves behind. -/
structure Loaded (own : Nat → Bool) (image mem mem' : Mem) : Prop where
  free : ∀ x, Written image x → own x = false
  setup : ∀ j, j < 512 * max 2 (counted image) → mem' (0x2000 + j) = image j
  kernel : ∀ j, j < 512 * (kernelSize image / 512) →
    mem' (0x100000 + j) = image (512 * counted image + j)
  other : ∀ x, ¬ Written image x → mem' x = mem x

theorem counted_lt (image : Mem) : counted image < 256 := Nat.mod_lt _ (by decide)

theorem loadImage_eq (mem : Mem) :
    loadImage own drive mem =
      (loadSectors own drive 539 2 mem 0x2000 0).bind (loadRest own drive 539 0x2000) := by
  have hfirst : (0x2000 : UInt32) = UInt32.ofNat 0x2000 := rfl
  have hsecond : (0x2000 : UInt32) + LINUX_SECTOR_SIZE = UInt32.ofNat (0x2000 + 512) := rfl
  have hsect : (539 : UInt32) + 0 = 539 := rfl
  have hsect' : (539 : UInt32) + (0 + 1) = 539 + 1 := rfl
  simp only [loadImage, loadSectors, hsecond, hsect, hsect', ← hfirst, bind, Except.bind]
  cases loadSector own drive mem 0x2000 539 with
  | error e => rfl
  | ok mem =>
      dsimp only
      cases loadSector own drive mem (UInt32.ofNat (0x2000 + 512)) (539 + 1) with
      | error e => rfl
      | ok mem => rfl

theorem loadImage_cases (h : Bootable (drive.byteAt 539)) (mem : Mem)
    (hroom : 0x100000 + 512 * (kernelSize (drive.byteAt 539) / 512) ≤ 2 ^ 32) :
    (∃ mem', loadImage own drive mem = .ok mem' ∧ Loaded own (drive.byteAt 539) mem mem') ∨
      loadImage own drive mem = .error .outOfBounds ∧
        ∃ x, Written (drive.byteAt 539) x ∧ own x = true := by
  have hlt := counted_lt (drive.byteAt 539)
  have hcount : (UInt32.ofNat (counted (drive.byteAt 539))).toNat = counted (drive.byteAt 539) :=
    UInt32.toNat_ofNat_of_lt' (by show _ < 2 ^ 32; omega)
  have h2 : (2 : UInt32).toNat = 2 := rfl
  rw [loadImage_eq]
  rcases loadSectors_cases own drive 539 2 mem 0x2000 0 (by decide) (by decide) with
    ⟨mem₁, hok₁, hat₁⟩ | ⟨herr, x, hx1, hx2, hown⟩
  · rw [hok₁]
    change (∃ mem', loadRest own drive 539 0x2000 mem₁ = .ok mem' ∧ _) ∨
      loadRest own drive 539 0x2000 mem₁ = _ ∧ _
    rw [loadRest_eq h hat₁]
    rcases loadSectors_cases own drive 539 (counted (drive.byteAt 539) - 2) mem₁ 0x2400 2
      (by omega) (by omega) with ⟨mem₂, hok₂, hat₂⟩ | ⟨herr, x, hx1, hx2, hown⟩
    · rw [hok₂]
      simp only [Except.bind]
      rcases loadSectors_cases own drive 539 (kernelSize (drive.byteAt 539) / 512) mem₂ 0x100000
        (UInt32.ofNat (counted (drive.byteAt 539))) hroom (by omega) with
        ⟨mem₃, hok₃, hat₃⟩ | ⟨herr, x, hx1, hx2, hown⟩
      · refine .inl ⟨mem₃, hok₃, ?_, ?_, ?_, ?_⟩
        · rintro x (⟨hx1, hx2⟩ | ⟨hx1, hx2⟩)
          · by_cases hx : x < 0x2400
            · exact hat₁.free x hx1 hx
            · exact hat₂.free x (by omega) (by omega)
          · exact hat₃.free x hx1 hx2
        · intro j hj
          rw [hat₃.other (0x2000 + j) (.inl (by omega))]
          by_cases hj₁ : j < 1024
          · rw [hat₂.other (0x2000 + j) (.inl (by omega)), hat₁.bytes j hj₁]
            exact congrArg _ (Nat.zero_add j)
          · have hbytes := hat₂.bytes (j - 1024) (by omega)
            rw [h2] at hbytes
            rwa [show 0x2400 + (j - 1024) = 0x2000 + j by omega,
              show 512 * 2 + (j - 1024) = j by omega] at hbytes
        · intro j hj
          have hbytes := hat₃.bytes j hj
          rwa [hcount] at hbytes
        · intro x hx
          unfold Written at hx
          rw [hat₃.other x (by omega), hat₂.other x (by omega), hat₁.other x (by omega)]
      · exact .inr ⟨herr, x, .inr ⟨hx1, hx2⟩, hown⟩
    · rw [herr]
      exact .inr ⟨rfl, x, .inl ⟨by omega, by omega⟩, hown⟩
  · rw [herr]
    exact .inr ⟨rfl, x, .inl ⟨by omega, by omega⟩, hown⟩

theorem loadImage_high (h : Bootable (drive.byteAt 539)) {mem mem' : Mem}
    (hok : loadImage own drive mem = .ok mem') {x : Nat} (hx : 2 ^ 32 ≤ x) : mem' x = mem x := by
  rw [loadImage_eq] at hok
  rcases loadSectors_cases own drive 539 2 mem 0x2000 0 (by decide) (by decide) with
    ⟨mem₁, hok₁, hat₁⟩ | ⟨herr, -⟩
  · rw [hok₁] at hok
    change loadRest own drive 539 0x2000 mem₁ = _ at hok
    rw [loadRest_eq h hat₁] at hok
    cases hok₂ : loadSectors own drive 539 (counted (drive.byteAt 539) - 2) mem₁ 0x2400 2 with
    | error e =>
        rw [hok₂] at hok
        cases hok
    | ok mem₂ =>
        rw [hok₂] at hok
        rw [loadSectors_high own drive 539 _ mem₂ 0x100000 _ (by decide) hok x hx,
          loadSectors_high own drive 539 _ mem₁ 0x2400 2 (by decide) hok₂ x hx,
          loadSectors_high own drive 539 2 mem 0x2000 0 (by decide) hok₁ x hx]
  · rw [herr] at hok
    cases hok

/-! ### The images that are loaded -/

/-- The addresses of the setup code and of the kernel. -/
def Part (image : Mem) (x : Nat) : Prop :=
  0x2000 ≤ x ∧ x < 0x2000 + (setupSects image + 1) * 512 ∨
    0x100000 ≤ x ∧ x < 0x100000 + kernelSize image

theorem setupSects_bounds (image : Mem) : 1 ≤ setupSects image ∧ setupSects image ≤ 255 := by
  have hlt : load image 0x1f1 1 < 256 := load_lt image 0x1f1 1
  unfold setupSects
  split <;> omega

theorem LoadsImage.room (h : Bootable (drive.byteAt 539)) (hloads : LoadsImage own drive) :
    0x100000 + kernelSize (drive.byteAt 539) ≤ 2 ^ 32 := by
  by_contra hover
  obtain ⟨mem', hok, -, hkernel⟩ := hloads fun _ => drive.byteAt 539
    ((setupSects (drive.byteAt 539) + 1) * 512 + (2 ^ 32 - 0x100000)) + 1
  have hbyte := eq_of_read hkernel (show 2 ^ 32 - 0x100000 < _ by omega)
  rw [loadImage_high h hok (by decide)] at hbyte
  exact add_one_ne _ hbyte

theorem LoadsImage.setup (h : Bootable (drive.byteAt 539)) (hloads : LoadsImage own drive) :
    setupSects (drive.byteAt 539) ≠ 255 := by
  intro hall
  have hroom := hloads.room h
  have hcount : counted (drive.byteAt 539) = 0 := by
    rw [counted, hall]
  obtain ⟨mem', hok, hsetup, -⟩ := hloads fun _ => drive.byteAt 539 (0 + 0x400) + 1
  have hbyte := eq_of_read hsetup (show 0x400 < _ by omega)
  rcases @loadImage_cases own drive h (fun _ => drive.byteAt 539 (0 + 0x400) + 1) (by omega) with
    ⟨mem'', hok', hloaded⟩ | ⟨herr, -⟩
  · obtain rfl := Except.ok.inj (hok.symm.trans hok')
    rw [hloaded.other (0x2000 + 0x400) (by unfold Written; omega)] at hbyte
    exact add_one_ne _ hbyte
  · rw [hok] at herr
    cases herr

theorem LoadsImage.whole (h : Bootable (drive.byteAt 539)) (hloads : LoadsImage own drive) :
    kernelSize (drive.byteAt 539) % 512 = 0 := by
  by_contra hpart
  have hroom := hloads.room h
  have hcount := counted_lt (drive.byteAt 539)
  obtain ⟨j, hj⟩ : ∃ j, j = 512 * (kernelSize (drive.byteAt 539) / 512) := ⟨_, rfl⟩
  have hlt : j < kernelSize (drive.byteAt 539) := by omega
  obtain ⟨mem', hok, -, hkernel⟩ := hloads fun _ => drive.byteAt 539
    ((setupSects (drive.byteAt 539) + 1) * 512 + j) + 1
  have hbyte := eq_of_read hkernel hlt
  rcases @loadImage_cases own drive h (fun _ => drive.byteAt 539
    ((setupSects (drive.byteAt 539) + 1) * 512 + j) + 1) (by omega) with
    ⟨mem'', hok', hloaded⟩ | ⟨herr, -⟩
  · obtain rfl := Except.ok.inj (hok.symm.trans hok')
    rw [hloaded.other (0x100000 + j) (by unfold Written; omega)] at hbyte
    exact add_one_ne _ hbyte
  · rw [hok] at herr
    cases herr

/-- **The loader loads exactly the images** of fewer than 255 setup sectors whose kernel is whole
sectors, ends below 4 GiB and leaves the loader itself alone. -/
theorem loadsImage_iff (h : Bootable (drive.byteAt 539)) :
    LoadsImage own drive ↔ setupSects (drive.byteAt 539) ≠ 255 ∧
      32 ∣ load (drive.byteAt 539) 0x1f4 4 ∧ 0x100000 + kernelSize (drive.byteAt 539) ≤ 2 ^ 32 ∧
      ∀ x, Part (drive.byteAt 539) x → own x = false := by
  have hbounds := setupSects_bounds (drive.byteAt 539)
  have hwhole : 32 ∣ load (drive.byteAt 539) 0x1f4 4 ↔ kernelSize (drive.byteAt 539) % 512 = 0 := by
    unfold kernelSize
    omega
  have hpart : setupSects (drive.byteAt 539) ≠ 255 → kernelSize (drive.byteAt 539) % 512 = 0 →
      counted (drive.byteAt 539) = setupSects (drive.byteAt 539) + 1 ∧
        ∀ x, Written (drive.byteAt 539) x ↔ Part (drive.byteAt 539) x := by
    intro hsetup hsize
    have hcount : counted (drive.byteAt 539) = setupSects (drive.byteAt 539) + 1 :=
      Nat.mod_eq_of_lt (by omega)
    refine ⟨hcount, fun x => ?_⟩
    unfold Written Part
    omega
  rw [hwhole]
  constructor
  · intro hloads
    have hroom := hloads.room h
    refine ⟨hloads.setup h, hloads.whole h, hroom, fun x hx => ?_⟩
    have hx := ((hpart (hloads.setup h) (hloads.whole h)).2 x).mpr hx
    obtain ⟨mem', hok, -⟩ := hloads fun _ => 0
    rcases @loadImage_cases own drive h (fun _ => 0) (by omega) with
      ⟨mem'', -, hloaded⟩ | ⟨herr, -⟩
    · exact hloaded.free x hx
    · rw [hok] at herr
      cases herr
  · rintro ⟨hsetup, hsize, hroom, hown⟩ mem
    obtain ⟨hcount, hwritten⟩ := hpart hsetup hsize
    rcases @loadImage_cases own drive h mem (by omega) with
      ⟨mem', hok, hloaded⟩ | ⟨-, x, hx, hx'⟩
    · refine ⟨mem', hok, read_shift fun j hj => ?_, read_shift fun j hj => ?_⟩
      · rw [Nat.zero_add]
        exact hloaded.setup j (by omega)
      · rw [Nat.mul_comm, ← hcount]
        exact hloaded.kernel j (by omega)
    · rw [hown x ((hwritten x).mp hx)] at hx'
      cases hx'

/-! ### The loader in memory -/

/-- `bzimage.ld` puts the two sectors of the loader at 0x1200, and `mbr.S` the stack below 0xa000. -/
def loaderOwn (x : Nat) : Bool := (0x1200 ≤ x && x < 0x1600) || (0x9e00 ≤ x && x < 0xa000)

/-- The setup code may have 62 sectors before it runs into the stack. -/
theorem loaderOwn_apart_iff (image : Mem) :
    (∀ x, Part image x → loaderOwn x = false) ↔ setupSects image ≤ 62 := by
  have hown : ∀ x, loaderOwn x = false ↔
      ¬ (0x1200 ≤ x ∧ x < 0x1600 ∨ 0x9e00 ≤ x ∧ x < 0xa000) := by
    intro x
    simp [loaderOwn]
  constructor
  · intro hfree
    by_contra hlarge
    exact (hown 0x9e00).mp (hfree 0x9e00 (.inl (by omega))) (by decide)
  · intro hsmall x hx
    rw [hown]
    unfold Part at hx
    omega

/-- The fields that the loader fills in, the command line and the code to enter are below the kernel. -/
theorem patchHeader_high (mem : Mem) {x : Nat} (hx : 0x100000 ≤ x) : patchHeader mem x = mem x := by
  unfold patchHeader
  have hcode : code16.length = 19 := rfl
  have hline : (LINUX_CMD_LINE ++ [0]).length = 73 := rfl
  rw [write_apply_of_out _ _ _ (by omega), store_apply_of_out _ _ _ _ (by omega),
    write_apply_of_out _ _ _ (by omega), store_apply_of_out _ _ _ _ (by omega),
    store_apply_of_out _ _ _ _ (by omega), store_apply_of_out _ _ _ _ (by omega)]

/-- At the jump to the setup code the kernel is still there. -/
theorem LoadsImage.kernel (hloads : LoadsImage own drive) (mem : Mem) :
    ∃ mem', bzElfMain own drive mem = .ok mem' ∧
      read mem' 0x100000 (kernelSize (drive.byteAt 539)) =
        read (drive.byteAt 539) ((setupSects (drive.byteAt 539) + 1) * 512)
          (kernelSize (drive.byteAt 539)) := by
  obtain ⟨mem', hok, -, hkernel⟩ := hloads mem
  refine ⟨patchHeader mem', by rw [bzElfMain, hok]; rfl, ?_⟩
  rw [← hkernel]
  exact read_congr fun x hx _ => patchHeader_high mem' hx

/-! ### Small images -/

/-- An image of protocol 2.15, by the two sizes in its header. -/
def smallImage (setup_sects syssize : Nat) : Mem :=
  let m := store (fun _ => 0) 0x1f1 1 setup_sects
  let m := store m 0x1f4 4 syssize
  let m := store m 0x1fe 2 0xaa55
  let m := store m 0x202 4 0x53726448
  let m := store m 0x206 2 0x020f
  store m 0x211 1 1

theorem Bootable.imageDrive {image : Mem} (h : Bootable image) :
    Bootable ((imageDrive image).byteAt 539) := by
  refine ⟨?_, ?_, ?_, ?_, ?_⟩
  · exact (load_imageDrive image (by decide)).trans h.boot_flag
  · exact (load_imageDrive image (by decide)).trans h.header
  · rw [load_imageDrive image (by decide)]
    exact h.version
  · exact (congrArg (· % 2) (load_imageDrive image (by decide))).trans h.loaded_high
  · rw [load_imageDrive image (by decide)]
    exact h.small

/-- A kernel of one sector behind one setup sector. -/
theorem loadsImage_small : LoadsImage loaderOwn (imageDrive (smallImage 1 32)) := by
  have h : Bootable (smallImage 1 32) := ⟨rfl, rfl, by decide, rfl, by decide⟩
  have hsize : load ((imageDrive (smallImage 1 32)).byteAt 539) 0x1f4 4 = 32 :=
    load_imageDrive _ (by decide)
  have hsetup : setupSects ((imageDrive (smallImage 1 32)).byteAt 539) = 1 := by
    unfold setupSects
    rw [load_imageDrive _ (by decide)]
    rfl
  refine (loadsImage_iff h.imageDrive).mpr ⟨by rw [hsetup]; decide, ⟨1, hsize⟩, ?_, ?_⟩
  · rw [kernelSize, hsize]
    decide
  · exact (loaderOwn_apart_iff _).mpr (by rw [hsetup]; decide)

/-- Sixteen bytes more, and they are not loaded. -/
theorem loadsImage_not_all :
    ¬ ∀ drive : Drive, Bootable (drive.byteAt 539) → LoadsImage (fun _ => false) drive := by
  intro hall
  have h : Bootable (smallImage 1 33) := ⟨rfl, rfl, by decide, rfl, by decide⟩
  have hwhole := (hall _ h.imageDrive).whole h.imageDrive
  have hsize : load ((imageDrive (smallImage 1 33)).byteAt 539) 0x1f4 4 = 33 :=
    load_imageDrive _ (by decide)
  rw [kernelSize, hsize] at hwhole
  exact absurd hwhole (by decide)

end LinuxUtil.Bootloader
