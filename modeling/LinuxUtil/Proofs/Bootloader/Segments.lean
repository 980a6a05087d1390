/-
The image that the ELF loader builds.

The effect of a program header is a patch: its segment, with zeros at the end.  The loader
lays the patches of the headers it takes over the memory, one after the other
(`elf_main_lays`).  It takes those whose `p_type` is odd, where it means `PT_LOAD`, and it has
the fields of a header only if they are all in one sector.

So the memory is the image that the headers describe as long as the headers of other types
change nothing in it (`loadsSegments_iff`).
-/
import Mathlib.Data.List.Pairwise
import LinuxUtil.Bootloader.Vmlinux
import LinuxUtil.Lib.Overlay
import LinuxUtil.Proofs.Bootloader.Sectors

namespace LinuxUtil.Bootloader

open ByteMem Overlay

/-! ### Words -/

theorem load_eight (m : Mem) (a : Nat) : UInt32.ofNat (load m a 8) = UInt32.ofNat (load m a 4) := by
  have hsplit : ∀ a w, load m a (w + 1) = (m a).toNat + 256 * load m (a + 1) w := by
    intro a w
    unfold load
    rw [read_succ]
    rfl
  apply UInt32.toNat.inj
  rw [UInt32.toNat_ofNat', UInt32.toNat_ofNat']
  simp only [hsplit a, hsplit (a + 1), hsplit (a + 1 + 1), hsplit (a + 1 + 1 + 1)]
  omega

theorem load_odd (m : Mem) (a : Nat) : load m a 4 % 2 = (m a).toNat % 2 := by
  unfold load
  rw [read_succ, leNat]
  omega

theorem and_one_ne_iff (n : Nat) : UInt32.ofNat n &&& PT_LOAD ≠ 0 ↔ n % 2 = 1 := by
  have hand : (UInt32.ofNat n &&& PT_LOAD).toNat = n % 2 := by
    rw [UInt32.toNat_and, UInt32.toNat_ofNat', show PT_LOAD.toNat = 1 from rfl, Nat.and_one_is_mod]
    omega
  rw [ne_eq, ← UInt32.toNat_inj, hand, show (0 : UInt32).toNat = 0 from rfl]
  omega

theorem zeroBytes_apply :
    ∀ (n : Nat) (mem : Mem) (buf x : Nat),
      zeroBytes n mem buf x = if buf ≤ x ∧ x < buf + n then 0 else mem x := by
  intro n
  induction n with
  | zero =>
      intro mem buf x
      rw [zeroBytes, if_neg (by omega)]
  | succ n ih =>
      intro mem buf x
      rw [zeroBytes, ih]
      by_cases hx : x = buf
      · rw [hx, if_neg (by omega), if_pos (by omega)]
        exact write_apply_of_in mem buf [0] Nat.zero_lt_one
      · rw [write_apply_of_out _ _ _ (by simp; omega)]
        by_cases hin : buf + 1 ≤ x ∧ x < buf + 1 + n
        · rw [if_pos hin, if_pos (by omega)]
        · rw [if_neg hin, if_neg (by omega)]

/-- The zeros between the end of the file's bytes and the end of the segment. -/
theorem memzero_tail {paddr filesz memsz : Nat} (hfile : filesz ≤ memsz) (hmemsz : memsz < 2 ^ 32)
    (hend : paddr + memsz ≤ 2 ^ 32) (mem : Mem) (x : Nat) :
    k_memzero mem (UInt32.ofNat paddr + UInt32.ofNat filesz).toNat
        (UInt32.ofNat memsz - UInt32.ofNat filesz) x =
      if paddr + filesz ≤ x ∧ x < paddr + memsz then 0 else mem x := by
  have hfilesz : (UInt32.ofNat filesz).toNat = filesz := UInt32.toNat_ofNat_of_lt' (show _ < 2 ^ 32 by omega)
  have hlow : (UInt32.ofNat memsz).toNat = memsz := UInt32.toNat_ofNat_of_lt' hmemsz
  have hstart : (UInt32.ofNat paddr + UInt32.ofNat filesz).toNat = (paddr + filesz) % 2 ^ 32 := by
    rw [← UInt32.ofNat_add]
    exact UInt32.toNat_ofNat'
  have hsize : (UInt32.ofNat memsz - UInt32.ofNat filesz).toNat = memsz - filesz := by
    rw [UInt32.toNat_sub_of_le _ _ (UInt32.le_iff_toNat_le.mpr (by rw [hfilesz, hlow]; exact hfile)),
      hfilesz, hlow]
  rw [k_memzero, hstart, hsize, zeroBytes_apply]
  by_cases hnone : memsz = filesz
  · rw [if_neg (by omega), if_neg (by omega)]
  · rw [Nat.mod_eq_of_lt (by omega), show paddr + filesz + (memsz - filesz) = paddr + memsz by omega]

/-! ### Program headers -/

/-- The fields of `Elf64_Phdr` that the loader looks at. -/
structure Phdr where
  p_type : Nat
  p_offset : Nat
  p_paddr : Nat
  p_filesz : Nat
  p_memsz : Nat

/-- The header at an offset of the file. -/
def phdrAt (image : Mem) (off : Nat) : Phdr :=
  ⟨load image off 4, load image (off + 8) 8, load image (off + 24) 8, load image (off + 32) 8,
    load image (off + 40) 8⟩

namespace Phdr

def Covers (p : Phdr) (x : Nat) : Prop := p.p_paddr ≤ x ∧ x < p.p_paddr + p.p_memsz

instance (p : Phdr) (x : Nat) : Decidable (p.Covers x) := by
  unfold Covers
  infer_instance

/-- The segment: bytes of the file, and zeros behind them. -/
def segment (p : Phdr) (image : Mem) (x : Nat) : Option UInt8 :=
  if p.Covers x then
    some (if x < p.p_paddr + p.p_filesz then image (p.p_offset + (x - p.p_paddr)) else 0)
  else none

/-- Of both sizes nothing is left in 32 bits. -/
def Idle (p : Phdr) : Prop := p.p_filesz % 2 ^ 32 = 0 ∧ p.p_memsz % 2 ^ 32 = 0

instance (p : Phdr) : Decidable p.Idle := by
  unfold Idle
  infer_instance

/-- The loader takes the header, and there is something to load. -/
def Taken (p : Phdr) : Prop := p.p_type % 2 = 1 ∧ ¬ p.Idle

instance (p : Phdr) : Decidable p.Taken := by
  unfold Taken
  infer_instance

/-- What the loader does with a header. -/
def effect (p : Phdr) (image : Mem) : Nat → Option UInt8 :=
  if p.Taken then p.segment image else fun _ => none

end Phdr

/-- The addresses of the scratch sector and of the header buffer. -/
def Buffers (data x : Nat) : Prop :=
  SECTOR_DATA_START ≤ x ∧ x < SECTOR_DATA_START + 512 ∨ data ≤ x ∧ x < data + 512

/-- A segment of 32-bit addresses and offsets that leaves the buffers alone. -/
structure Phdr.Fits (p : Phdr) (data : Nat) : Prop where
  filesz_le : p.p_filesz ≤ p.p_memsz
  offset : p.p_offset + p.p_filesz ≤ 2 ^ 32
  paddr : p.p_paddr + p.p_memsz ≤ 2 ^ 32
  apart : ∀ x, p.Covers x → ¬ Buffers data x

/-- A segment that is not empty is apart from each of the buffers. -/
theorem Phdr.Fits.bounds {p : Phdr} {data : Nat} (h : p.Fits data) (hpos : 0 < p.p_memsz) :
    (p.p_paddr + p.p_memsz ≤ 0x1000 ∨ 0x1200 ≤ p.p_paddr) ∧
      (p.p_paddr + p.p_memsz ≤ data ∨ data + 512 ≤ p.p_paddr) := by
  have hscratch := h.apart (max p.p_paddr 0x1000)
  have hdata := h.apart (max p.p_paddr data)
  unfold Phdr.Covers Buffers SECTOR_DATA_START at hscratch hdata
  omega

theorem Phdr.Fits.idle_or {p : Phdr} {data : Nat} (h : p.Fits data) :
    p.p_memsz = 0 ∨ 0 < p.p_memsz ∧ p.p_memsz < 2 ^ 32 ∧ p.p_paddr < 2 ^ 32 ∧ ¬ p.Idle := by
  have hpaddr := h.paddr
  by_cases hzero : p.p_memsz = 0
  · exact .inl hzero
  · have hbounds := h.bounds (Nat.pos_of_ne_zero hzero)
    refine .inr ⟨by omega, by omega, by omega, ?_⟩
    rintro ⟨-, hmem⟩
    omega

/-! ### One header -/

/-- The low words of the fields are in memory. -/
structure HeaderAt (mem image : Mem) (phdr off : Nat) : Prop where
  p_offset : load mem (phdr + 8) 4 = load image (off + 8) 4
  p_paddr : load mem (phdr + 24) 4 = load image (off + 24) 4
  p_filesz : load mem (phdr + 32) 4 = load image (off + 32) 4
  p_memsz : load mem (phdr + 40) 4 = load image (off + 40) 4

theorem headerAt_of_bytes {mem image : Mem} {phdr off : Nat}
    (h : ∀ k, k < 44 → mem (phdr + k) = image (off + k)) : HeaderAt mem image phdr off := by
  have hword : ∀ f, f + 4 ≤ 44 → load mem (phdr + f) 4 = load image (off + f) 4 := by
    intro f hf
    refine load_shift fun i hi => ?_
    rw [Nat.add_assoc, Nat.add_assoc]
    exact h (f + i) (by omega)
  exact ⟨hword 8 (by decide), hword 24 (by decide), hword 32 (by decide), hword 40 (by decide)⟩

theorem HeaderAt.congr {mem mem' image : Mem} {phdr off : Nat} (h : HeaderAt mem image phdr off)
    (hmem : ∀ x, phdr ≤ x → x < phdr + 44 → mem' x = mem x) : HeaderAt mem' image phdr off := by
  have hword : ∀ f, f + 4 ≤ 44 → load mem' (phdr + f) 4 = load mem (phdr + f) 4 := fun f hf =>
    load_congr fun x h1 h2 => hmem x (by omega) (by omega)
  exact ⟨(hword 8 (by decide)).trans h.p_offset, (hword 24 (by decide)).trans h.p_paddr,
    (hword 32 (by decide)).trans h.p_filesz, (hword 40 (by decide)).trans h.p_memsz⟩

variable (drive : Drive) (data : Nat) (sector : UInt32)

/-- `loadSegment` in terms of the header in the file. -/
theorem loadSegment_eq {mem image : Mem} {phdr off : Nat} (h : HeaderAt mem image phdr off) :
    loadSegment drive sector mem phdr =
      (k_readfile drive mem (UInt32.ofNat (phdrAt image off).p_paddr).toNat sector
        (UInt32.ofNat (phdrAt image off).p_offset) (UInt32.ofNat (phdrAt image off).p_filesz)).bind
      fun mem => .ok (k_memzero mem
        (UInt32.ofNat (load mem (phdr + 24) 4) + UInt32.ofNat (load mem (phdr + 32) 4)).toNat
        (UInt32.ofNat (load mem (phdr + 40) 4) - UInt32.ofNat (load mem (phdr + 32) 4))) := by
  unfold loadSegment phdrAt
  simp only [UInt32.ofNat_add, load_eight, h.p_offset, h.p_paddr, h.p_filesz]
  rfl

theorem loadSegment_idle {mem image : Mem} {phdr off : Nat} (h : HeaderAt mem image phdr off)
    (hidle : (phdrAt image off).Idle) : loadSegment drive sector mem phdr = .ok mem := by
  have hzero : ∀ {n : Nat}, n % 2 ^ 32 = 0 → UInt32.ofNat n = 0 := by
    intro n hn
    apply UInt32.toNat.inj
    rw [UInt32.toNat_ofNat', hn]
    rfl
  have hfile : UInt32.ofNat (load mem (phdr + 32) 4) = 0 := by
    rw [h.p_filesz, ← load_eight]
    exact hzero hidle.1
  have hmemsz : UInt32.ofNat (load mem (phdr + 40) 4) = 0 := by
    rw [h.p_memsz, ← load_eight]
    exact hzero hidle.2
  have hread : ∀ dst foff, k_readfile drive mem dst sector foff 0 = .ok mem := fun _ _ => rfl
  rw [loadSegment_eq drive sector h, hzero hidle.1, hread, Except.bind, hfile, hmemsz]
  rfl

theorem loadSegment_fits (hdata : SECTOR_DATA_START + 512 ≤ data) {mem : Mem} {phdr off : Nat}
    (hphdr : data ≤ phdr ∧ phdr + 44 ≤ data + 512)
    (h : HeaderAt mem (drive.byteAt sector) phdr off) {p : Phdr}
    (hp : p = phdrAt (drive.byteAt sector) off) (hfits : p.Fits data)
    (hpos : 0 < p.p_memsz) :
    ∃ mem', loadSegment drive sector mem phdr = .ok mem' ∧
      ∀ x, ¬ Buffers data x → mem' x = patched mem (p.segment (drive.byteAt sector)) x := by
  have hfile := hfits.filesz_le
  have hoff := hfits.offset
  have hpaddr := hfits.paddr
  obtain ⟨hscratch, hbuf⟩ := hfits.bounds hpos
  have hmemsz : p.p_memsz < 2 ^ 32 := by omega
  have hlow : ∀ {n}, n < 2 ^ 32 → (UInt32.ofNat n).toNat = n :=
    fun hn => UInt32.toNat_ofNat_of_lt' hn
  have hfilesz : (UInt32.ofNat p.p_filesz).toNat = p.p_filesz := hlow (by omega)
  have hoffset : (UInt32.ofNat p.p_offset).toNat = p.p_offset % 2 ^ 32 := UInt32.toNat_ofNat'
  obtain ⟨mem₂, hok, hin, hout⟩ := readfileLoop_reads drive SECTOR_DATA_START sector
    ((UInt32.ofNat p.p_filesz).toNat + 1) mem p.p_paddr (UInt32.ofNat p.p_offset)
    (UInt32.ofNat p.p_filesz) (Nat.lt_succ_self _) (by omega)
    (by unfold SECTOR_DATA_START; omega)
  rw [hfilesz] at hin hout
  unfold SECTOR_DATA_START at hdata hout
  -- the buffer still has the header
  have h₂ : HeaderAt mem₂ (drive.byteAt sector) phdr off :=
    h.congr fun x h1 h2 => hout x (by omega) (by omega)
  refine ⟨k_memzero mem₂ (UInt32.ofNat p.p_paddr + UInt32.ofNat p.p_filesz).toNat
    (UInt32.ofNat p.p_memsz - UInt32.ofNat p.p_filesz), ?_, fun x hx => ?_⟩
  · rw [loadSegment_eq drive sector h, ← hp, hlow (show p.p_paddr < 2 ^ 32 by omega), k_readfile, hok,
      Except.bind, h₂.p_paddr, h₂.p_filesz, h₂.p_memsz, ← load_eight, ← load_eight, ← load_eight, hp]
    rfl
  · rw [memzero_tail hfile hmemsz hpaddr, patched, Phdr.segment]
    unfold Buffers SECTOR_DATA_START at hx
    by_cases hcovers : p.Covers x
    · rw [if_pos hcovers, Option.getD_some]
      unfold Phdr.Covers at hcovers
      by_cases htail : p.p_paddr + p.p_filesz ≤ x
      · rw [if_pos ⟨htail, hcovers.2⟩, if_neg (by omega)]
      · have hbyte := hin (x - p.p_paddr) (by omega)
        rw [hoffset, Nat.mod_eq_of_lt (by omega), Nat.add_sub_cancel' hcovers.1] at hbyte
        rw [if_neg (by omega), if_pos (by omega), hbyte]
    · rw [if_neg hcovers, Option.getD_none]
      unfold Phdr.Covers at hcovers
      rw [if_neg (by omega), hout x (by omega) (by omega)]

/-- A header that the loader takes is in one sector, and its segment fits or there is none. -/
def Sound (image : Mem) (data off : Nat) : Prop :=
  (phdrAt image off).p_type % 2 = 1 →
    off % 512 ≤ 468 ∧
      ((phdrAt image off).Fits data ∨
        (phdrAt image off).Idle ∧ ((phdrAt image off).p_type = 1 → (phdrAt image off).p_memsz = 0))

theorem Phdr.effect_of_taken {p : Phdr} (h : p.Taken) (image : Mem) : p.effect image = p.segment image := by
  rw [effect, if_pos h]

theorem Phdr.effect_of_not_taken {p : Phdr} (h : ¬ p.Taken) (image : Mem) (x : Nat) :
    p.effect image x = none := by
  rw [effect, if_neg h]

/-- The buffer after the sector of the header is read. -/
theorem buffer_bytes (mem : Mem) (off : UInt32) {k : Nat} (hk : off.toNat % 512 + k < 512) :
    read_disk drive mem data (sector + off / SECTSIZE).toInt32
      (data + (off % SECTSIZE).toNat + k) = drive.byteAt sector (off.toNat + k) := by
  have hdiv : (off / SECTSIZE).toNat = off.toNat / 512 := UInt32.toNat_div _ _
  have hmod : (off % SECTSIZE).toNat = off.toNat % 512 := UInt32.toNat_mod _ _
  have hlen : (drive (sector + off / SECTSIZE).toInt32).toList.length = 512 := by simp
  have hbyte := drive.byteAt_sector sector (off / SECTSIZE) hk
  rw [hdiv, show 512 * (off.toNat / 512) + (off.toNat % 512 + k) = off.toNat + k by omega] at hbyte
  rw [hbyte, hmod, Nat.add_assoc, read_disk, write_apply_of_in _ _ _ (by omega),
    List.getD_eq_getElem?_getD, List.getElem?_eq_getElem (by omega), Option.getD_some]

theorem buffer_other (mem : Mem) (sect : Int32) {x : Nat} (hx : ¬ Buffers data x) :
    read_disk drive mem data sect x = mem x := by
  unfold Buffers at hx
  exact write_apply_of_out _ _ _ (by simp; omega)

/-- **One header**: its effect is laid over the memory. -/
theorem header_step (hdata : SECTOR_DATA_START + 512 ≤ data) (mem : Mem) (off : UInt32)
    (hsound : Sound (drive.byteAt sector) data off.toNat) :
    let mem₁ := read_disk drive mem data (sector + off / SECTSIZE).toInt32
    let phdr := data + (off % SECTSIZE).toNat
    ∃ mem', loadHeader drive sector mem₁ phdr = .ok mem' ∧
      ∀ x, ¬ Buffers data x → mem' x =
        patched mem ((phdrAt (drive.byteAt sector) off.toNat).effect (drive.byteAt sector)) x := by
  intro mem₁ phdr
  have hmod : (off % SECTSIZE).toNat = off.toNat % 512 := UInt32.toNat_mod _ _
  have hlt : off.toNat % 512 < 512 := Nat.mod_lt _ (by decide)
  have hbytes : ∀ k, off.toNat % 512 + k < 512 →
      mem₁ (phdr + k) = drive.byteAt sector (off.toNat + k) :=
    fun k hk => buffer_bytes drive data sector mem off hk
  have hother : ∀ x, ¬ Buffers data x → mem₁ x = mem x :=
    fun x hx => buffer_other drive data mem _ hx
  obtain ⟨p, hp⟩ : ∃ p, p = phdrAt (drive.byteAt sector) off.toNat := ⟨_, rfl⟩
  have htype : load mem₁ phdr 4 % 2 = p.p_type % 2 := by
    rw [hp, phdrAt, load_odd, load_odd]
    exact congrArg (·.toNat % 2) (hbytes 0 hlt)
  unfold Sound at hsound
  rw [← hp] at hsound ⊢
  unfold loadHeader
  by_cases hodd : p.p_type % 2 = 1
  · obtain ⟨hsector, hgood⟩ := hsound hodd
    rw [if_pos ((and_one_ne_iff _).mpr (htype.trans hodd))]
    have hheader : HeaderAt mem₁ (drive.byteAt sector) phdr off.toNat :=
      headerAt_of_bytes fun k hk => hbytes k (by omega)
    by_cases hidle : p.Idle
    · refine ⟨mem₁, loadSegment_idle drive sector hheader (hp ▸ hidle), fun x hx => ?_⟩
      rw [patched_of_none (p.effect_of_not_taken (fun h => h.2 hidle) _ x)]
      exact hother x hx
    · have hfits := hgood.resolve_right fun h => hidle h.1
      have hpos : 0 < p.p_memsz := by
        refine Nat.pos_of_ne_zero fun hzero => hidle ?_
        have hfile := hfits.filesz_le
        unfold Phdr.Idle
        omega
      obtain ⟨mem', hok, hmem'⟩ := loadSegment_fits drive data sector hdata
        (show data ≤ phdr ∧ phdr + 44 ≤ data + 512 by omega) hheader hp hfits hpos
      refine ⟨mem', hok, fun x hx => ?_⟩
      rw [hmem' x hx, p.effect_of_taken ⟨hodd, hidle⟩, patched, patched, hother x hx]
  · rw [if_neg (mt (and_one_ne_iff _).mp (by rw [htype]; exact hodd))]
    refine ⟨mem₁, rfl, fun x hx => ?_⟩
    rw [patched_of_none (p.effect_of_not_taken (fun h => hodd h.1) _ x)]
    exact hother x hx

/-! ### The loop -/

/-- The headers of a table from one on. -/
def headers (image : Mem) (phoff i n : Nat) : List Phdr :=
  (List.range' i n).map fun j => phdrAt image (phoff + 56 * j)

/-- **The loop lays the effects of the headers over the memory**, in their order. -/
theorem phdrLoop_lays (hdata : SECTOR_DATA_START + 512 ≤ data) (phoff : UInt32) (phnum : UInt16)
    (htable : phoff.toNat + 56 * phnum.toNat ≤ 2 ^ 32)
    (hsound : ∀ j, j < phnum.toNat → Sound (drive.byteAt sector) data (phoff.toNat + 56 * j)) :
    ∀ (fuel : Nat) (mem : Mem) (i : UInt16), phnum.toNat - i.toNat < fuel →
      ∃ mem', phdrLoop drive data sector phoff phnum fuel mem i = .ok mem' ∧
        ∀ x, ¬ Buffers data x → mem' x =
          lay ((headers (drive.byteAt sector) phoff.toNat i.toNat (phnum.toNat - i.toNat)).map
            (·.effect (drive.byteAt sector))) mem x := by
  intro fuel
  induction fuel with
  | zero => intro mem i hfuel; omega
  | succ fuel ih =>
      intro mem i hfuel
      rw [phdrLoop]
      by_cases hi : i < phnum
      · have hlt := UInt16.lt_iff_toNat_lt.mp hi
        have hmax := phnum.toNat_lt
        have h1 : (1 : UInt16).toNat = 1 := rfl
        have h56 : (56 : UInt32).toNat = 56 := rfl
        have hnext : (i + 1).toNat = i.toNat + 1 := by
          rw [UInt16.toNat_add]
          exact Nat.mod_eq_of_lt (by omega)
        have hoff : (phoff + i.toUInt32 * 56).toNat = phoff.toNat + 56 * i.toNat := by
          rw [UInt32.toNat_add, UInt32.toNat_mul, UInt16.toNat_toUInt32, h56]
          omega
        obtain ⟨mem₁, hok₁, hmem₁⟩ := header_step drive data sector hdata mem (phoff + i.toUInt32 * 56)
          (by rw [hoff]; exact hsound i.toNat hlt)
        obtain ⟨mem', hok, hmem'⟩ := ih mem₁ (i + 1) (by omega)
        refine ⟨mem', ?_, fun x hx => ?_⟩
        · rw [if_pos hi]
          simp only [hok₁, bind, Except.bind]
          exact hok
        · rw [hmem' x hx, hnext, show phnum.toNat - i.toNat = (phnum.toNat - (i.toNat + 1)) + 1 by omega,
            headers, headers, List.range'_succ, List.map_cons, List.map_cons, lay_cons, ← hoff]
          exact lay_congr (hmem₁ x hx)
      · have hge := UInt16.le_iff_toNat_le.mp (UInt16.not_lt.mp hi)
        rw [if_neg hi, Nat.sub_eq_zero_of_le hge]
        exact ⟨mem, rfl, fun x _ => rfl⟩

/-! ### The file -/

/-- The program headers of a file. -/
def table (image : Mem) : List Phdr := headers image (load image 32 8) 0 (load image 56 2)

/-- All headers that the loader takes are sound. -/
def SoundTable (image : Mem) (data : Nat) : Prop :=
  ∀ j, j < load image 56 2 → Sound image data (load image 32 8 + 56 * j)

variable {drive data sector}

/-- A field of the header of the file. -/
theorem elfHeader_eq (mem : Mem) {off w : Nat} (h : off + w ≤ 512) :
    load (read_disk drive mem data sector.toInt32) (data + off) w = load (drive.byteAt sector) off w := by
  refine load_shift fun i hi => ?_
  have h0 : (0 : UInt32).toNat = 0 := rfl
  have hbyte := buffer_bytes drive data sector mem 0 (k := off + i) (by omega)
  have hsector : sector + 0 / SECTSIZE = sector := UInt32.add_zero sector
  rw [hsector, h0, Nat.zero_add] at hbyte
  rw [Nat.add_assoc]
  exact hbyte

theorem elf_main_eq (mem : Mem) {phoff : UInt32} {phnum : UInt16}
    (hphoff : phoff = UInt32.ofNat (load (drive.byteAt sector) 32 8))
    (hphnum : phnum = UInt16.ofNat (load (drive.byteAt sector) 56 2)) :
    elf_main drive data sector mem =
      (phdrLoop drive data sector phoff phnum (phnum.toNat + 1)
        (read_disk drive mem data sector.toInt32) 0).bind
      fun mem => .ok (mem, UInt32.ofNat (load (drive.byteAt sector) 24 8)) := by
  unfold elf_main
  dsimp only
  rw [elfHeader_eq mem (by decide), elfHeader_eq mem (by decide), elfHeader_eq mem (by decide), ← hphoff,
    ← hphnum]
  rfl

/-- **The loader lays the effects of all headers over the memory.** -/
theorem elf_main_lays (hdata : SECTOR_DATA_START + 512 ≤ data)
    (htable : load (drive.byteAt sector) 32 8 + 56 * load (drive.byteAt sector) 56 2 ≤ 2 ^ 32)
    (hsound : SoundTable (drive.byteAt sector) data) (mem : Mem) :
    ∃ mem' entry, elf_main drive data sector mem = .ok (mem', entry) ∧
      ∀ x, ¬ Buffers data x → mem' x =
        lay ((table (drive.byteAt sector)).map (·.effect (drive.byteAt sector))) mem x := by
  obtain ⟨phoff, hphoff⟩ : ∃ n, n = UInt32.ofNat (load (drive.byteAt sector) 32 8) := ⟨_, rfl⟩
  obtain ⟨phnum, hphnum⟩ : ∃ n, n = UInt16.ofNat (load (drive.byteAt sector) 56 2) := ⟨_, rfl⟩
  have hnum : phnum.toNat = load (drive.byteAt sector) 56 2 := by
    rw [hphnum]
    exact UInt16.toNat_ofNat_of_lt' (load_lt _ 56 2)
  have hoff : phoff.toNat = load (drive.byteAt sector) 32 8 % 2 ^ 32 := by
    rw [hphoff]
    exact UInt32.toNat_ofNat'
  -- only an empty table can start at 4 GiB
  have hsame : 0 < phnum.toNat → phoff.toNat = load (drive.byteAt sector) 32 8 := by
    intro hpos
    rw [hoff]
    exact Nat.mod_eq_of_lt (by omega)
  obtain ⟨mem', hok, hmem'⟩ := phdrLoop_lays drive data sector hdata phoff phnum (by omega)
    (fun j hj => by
      rw [hsame (by omega)]
      exact hsound j (hnum ▸ hj))
    (phnum.toNat + 1) (read_disk drive mem data sector.toInt32) 0 (Nat.lt_succ_of_le (Nat.sub_le _ _))
  have hlist : headers (drive.byteAt sector) phoff.toNat 0 phnum.toNat = table (drive.byteAt sector) := by
    by_cases hpos : 0 < phnum.toNat
    · rw [table, hsame hpos, hnum]
    · rw [table, ← hnum, Nat.eq_zero_of_not_pos hpos, headers, headers, List.range'_zero, List.map_nil,
        List.map_nil]
  refine ⟨mem', UInt32.ofNat (load (drive.byteAt sector) 24 8), ?_, fun x hx => ?_⟩
  · rw [elf_main_eq mem hphoff hphnum, hok]
    rfl
  · rw [hmem' x hx, show (0 : UInt16).toNat = 0 from rfl, Nat.sub_zero, hlist]
    exact lay_congr (buffer_other drive data mem _ hx)

/-- A file whose segments are apart from each other and from the loader's buffers. -/
structure ElfFile (image : Mem) (data : Nat) : Prop where
  table_fits : load image 32 8 + 56 * load image 56 2 ≤ 2 ^ 32
  filesz_le : ∀ p ∈ table image, p.p_type = 1 → p.p_filesz ≤ p.p_memsz
  offset : ∀ p ∈ table image, p.p_type = 1 → p.p_offset + p.p_filesz ≤ 2 ^ 32
  apart : (table image).Pairwise fun p q => p.p_type = 1 → q.p_type = 1 →
    ∀ x, ¬ (p.Covers x ∧ q.Covers x)
  buffers : ∀ p ∈ table image, p.p_type = 1 → ∀ x, p.Covers x → ¬ Buffers data x

/-- The loader builds the image that the headers describe, whatever was in memory. -/
def LoadsSegments (drive : Drive) (data : Nat) (sector : UInt32) : Prop :=
  ∀ mem, ∃ mem' entry, elf_main drive data sector mem = .ok (mem', entry) ∧
    (∀ p ∈ table (drive.byteAt sector), p.p_type = 1 →
      read mem' p.p_paddr p.p_filesz = read (drive.byteAt sector) p.p_offset p.p_filesz ∧
        ∀ x, p.p_paddr + p.p_filesz ≤ x → x < p.p_paddr + p.p_memsz → mem' x = 0) ∧
    ∀ x, ¬ Buffers data x → (∀ p ∈ table (drive.byteAt sector), p.p_type = 1 → ¬ p.Covers x) →
      mem' x = mem x

/-! ### Other headers with an odd type -/

theorem Phdr.segment_eq_some {p : Phdr} {x : Nat} (h : p.Covers x) (image : Mem) :
    ∃ v, p.segment image x = some v := by
  rw [segment, if_pos h]
  exact ⟨_, rfl⟩

theorem Phdr.covers_of_segment {p : Phdr} {image : Mem} {x : Nat} {v : UInt8}
    (h : p.segment image x = some v) : p.Covers x := by
  by_contra hne
  rw [segment, if_neg hne] at h
  cases h

theorem Phdr.effect_eq_none_iff {p : Phdr} {image : Mem} {x : Nat} :
    p.effect image x = none ↔ ¬ (p.Taken ∧ p.Covers x) := by
  constructor
  · rintro h ⟨htaken, hcovers⟩
    obtain ⟨v, hv⟩ := segment_eq_some hcovers image
    rw [effect_of_taken htaken, hv] at h
    cases h
  · intro h
    by_cases htaken : p.Taken
    · rw [effect_of_taken htaken, segment, if_neg fun hcovers => h ⟨htaken, hcovers⟩]
    · exact effect_of_not_taken htaken image x

/-- A segment is in memory. -/
theorem Phdr.loaded_iff {p : Phdr} {image mem : Mem} (hfile : p.p_filesz ≤ p.p_memsz) :
    (read mem p.p_paddr p.p_filesz = read image p.p_offset p.p_filesz ∧
        ∀ x, p.p_paddr + p.p_filesz ≤ x → x < p.p_paddr + p.p_memsz → mem x = 0) ↔
      ∀ x, p.Covers x → p.segment image x = some (mem x) := by
  constructor
  · rintro ⟨hread, hzero⟩ x hx
    rw [segment, if_pos hx]
    unfold Covers at hx
    by_cases htail : x < p.p_paddr + p.p_filesz
    · have hbyte := eq_of_read hread (show x - p.p_paddr < p.p_filesz by omega)
      rw [if_pos htail, ← hbyte, Nat.add_sub_cancel' hx.1]
    · rw [if_neg htail, hzero x (Nat.le_of_not_lt htail) hx.2]
  · intro h
    refine ⟨read_shift fun i hi => ?_, fun x h1 h2 => ?_⟩
    · have hx : p.Covers (p.p_paddr + i) := ⟨Nat.le_add_right _ _, by omega⟩
      have hbyte := h _ hx
      rw [segment, if_pos hx, if_pos (by omega), Nat.add_sub_cancel_left] at hbyte
      exact (Option.some.inj hbyte).symm
    · have hx : p.Covers x := ⟨by omega, h2⟩
      have hbyte := h _ hx
      rw [segment, if_pos hx, if_neg (by omega)] at hbyte
      exact (Option.some.inj hbyte).symm

/-- Where a header that is not one of a segment has a byte, a later header has one too or the
segment there has the same. -/
def Harmless (image : Mem) : Prop :=
  ∀ ps p qs, table image = ps ++ p :: qs → p.Taken → p.p_type ≠ 1 → ∀ x, p.Covers x →
    (∃ q ∈ qs, q.Taken ∧ q.Covers x) ∨
      ∃ q ∈ table image, q.p_type = 1 ∧ q.segment image x = p.segment image x

variable {image : Mem}

theorem SoundTable.at_mem (h : SoundTable image data) {p : Phdr} (hp : p ∈ table image)
    (hodd : p.p_type % 2 = 1) :
    p.Fits data ∨ p.Idle ∧ (p.p_type = 1 → p.p_memsz = 0) := by
  obtain ⟨j, hj, rfl⟩ := List.mem_map.mp hp
  obtain ⟨i, hi, rfl⟩ := List.mem_range'.mp hj
  rw [Nat.zero_add, Nat.one_mul] at hodd ⊢
  exact (h i hi hodd).2

theorem SoundTable.fits (h : SoundTable image data) {p : Phdr} (hp : p ∈ table image) (htaken : p.Taken) :
    p.Fits data :=
  (h.at_mem hp htaken.1).resolve_right fun hidle => htaken.2 hidle.1

/-- The headers of segments that are not empty are taken. -/
theorem SoundTable.taken (h : SoundTable image data) {p : Phdr} (hp : p ∈ table image) (htype : p.p_type = 1)
    {x : Nat} (hx : p.Covers x) : p.Taken := by
  have hodd : p.p_type % 2 = 1 := by rw [htype]
  have hpos : p.p_memsz ≠ 0 := by
    unfold Phdr.Covers at hx
    omega
  rcases h.at_mem hp hodd with hfits | ⟨-, hempty⟩
  · obtain ⟨-, -, -, hidle⟩ := hfits.idle_or.resolve_left hpos
    exact ⟨hodd, hidle⟩
  · exact absurd (hempty htype) hpos

/-- The last header taken that covers an address decides its byte. -/
theorem lay_of_split {ps qs : List Phdr} {p : Phdr} (htable : table image = ps ++ p :: qs)
    (htaken : p.Taken) {x : Nat} {v : UInt8} (hv : p.segment image x = some v)
    (hlast : ∀ q ∈ qs, ¬ (q.Taken ∧ q.Covers x)) (mem : Mem) :
    lay ((table image).map (·.effect image)) mem x = v := by
  have heffect : p.effect image x = some v := by rw [p.effect_of_taken htaken, hv]
  rw [htable, List.map_append, List.map_cons]
  refine lay_of_last heffect (fun e he => ?_) mem
  obtain ⟨q, hq, rfl⟩ := List.mem_map.mp he
  exact Phdr.effect_eq_none_iff.mpr (hlast q hq)

/-- With no harmful header, what the headers put at an address is the byte of a segment. -/
theorem Harmless.lay (hharm : Harmless image) {x : Nat} (h : ∃ p ∈ table image, p.Taken ∧ p.Covers x)
    (mem : Mem) :
    ∃ q ∈ table image, q.p_type = 1 ∧
      q.segment image x = some (Overlay.lay ((table image).map (·.effect image)) mem x) := by
  obtain ⟨p, hp, hcovered⟩ := h
  obtain ⟨ps, p, qs, v, htable, hv, hnone⟩ := exists_last (·.effect image)
    ⟨p, hp, fun hnone => Phdr.effect_eq_none_iff.mp hnone hcovered⟩
  have htaken : p.Taken := by
    by_contra hne
    rw [p.effect_of_not_taken hne] at hv
    cases hv
  rw [p.effect_of_taken htaken] at hv
  have hlast : ∀ q ∈ qs, ¬ (q.Taken ∧ q.Covers x) :=
    fun q hq => Phdr.effect_eq_none_iff.mp (hnone q hq)
  rw [lay_of_split htable htaken hv hlast]
  by_cases htype : p.p_type = 1
  · exact ⟨p, by rw [htable]; exact List.mem_append_right _ List.mem_cons_self, htype, hv⟩
  · rcases hharm ps p qs htable htaken htype x (Phdr.covers_of_segment hv) with
      ⟨q, hq, hlater⟩ | ⟨q, hq, h1, hsame⟩
    · exact absurd hlater (hlast q hq)
    · exact ⟨q, hq, h1, hsame.trans hv⟩

theorem ElfFile.unique (h : ElfFile image data) {p q : Phdr} (hp : p ∈ table image) (hq : q ∈ table image)
    (hp1 : p.p_type = 1) (hq1 : q.p_type = 1) {x : Nat} (hpx : p.Covers x) (hqx : q.Covers x) : p = q := by
  by_contra hne
  have hsymm : Std.Symm fun p q : Phdr => p.p_type = 1 → q.p_type = 1 →
      ∀ x, ¬ (p.Covers x ∧ q.Covers x) :=
    ⟨fun p q hpq hq1 hp1 x hx => hpq hp1 hq1 x hx.symm⟩
  exact h.apart.forall hp hq hne hp1 hq1 x ⟨hpx, hqx⟩

theorem loadsSegments_of_harmless (hdata : SECTOR_DATA_START + 512 ≤ data)
    (h : ElfFile (drive.byteAt sector) data) (hsound : SoundTable (drive.byteAt sector) data)
    (hharm : Harmless (drive.byteAt sector)) : LoadsSegments drive data sector := by
  intro mem
  obtain ⟨mem', entry, hok, hmem'⟩ := elf_main_lays hdata h.table_fits hsound mem
  refine ⟨mem', entry, hok, fun p hp h1 => ?_, fun x hx hnone => ?_⟩
  · refine (Phdr.loaded_iff (h.filesz_le p hp h1)).mpr fun x hx => ?_
    obtain ⟨q, hq, hq1, hv⟩ := hharm.lay ⟨p, hp, hsound.taken hp h1 hx, hx⟩ mem
    rw [hmem' x (h.buffers p hp h1 x hx), h.unique hp hq h1 hq1 hx (Phdr.covers_of_segment hv)]
    exact hv
  · rw [hmem' x hx]
    refine lay_of_none (fun e he => ?_) mem
    obtain ⟨p, hp, rfl⟩ := List.mem_map.mp he
    refine Phdr.effect_eq_none_iff.mpr fun hcovered => ?_
    obtain ⟨q, hq, hq1, hv⟩ := hharm.lay ⟨p, hp, hcovered⟩ mem
    exact hnone q hq hq1 (Phdr.covers_of_segment hv)

theorem LoadsSegments.harmless (hdata : SECTOR_DATA_START + 512 ≤ data)
    (h : ElfFile (drive.byteAt sector) data) (hsound : SoundTable (drive.byteAt sector) data)
    (hloads : LoadsSegments drive data sector) : Harmless (drive.byteAt sector) := by
  intro ps p qs htable htaken htype x hx
  by_cases hlater : ∃ q ∈ qs, q.Taken ∧ q.Covers x
  · exact .inl hlater
  have hp : p ∈ table (drive.byteAt sector) := by
    rw [htable]
    exact List.mem_append_right _ List.mem_cons_self
  obtain ⟨v, hv⟩ := Phdr.segment_eq_some hx (drive.byteAt sector)
  -- a memory that has another byte there
  obtain ⟨mem', entry, hok, hsegments, hframe⟩ := hloads fun _ => v + 1
  obtain ⟨mem₂, entry₂, hok₂, hmem₂⟩ := elf_main_lays hdata h.table_fits hsound fun _ => v + 1
  have hsame : mem' = mem₂ := congrArg Prod.fst (Except.ok.inj (hok.symm.trans hok₂))
  have hbuffers : ¬ Buffers data x := (hsound.fits hp htaken).apart x hx
  have hbyte : mem' x = v := by
    rw [hsame, hmem₂ x hbuffers]
    exact lay_of_split htable htaken hv (fun q hq hcovers => hlater ⟨q, hq, hcovers⟩) _
  right
  by_contra hnone
  have huncovered : ∀ q ∈ table (drive.byteAt sector), q.p_type = 1 → ¬ q.Covers x := by
    intro q hq h1 hqx
    refine hnone ⟨q, hq, h1, ?_⟩
    rw [(Phdr.loaded_iff (h.filesz_le q hq h1)).mp (hsegments q hq h1) x hqx, hbyte, hv]
  exact add_one_ne v ((hframe x hbuffers huncovered).symm.trans hbyte)

/-- **The loader builds the image of a sound table** if and only if the headers of other types are
harmless. -/
theorem loadsSegments_iff (hdata : SECTOR_DATA_START + 512 ≤ data)
    (h : ElfFile (drive.byteAt sector) data) (hsound : SoundTable (drive.byteAt sector) data) :
    LoadsSegments drive data sector ↔ Harmless (drive.byteAt sector) :=
  ⟨fun hloads => hloads.harmless hdata h hsound, loadsSegments_of_harmless hdata h hsound⟩

/-! ### Small files -/

def kernelSegment : Phdr := ⟨1, 0, 0x100000, 64, 128⟩

/-- The stack, of type `PT_GNU_STACK`: there is nothing to load. -/
def stackSegment : Phdr := ⟨0x6474e551, 0, 0, 0, 0⟩

/-- The name of an interpreter, of type `PT_INTERP`. -/
def interpSegment : Phdr := ⟨3, 0, 0x200000, 1, 1⟩

def storePhdr (m : Mem) (off : Nat) (p : Phdr) : Mem :=
  let m := store m off 4 p.p_type
  let m := store m (off + 8) 8 p.p_offset
  let m := store m (off + 24) 8 p.p_paddr
  let m := store m (off + 32) 8 p.p_filesz
  store m (off + 40) 8 p.p_memsz

/-- A file with two program headers, behind the header of the file. -/
def smallElf (p : Phdr) : Mem :=
  let m := store (fun _ => 0) 32 8 64
  let m := store m 56 2 2
  storePhdr (storePhdr m 64 kernelSegment) 120 p

/-- What the loader reads of such a file. -/
structure TwoHeaders (image : Mem) (p : Phdr) : Prop where
  phoff : load image 32 8 = 64
  phnum : load image 56 2 = 2
  first : phdrAt image 64 = kernelSegment
  second : phdrAt image 120 = p

theorem phdrAt_imageDrive (image : Mem) {off : Nat} (hoff : off + 48 ≤ 2 ^ 32) :
    phdrAt ((imageDrive image).byteAt 539) off = phdrAt image off := by
  unfold phdrAt
  rw [load_imageDrive image (by omega), load_imageDrive image (by omega), load_imageDrive image (by omega),
    load_imageDrive image (by omega), load_imageDrive image (by omega)]

theorem not_buffers_of_high {x : Nat} (hx : 0x100000 ≤ x) : ¬ Buffers 0x9000 x := by
  unfold Buffers SECTOR_DATA_START
  omega

namespace TwoHeaders

variable {p : Phdr}

theorem imageDrive (h : TwoHeaders image p) : TwoHeaders ((imageDrive image).byteAt 539) p :=
  ⟨(load_imageDrive image (by decide)).trans h.phoff, (load_imageDrive image (by decide)).trans h.phnum,
    (phdrAt_imageDrive image (by decide)).trans h.first,
    (phdrAt_imageDrive image (by decide)).trans h.second⟩

theorem table_eq (h : TwoHeaders image p) : table image = [kernelSegment, p] := by
  unfold table headers
  rw [h.phoff, h.phnum, ← h.first, ← h.second]
  rfl

theorem elfFile (h : TwoHeaders image p) (htype : p.p_type ≠ 1) : ElfFile image 0x9000 := by
  have honly : ∀ q ∈ table image, q.p_type = 1 → q = kernelSegment := by
    intro q hq h1
    rw [h.table_eq] at hq
    rcases List.mem_cons.mp hq with rfl | hq
    · rfl
    · exact absurd (List.mem_singleton.mp hq ▸ h1) htype
  refine ⟨?_, fun q hq h1 => ?_, fun q hq h1 => ?_, ?_, fun q hq h1 x hx => ?_⟩
  · rw [h.phoff, h.phnum]
    decide
  · rw [honly q hq h1]
    decide
  · rw [honly q hq h1]
    decide
  · rw [h.table_eq]
    refine List.pairwise_pair.mpr fun _ h1 => absurd h1 htype
  · rw [honly q hq h1] at hx
    exact not_buffers_of_high hx.1

theorem soundTable (h : TwoHeaders image p) (hp : p.Fits 0x9000 ∨ p.Idle) (htype : p.p_type ≠ 1) :
    SoundTable image 0x9000 := by
  have hkernel : kernelSegment.Fits 0x9000 :=
    ⟨by decide, by decide, by decide, fun _ hx => not_buffers_of_high hx.1⟩
  intro j hj
  rw [h.phnum] at hj
  rw [h.phoff]
  unfold Sound
  match j with
  | 0 =>
      rw [h.first]
      exact fun _ => ⟨by decide, .inl hkernel⟩
  | 1 =>
      rw [h.second]
      exact fun _ => ⟨by decide, hp.imp_right fun hidle => ⟨hidle, fun h1 => absurd h1 htype⟩⟩

end TwoHeaders

/-- A kernel and a stack. -/
theorem loadsSegments_stack : LoadsSegments (imageDrive (smallElf stackSegment)) 0x9000 539 := by
  have h : TwoHeaders ((imageDrive (smallElf stackSegment)).byteAt 539) stackSegment :=
    TwoHeaders.imageDrive ⟨rfl, rfl, rfl, rfl⟩
  have hidle : stackSegment.Idle := by decide
  refine (loadsSegments_iff (by decide) (h.elfFile (by decide))
    (h.soundTable (.inr hidle) (by decide))).mpr ?_
  intro ps q qs htable htaken htype
  have hq : q ∈ [kernelSegment, stackSegment] := by
    rw [← h.table_eq, htable]
    exact List.mem_append_right _ List.mem_cons_self
  rcases List.mem_pair.mp hq with rfl | rfl
  · exact absurd rfl htype
  · exact absurd hidle htaken.2

/-- A kernel and an interpreter. -/
theorem loadsSegments_not_all :
    ¬ ∀ (drive : Drive) (data : Nat) (sector : UInt32), SECTOR_DATA_START + 512 ≤ data →
        ElfFile (drive.byteAt sector) data → LoadsSegments drive data sector := by
  intro hall
  have h : TwoHeaders ((imageDrive (smallElf interpSegment)).byteAt 539) interpSegment :=
    TwoHeaders.imageDrive ⟨rfl, rfl, rfl, rfl⟩
  have hfits : interpSegment.Fits 0x9000 := by
    refine ⟨by decide, by decide, by decide, fun x hx => not_buffers_of_high ?_⟩
    exact Nat.le_trans (show 0x100000 ≤ interpSegment.p_paddr by decide) hx.1
  have hfile := h.elfFile (by decide)
  have hloads := hall _ 0x9000 539 (by decide) hfile
  rcases hloads.harmless (by decide) hfile (h.soundTable (.inl hfits) (by decide)) [kernelSegment]
    interpSegment [] h.table_eq (by decide) (by decide) 0x200000 (by decide) with
    ⟨q, hq, -⟩ | ⟨q, hq, h1, hsame⟩
  · exact absurd hq List.not_mem_nil
  · rw [h.table_eq] at hq
    rcases List.mem_pair.mp hq with rfl | rfl
    · cases hsame
    · exact absurd h1 (by decide)

end LinuxUtil.Bootloader
