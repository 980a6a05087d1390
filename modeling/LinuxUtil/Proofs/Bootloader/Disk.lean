/-
Reading a disk through the ports of its controller.

`Ata` is what is asked of the controller, of the state of which a driver knows the registers it has
written, the words that wait at the data port and whether the controller may be busy.  A read
then brings in the sector that the registers name: the 28 low bits of the sector number,
and the next bit selects the drive.  Behind a read the controller is as it has to be
before one, so any sequence of reads brings in the sectors it asks for.
-/
import LinuxUtil.Bootloader.Disk
import LinuxUtil.Lib.Except
import LinuxUtil.Proofs.Bootloader.Readfile

namespace LinuxUtil.Bootloader

open ByteMem

/-! ### The controller -/

/-- The words of a sector. -/
def words : List UInt8 → List UInt32
  | a :: b :: c :: d :: rest => UInt32.ofNat (leNat [a, b, c, d]) :: words rest
  | _ => []

/-- The registers, the words that wait, and whether the controller may be busy. -/
structure View where
  count : UInt8
  lba0 : UInt8
  lba1 : UInt8
  lba2 : UInt8
  device : UInt8
  words : List UInt32
  busy : Bool

namespace View

/-- The sector number in the registers. -/
def sector (v : View) : Nat :=
  v.lba0.toNat + 256 * v.lba1.toNat + 65536 * v.lba2.toNat + 16777216 * (v.device &&& 0x0f).toNat

/-- Whether the second drive is selected. -/
def second (v : View) : Bool := v.device &&& 0x10 ≠ 0

/-- Ready for a command. -/
structure Idle (v : View) : Prop where
  words : v.words = []
  busy : v.busy = false

end View

variable {σ : Type}

/-- A controller for two drives with these sectors. -/
structure Ata (io : Ports σ) (sectors : Bool → Nat → Vector UInt8 512) where
  /-- What is known of a state. -/
  At : σ → View → Prop
  /-- How often it will still say that it is busy. -/
  patience : σ → Nat
  poll : ∀ {s v}, At s v →
    ((io.inb 0x1f7 s).1 &&& 0xc0 = 0x40 ∧ At (io.inb 0x1f7 s).2 { v with busy := false })
      ∨ ((io.inb 0x1f7 s).1 &&& 0xc0 ≠ 0x40 ∧ At (io.inb 0x1f7 s).2 v
        ∧ patience (io.inb 0x1f7 s).2 < patience s)
  count : ∀ {s v}, At s v → v.Idle → ∀ b, At (io.outb 0x1f2 b s) { v with count := b }
  lba0 : ∀ {s v}, At s v → v.Idle → ∀ b, At (io.outb 0x1f3 b s) { v with lba0 := b }
  lba1 : ∀ {s v}, At s v → v.Idle → ∀ b, At (io.outb 0x1f4 b s) { v with lba1 := b }
  lba2 : ∀ {s v}, At s v → v.Idle → ∀ b, At (io.outb 0x1f5 b s) { v with lba2 := b }
  device : ∀ {s v}, At s v → v.Idle → ∀ b, At (io.outb 0x1f6 b s) { v with device := b }
  /-- The command to read one sector, by its number. -/
  read : ∀ {s v}, At s v → v.Idle → v.count = 1 → v.device &&& 0x40 ≠ 0 →
    At (io.outb 0x1f7 0x20 s)
      { v with words := Bootloader.words (sectors v.second v.sector).toList, busy := true }
  data : ∀ {s v w ws}, At s v → v.busy = false → v.words = w :: ws →
    (io.inl 0x1f0 s).1 = w ∧ At (io.inl 0x1f0 s).2 { v with words := ws }

/-! ### Registers -/

/-- A byte of a number, above the lowest. -/
theorem toNat_byteAbove (x : BitVec 32) :
    (x.sshiftRight 8).toNat % 256 = x.toNat / 256 % 256
      ∧ (x.sshiftRight 16).toNat % 256 = x.toNat / 65536 % 256
      ∧ (x.sshiftRight 24).toNat % 256 = x.toNat / 16777216 % 256 := by
  have hlt := x.isLt
  simp only [BitVec.sshiftRight_eq, BitVec.toNat_ofInt, Int.shiftRight_eq_div_pow,
    BitVec.toInt_eq_toNat_cond]
  refine ⟨?_, ?_, ?_⟩ <;> split <;> omega

theorem device_bits : ∀ n : Fin 256, (UInt8.ofNat n ||| 0xE0) &&& 0x40 ≠ 0
    ∧ ((UInt8.ofNat n ||| 0xE0) &&& 0x0f).toNat = n % 16
    ∧ ((UInt8.ofNat n ||| 0xE0) &&& 0x10 ≠ 0 ↔ n.val / 16 % 2 = 1) := by
  decide +kernel

/-- The registers that `read_disk` writes. -/
def asked (sect : Int32) (v : View) : View where
  count := 1
  lba0 := sect.toUInt32.toUInt8
  lba1 := (sect >>> 8).toUInt32.toUInt8
  lba2 := (sect >>> 16).toUInt32.toUInt8
  device := (sect >>> 24).toUInt32.toUInt8 ||| 0xE0
  words := v.words
  busy := v.busy

/-- The drive behind the ports. -/
def portDrive (sectors : Bool → Nat → Vector UInt8 512) : Drive := fun sect =>
  sectors (sect.toUInt32.toNat / 2 ^ 28 % 2 = 1) (sect.toUInt32.toNat % 2 ^ 28)

theorem asked_selects (sect : Int32) (v : View) : (asked sect v).device &&& 0x40 ≠ 0
    ∧ (asked sect v).sector = sect.toUInt32.toNat % 2 ^ 28
    ∧ (asked sect v).second = decide (sect.toUInt32.toNat / 2 ^ 28 % 2 = 1) := by
  obtain ⟨h8, h16, h24⟩ := toNat_byteAbove sect.toBitVec
  have hx : sect.toBitVec.toNat = sect.toUInt32.toNat := rfl
  rw [hx] at h8 h16 h24
  have h0 : (asked sect v).lba0.toNat = sect.toUInt32.toNat % 256 := UInt32.toNat_toUInt8 _
  have h1 : (asked sect v).lba1.toNat = sect.toUInt32.toNat / 256 % 256 := h8
  have h2 : (asked sect v).lba2.toNat = sect.toUInt32.toNat / 65536 % 256 := h16
  have hlt : sect.toUInt32.toNat / 16777216 % 256 < 256 := Nat.mod_lt _ (by decide)
  have hd : (asked sect v).device = UInt8.ofNat (sect.toUInt32.toNat / 16777216 % 256) ||| 0xE0 := by
    have hbyte : (sect >>> 24).toUInt32.toUInt8 = UInt8.ofNat (sect.toUInt32.toNat / 16777216 % 256) := by
      rw [← UInt8.toNat_inj, UInt8.toNat_ofNat', Nat.mod_eq_of_lt hlt]
      exact h24
    exact congrArg (· ||| 0xE0) hbyte
  obtain ⟨hlba, hlow, hsecond⟩ := device_bits ⟨_, hlt⟩
  rw [← hd] at hlba hlow hsecond
  refine ⟨hlba, ?_, ?_⟩
  · unfold View.sector
    rw [h0, h1, h2, hlow]
    dsimp only
    omega
  · unfold View.second
    rw [decide_eq_decide, hsecond]
    dsimp only
    omega

/-! ### Words -/

section Driver

variable {io : Ports σ} {sectors : Bool → Nat → Vector UInt8 512} (ata : Ata io sectors)

/-- The words are brought in, and no others. -/
theorem Ata.inlLoop (bytes : List UInt8) : bytes.length % 4 = 0 →
    ∀ {s : σ} {v : View} (mem : Mem) (buf : Nat), ata.At s v → v.busy = false → v.words = words bytes →
    ∃ s', inlLoop io (bytes.length / 4) mem buf s = (write mem buf bytes, s')
      ∧ ata.At s' { v with words := [] } := by
  induction bytes using words.induct with
  | case1 a b c d rest ih =>
      intro hlen s v mem buf hs hbusy hwords
      have hcount : (a :: b :: c :: d :: rest).length / 4 = rest.length / 4 + 1 := by
        simp only [List.length_cons]
        omega
      have hrest : rest.length % 4 = 0 := by
        simp only [List.length_cons] at hlen
        omega
      obtain ⟨hw, hs'⟩ := ata.data hs hbusy hwords
      obtain ⟨s'', hloop, hs''⟩ := ih hrest (store mem buf 4 (io.inl 0x1f0 s).1.toNat) (buf + 4) hs' hbusy rfl
      refine ⟨s'', ?_, hs''⟩
      have hlt : leNat [a, b, c, d] < 2 ^ 32 := Nat.lt_of_lt_of_eq (leNat_lt [a, b, c, d])
        (show 256 ^ 4 = 2 ^ 32 by decide)
      have hstore : store mem buf 4 (io.inl 0x1f0 s).1.toNat = write mem buf [a, b, c, d] := by
        rw [hw, UInt32.toNat_ofNat_of_lt' hlt]
        exact congrArg (write mem buf) (leBytes_leNat [a, b, c, d])
      have hwhole : a :: b :: c :: d :: rest = [a, b, c, d] ++ rest := rfl
      have hround : ∀ n, Bootloader.inlLoop io (n + 1) mem buf s = Bootloader.inlLoop io n
          (store mem buf 4 (io.inl 0x1f0 s).1.toNat) (buf + 4) (io.inl 0x1f0 s).2 := fun _ => rfl
      rw [hcount, hround, hstore, hwhole, write_append]
      rw [hstore] at hloop
      exact hloop
  | case2 bytes h =>
      intro hlen s v mem buf hs _ hwords
      have hnil : bytes = [] := by
        rcases bytes with _ | ⟨a, _ | ⟨b, _ | ⟨c, _ | ⟨d, rest⟩⟩⟩⟩
        · rfl
        all_goals simp at hlen
        exact (h a b c d rest rfl).elim
      subst hnil
      refine ⟨s, ?_, ?_⟩
      · rw [write_nil]
        rfl
      · have hview : v = { v with words := [] } := by rw [← show v.words = [] from hwords]
        exact hview ▸ hs

/-- `wait_disk` ends when the controller has had enough looks, and no more are taken. -/
theorem Ata.wait : ∀ (n : Nat) {s : σ} {v : View}, ata.At s v → ata.patience s ≤ n →
    ∃ s', (∀ fuel, n < fuel → wait_disk io fuel s = .ok s') ∧ ata.At s' { v with busy := false } := by
  intro n
  induction n with
  | zero =>
      intro s v hs hn
      rcases ata.poll hs with ⟨hready, hs'⟩ | ⟨-, -, hlt⟩
      · refine ⟨_, fun fuel hfuel => ?_, hs'⟩
        obtain ⟨fuel, rfl⟩ := Nat.exists_eq_succ_of_ne_zero (Nat.ne_of_gt hfuel)
        exact if_neg (not_not.mpr hready)
      · omega
  | succ n ih =>
      intro s v hs hn
      rcases ata.poll hs with ⟨hready, hs'⟩ | ⟨hbusy, hs', hlt⟩
      · refine ⟨_, fun fuel hfuel => ?_, hs'⟩
        obtain ⟨fuel, rfl⟩ := Nat.exists_eq_succ_of_ne_zero (show fuel ≠ 0 by omega)
        exact if_neg (not_not.mpr hready)
      · obtain ⟨s'', hwait, hs''⟩ := ih hs' (by omega)
        refine ⟨s'', fun fuel hfuel => ?_, hs''⟩
        obtain ⟨fuel, rfl⟩ := Nat.exists_eq_succ_of_ne_zero (show fuel ≠ 0 by omega)
        rw [← hwait fuel (by omega)]
        exact if_pos hbusy

/-- The registers name the sector, and the command brings its words. -/
theorem Ata.commandRead (sect : Int32) {s : σ} {v : View} (hs : ata.At s v) (hidle : v.Idle) :
    ata.At (commandRead io sect s)
      { asked sect v with words := words (portDrive sectors sect).toList, busy := true } := by
  obtain ⟨hlba, hsector, hsecond⟩ := asked_selects sect v
  have h := ata.device (ata.lba2 (ata.lba1 (ata.lba0 (ata.count hs hidle 1) ⟨hidle.words, hidle.busy⟩
    sect.toUInt32.toUInt8) ⟨hidle.words, hidle.busy⟩ (sect >>> 8).toUInt32.toUInt8)
    ⟨hidle.words, hidle.busy⟩ (sect >>> 16).toUInt32.toUInt8) ⟨hidle.words, hidle.busy⟩
    ((sect >>> 24).toUInt32.toUInt8 ||| 0xE0)
  have hread := @Ata.read _ _ _ ata _ (asked sect v) h ⟨hidle.words, hidle.busy⟩ rfl hlba
  rw [hsector, hsecond] at hread
  exact hread

/-- **A read through the ports**: the sector comes in, and the controller is idle again. -/
theorem Ata.readPorts (mem : Mem) (buf : Nat) (sect : Int32) {s : σ} {v : View} (hs : ata.At s v)
    (hwords : v.words = []) : ∃ rounds s' v',
      (∀ fuel, rounds ≤ fuel →
        readPorts io fuel mem buf sect s = .ok (read_disk (portDrive sectors) mem buf sect, s'))
      ∧ ata.At s' v' ∧ v'.words = [] := by
  obtain ⟨s₁, hwait₁, hs₁⟩ := ata.wait _ hs (Nat.le_refl _)
  have hs₂ := ata.commandRead sect hs₁ ⟨hwords, rfl⟩
  obtain ⟨s₃, hwait₃, hs₃⟩ := ata.wait _ hs₂ (Nat.le_refl _)
  have hlen : (portDrive sectors sect).toList.length = 512 := Vector.length_toList
  obtain ⟨s₄, hloop, hs₄⟩ := ata.inlLoop (portDrive sectors sect).toList (by rw [hlen]) mem buf hs₃ rfl rfl
  rw [hlen] at hloop
  refine ⟨max (ata.patience s + 1) (ata.patience (Bootloader.commandRead io sect s₁) + 1), s₄, _,
    fun fuel hfuel => ?_, hs₄, rfl⟩
  unfold Bootloader.readPorts
  rw [hwait₁ fuel (by omega), Except.ok_bind]
  dsimp only
  rw [hwait₃ fuel (by omega), Except.ok_bind]
  exact congrArg Except.ok hloop

theorem Ata.readsPorts : ∀ (reads : List (Nat × Int32)) (mem : Mem) {s : σ} {v : View}, ata.At s v →
    v.words = [] → ∃ rounds s' v',
      (∀ fuel, rounds ≤ fuel → readsPorts io fuel reads mem s
        = .ok (reads.foldl (fun mem r => read_disk (portDrive sectors) mem r.1 r.2) mem, s'))
      ∧ ata.At s' v' ∧ v'.words = [] := by
  intro reads
  induction reads with
  | nil => intro mem s v hs hwords; exact ⟨0, s, v, fun _ _ => rfl, hs, hwords⟩
  | cons r reads ih =>
      intro mem s v hs hwords
      obtain ⟨n₁, s₁, v₁, hread, hs₁, hwords₁⟩ := ata.readPorts mem r.1 r.2 hs hwords
      obtain ⟨n₂, s₂, v₂, hreads, hs₂, hwords₂⟩ := ih (read_disk (portDrive sectors) mem r.1 r.2) hs₁ hwords₁
      refine ⟨max n₁ n₂, s₂, v₂, fun fuel hfuel => ?_, hs₂, hwords₂⟩
      unfold Bootloader.readsPorts
      rw [hread fuel (by omega), Except.ok_bind]
      exact hreads fuel (by omega)

end Driver

/-! ### Which sectors come in -/

structure Controller where
  view : View
  left : Nat

/-- It may be busy only if it is said to be. -/
def Controller.Shows (c : Controller) (v : View) : Prop :=
  ∃ busy, v = { c.view with busy := busy } ∧ (busy = false → c.left = 0)

end LinuxUtil.Bootloader
