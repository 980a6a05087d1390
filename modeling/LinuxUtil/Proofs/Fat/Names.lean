/-
The name in a directory entry.

The second loop that copies a name starts at the dot and not behind it: an extension is
stored with its dot, in a field of three bytes, and the attributes are then stored over
what sticks out.  `nameField_eq` says what is left, and `names_iff` that names without an
extension are the ones that are stored as such.
-/
import LinuxUtil.Lib.Words
import LinuxUtil.Proofs.Fat.Accept

namespace LinuxUtil.Fat

open ByteMem

/-! ### Names of eight and three bytes -/

/-- The part of a name behind its dot. -/
structure Extension where
  bytes : List UInt8
  pos : bytes ≠ []
  short : bytes.length ≤ 3
  noNul : 0 ∉ bytes
  noDot : 46 ∉ bytes

/-- A name of the form `base` or `base.ext`. -/
structure ShortName where
  base : FileName
  ext : Option Extension

/-- What follows the base in the name: nothing, or the dot and the extension. -/
def ShortName.suffix (n : ShortName) : List UInt8 :=
  match n.ext with
  | none => []
  | some ext => 46 :: ext.bytes

def ShortName.bytes (n : ShortName) : List UInt8 := n.base.bytes ++ n.suffix

/-- Zeros up to a length of `n`. -/
def pad (n : Nat) (bs : List UInt8) : List UInt8 := bs ++ List.replicate (n - bs.length) 0

/-- The name field as it should be: the base in eight bytes, the extension in three. -/
def ShortName.field (n : ShortName) : List UInt8 :=
  pad 8 n.base.bytes ++ pad 3 ((n.ext.map Extension.bytes).getD [])

/-- However the two entries are written, their name fields differ and are as they should be, and
nothing but the entries is written. -/
structure Faithful (n₁ n₂ : ShortName) (attr₁ attr₂ : UInt32) : Prop where
  apart : ∀ m₁ m₂ e₁ e₂ c₁ c₂ s₁ s₂,
    read (writeDirEntry m₁ e₁ n₁.bytes attr₁ c₁ s₁) e₁ 11
      ≠ read (writeDirEntry m₂ e₂ n₂.bytes attr₂ c₂ s₂) e₂ 11
  field₁ : ∀ m e c s, read (writeDirEntry m e n₁.bytes attr₁ c s) e 11 = n₁.field
  field₂ : ∀ m e c s, read (writeDirEntry m e n₂.bytes attr₂ c s) e 11 = n₂.field
  inside₁ : ∀ m e c s x, x < e ∨ e + 32 ≤ x → writeDirEntry m e n₁.bytes attr₁ c s x = m x
  inside₂ : ∀ m e c s x, x < e ∨ e + 32 ≤ x → writeDirEntry m e n₂.bytes attr₂ c s x = m x

/-- The root directory of `m'` is that of `m` with an entry written into a free place. -/
def FATConfig.Enters (config : FATConfig) (m : Mem) (name : List UInt8) (attr : UInt32) (m' : Mem) :
    Prop :=
  ∃ m₁ i c s, i < config.bytesPerCluster / 32 ∧ m (config.dataOffset + 32 * i) = 0
    ∧ ∀ x, config.dataOffset ≤ x → x < config.dataOffset + config.bytesPerCluster →
      m₁ x = m x ∧ m' x = writeDirEntry m₁ (config.dataOffset + 32 * i) name attr c s x

/-! ### What is stored -/

theorem ShortName.split (n : ShortName) :
    n.bytes.takeWhile (· ≠ 46) = n.base.bytes ∧ n.bytes.dropWhile (· ≠ 46) = n.suffix := by
  unfold ShortName.bytes
  refine Words.run_append (fun b hb => ?_) ?_
  · simpa using fun hc : b = 46 => n.base.noDot (hc ▸ hb)
  · unfold ShortName.suffix
    cases n.ext with
    | none => simp
    | some ext => simp

theorem ShortName.suffix_length (n : ShortName) : n.suffix.length ≤ 4 := by
  unfold ShortName.suffix
  cases n.ext with
  | none => exact Nat.zero_le _
  | some ext =>
      have := ext.short
      simp only [List.length_cons]
      omega

theorem writeName_short (m : Mem) (e : Nat) (n : ShortName) :
    writeName m e n.bytes = write (write m e n.base.bytes) (e + 8) n.suffix := by
  obtain ⟨hbase, hsuffix⟩ := n.split
  unfold writeName
  rw [hbase, hsuffix]
  by_cases hnil : n.suffix = []
  · simp [hnil]
  · simp [hnil]

/-- Nothing outside the entry is written. -/
theorem writeDirEntry_inside (m : Mem) (e : Nat) (n : ShortName) (attr c s : UInt32) {x : Nat}
    (hx : x < e ∨ e + 32 ≤ x) : writeDirEntry m e n.bytes attr c s x = m x := by
  have hbase := n.base.short
  have hsuffix := n.suffix_length
  unfold writeDirEntry
  rw [(packed_dirEntry attr c s).put_out _ _ (by omega), writeName_short,
    write_apply_of_out _ _ _ (by omega), write_apply_of_out _ _ _ (by omega),
    fill_apply_of_out _ _ _ _ (by omega)]

/-- **The name field**: the base, and of the suffix the dot and two bytes. -/
theorem nameField_eq (m : Mem) (e : Nat) (n : ShortName) (attr c s : UInt32) :
    read (writeDirEntry m e n.bytes attr c s) e 11 = pad 8 n.base.bytes ++ pad 3 (n.suffix.take 3) := by
  have hbase := n.base.short
  have hzero : ∀ x, e ≤ x → x < e + 32 → fill m e 32 0 x = 0 :=
    fun x h1 h2 => fill_apply_of_in _ _ _ _ h1 h2
  -- The fields start at byte 11.
  have hfields : read (writeDirEntry m e n.bytes attr c s) e 11
      = read (write (write (fill m e 32 0) e n.base.bytes) (e + 8) n.suffix) e (8 + 3) := by
    refine read_congr fun x h1 h2 => ?_
    unfold writeDirEntry
    rw [(packed_dirEntry attr c s).put_out _ _ (by omega), writeName_short]
  have hlow : read (write (write (fill m e 32 0) e n.base.bytes) (e + 8) n.suffix) e 8
      = pad 8 n.base.bytes := by
    rw [read_write_of_apart _ _ _ (by omega),
      read_write_zeros (fun x h1 h2 => hzero x h1 (by omega)), List.take_of_length_le hbase]
    rfl
  have hhigh : read (write (write (fill m e 32 0) e n.base.bytes) (e + 8) n.suffix) (e + 8) 3
      = pad 3 (n.suffix.take 3) := by
    rw [read_write_zeros fun x h1 h2 => ?_]
    · unfold pad
      rw [List.length_take]
      congr 2
      omega
    · rw [write_apply_of_out _ _ _ (by omega)]
      exact hzero x (by omega) (by omega)
  rw [hfields, read_add, hlow, hhigh]

/-! ### When it is the name -/

theorem pad_append_injective {n : Nat} {bs cs xs ys : List UInt8} (hb : bs.length ≤ n)
    (hc : cs.length ≤ n) (h : pad n bs ++ xs = pad n cs ++ ys) : pad n bs = pad n cs := by
  refine (List.append_inj h ?_).1
  unfold pad
  simp only [List.length_append, List.length_replicate]
  omega

/-- A string without NUL is what is in front of its padding. -/
theorem takeWhile_pad {n : Nat} {bs : List UInt8} (h : 0 ∉ bs) : (pad n bs).takeWhile (· ≠ 0) = bs := by
  unfold pad
  refine (Words.run_append (fun b hb => ?_) ?_).1
  · simpa using fun hc : b = 0 => h (hc ▸ hb)
  · cases n - bs.length with
    | zero => simp
    | succ k => simp [List.replicate_succ]

theorem ShortName.field_of_none {n : ShortName} (h : n.ext = none) :
    pad 8 n.base.bytes ++ pad 3 (n.suffix.take 3) = n.field := by
  unfold ShortName.field ShortName.suffix
  rw [h]
  rfl

/-- An extension is not stored as it should be: its field starts with the dot. -/
theorem ShortName.field_of_some {n : ShortName} {ext : Extension} (h : n.ext = some ext) :
    pad 8 n.base.bytes ++ pad 3 (n.suffix.take 3) ≠ n.field := by
  intro heq
  unfold ShortName.field ShortName.suffix at heq
  rw [h] at heq
  have htail := (List.append_inj_right' heq (by
    have := ext.short
    simp [pad]
    omega))
  have hdot := ext.noDot
  have hpos := ext.pos
  cases hbytes : ext.bytes with
  | nil => exact hpos hbytes
  | cons b bs =>
      rw [hbytes] at hdot
      simp [pad, hbytes] at htail
      exact hdot (htail.1 ▸ List.mem_cons_self)

theorem Faithful.of_none {n₁ n₂ : ShortName} (hne : n₁.bytes ≠ n₂.bytes) (attr₁ attr₂ : UInt32)
    (h₁ : n₁.ext = none) (h₂ : n₂.ext = none) : Faithful n₁ n₂ attr₁ attr₂ := by
  refine ⟨?_, ?_, ?_, fun m e c s x => writeDirEntry_inside m e n₁ attr₁ c s,
    fun m e c s x => writeDirEntry_inside m e n₂ attr₂ c s⟩
  · intro m₁ m₂ e₁ e₂ c₁ c₂ s₁ s₂ heq
    rw [nameField_eq, nameField_eq] at heq
    have hpad := congrArg (List.takeWhile (· ≠ 0))
      (pad_append_injective n₁.base.short n₂.base.short heq)
    rw [takeWhile_pad n₁.base.noNul, takeWhile_pad n₂.base.noNul] at hpad
    refine hne ?_
    unfold ShortName.bytes ShortName.suffix
    rw [h₁, h₂, hpad]
  · intro m e c s
    rw [nameField_eq, ShortName.field_of_none h₁]
  · intro m e c s
    rw [nameField_eq, ShortName.field_of_none h₂]

/-- A call that succeeds writes one entry into the root directory. -/
theorem copyin_enters {config : FATConfig} {m : Mem} {fd : Fd} {name : List UInt8} {attr : UInt32}
    {r : Reply} (hm : config.Reached m)
    (hsize : config.nSector.toNat * config.bytesPerSector.toNat ≤ 2 ^ 32)
    (hr : FAT32Copyin m fd name attr = .ok r) (hret : r.ret ≠ 0) :
    config.Enters m name attr r.buf := by
  obtain ⟨hg, next, charged, h⟩ := reached_ledger hm hsize
  have hch := h.charged_le
  have hv := h.verdict hg fd name attr fun _ _ => addressed hg hsize (by omega) _
  have hbelow := config.layout.cluster_mono (show 3 ≤ next by omega)
  rw [config.layout.cluster_root] at hbelow
  have hfat2 : config.layout.fat2 = config.layout.fat1 + config.layout.fatBytes := rfl
  have hdata : config.layout.data = config.layout.fat2 + config.layout.fatBytes := rfl
  rw [hr] at hv
  cases hv with
  | untouched e hs => exact absurd rfl hret
  | refused size hs hnext hfull => exact absurd rfl hret
  | unread size hs hnext hread m' e hm' => exact absurd rfl hret
  | stored size hs hread hroot hsize hfit m₁ hm₁ =>
      unfold FATConfig.Enters
      rw [dataOffset_eq hg]
      have hent := hg.maxCluster_fit
      refine ⟨m₁, _, UInt32.ofNat next, UInt32.ofNat size.toUInt32.toNat, hroot,
        firstFreeEntry_zero hroot, fun x hlo hhi => ⟨?_, ?_⟩⟩
      · exact hm₁ x (Nat.lt_of_lt_of_le hhi hbelow)
      · refine (recordAt_high hg (by omega)).trans ?_
        refine writeChain_apply_of_out _ (fileClusters_pos _ _) (Or.inr ?_) (Or.inr ?_)
        · omega
        · omega

/-- **The entry has the name** exactly if the name has no extension; and it is this entry that a
call writes. -/
theorem names_iff (n₁ n₂ : ShortName) (hne : n₁.bytes ≠ n₂.bytes) (attr₁ attr₂ : UInt32) :
    (Faithful n₁ n₂ attr₁ attr₂ ↔ n₁.ext = none ∧ n₂.ext = none)
      ∧ ∀ (config : FATConfig) (m : Mem) (fd : Fd) (name : List UInt8) (attr : UInt32) (r : Reply),
        config.Reached m → config.nSector.toNat * config.bytesPerSector.toNat ≤ 2 ^ 32 →
        FAT32Copyin m fd name attr = .ok r → r.ret ≠ 0 → config.Enters m name attr r.buf := by
  refine ⟨⟨fun h => ⟨?_, ?_⟩, fun h => .of_none hne attr₁ attr₂ h.1 h.2⟩,
    fun config m fd name attr r hm hsize hr hret => copyin_enters hm hsize hr hret⟩
  · by_contra hext
    obtain ⟨ext, hext⟩ := Option.ne_none_iff_exists'.mp hext
    refine ShortName.field_of_some hext ?_
    rw [← h.field₁ (fun _ => 0) 0 0 0, nameField_eq]
  · by_contra hext
    obtain ⟨ext, hext⟩ := Option.ne_none_iff_exists'.mp hext
    refine ShortName.field_of_some hext ?_
    rw [← h.field₂ (fun _ => 0) 0 0 0, nameField_eq]

/-- `KERNEL` and `LOADER` are stored as they should be. -/
theorem names_plain :
    Faithful ⟨⟨ascii "KERNEL", by decide, by decide, by decide, by decide⟩, none⟩
        ⟨⟨ascii "LOADER", by decide, by decide, by decide, by decide⟩, none⟩ 0x20 0x20
      ∧ ∃ r, FAT32Copyin (formatImage (fun _ => 0) smallVolume) (fdOf helloFile) (ascii "KERNEL") 0x20
          = .ok r
        ∧ smallVolume.Enters (formatImage (fun _ => 0) smallVolume) (ascii "KERNEL") 0x20 r.buf := by
  obtain ⟨hiff, hcall⟩ := names_iff
    ⟨⟨ascii "KERNEL", by decide, by decide, by decide, by decide⟩, none⟩
    ⟨⟨ascii "LOADER", by decide, by decide, by decide, by decide⟩, none⟩ (by decide) 0x20 0x20
  have hcheck : (FAT32Copyin (formatImage (fun _ => 0) smallVolume) (fdOf helloFile)
      (ascii "KERNEL") 0x20).toOption.map Reply.ret = some 11 := by decide +kernel
  obtain ⟨r, hr, hret⟩ := copyin_ret hcheck
  refine ⟨hiff.mpr ⟨rfl, rfl⟩, r, hr, hcall _ _ _ _ _ _ ?_ (by decide) hr (by rw [hret]; decide)⟩
  exact reached_created (show createFAT32 (fun _ => 0) smallVolume = .ok (0, _) from rfl)

/-- `A.TXT` and `A.TXY` have the same name field, `A` and `.TX`. -/
theorem names_fail :
    ¬ ∀ (n₁ n₂ : ShortName) (attr : UInt32), n₁.bytes ≠ n₂.bytes → Faithful n₁ n₂ attr attr := by
  intro h
  have hfaithful := h
    ⟨⟨ascii "A", by decide, by decide, by decide, by decide⟩,
      some ⟨ascii "TXT", by decide, by decide, by decide, by decide⟩⟩
    ⟨⟨ascii "A", by decide, by decide, by decide, by decide⟩,
      some ⟨ascii "TXY", by decide, by decide, by decide, by decide⟩⟩ 0 (by decide)
  exact hfaithful.apart (fun _ => 0) (fun _ => 0) 0 0 0 0 0 0 (by decide +kernel)

end LinuxUtil.Fat
