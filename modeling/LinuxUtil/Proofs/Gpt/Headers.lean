/-
The two headers of a table that `GPTGenerate` wrote.

Each header has a checksum of its own and one of the entry array.  The first is taken
from the header as it stands before the checksum is in it, `headersImage`; the second
from the array before any header is written, whose bytes `GPTConfig.entryArray` gives.
Nothing is written into either afterwards.  What a reader checks is another matter: it
takes the length of the array from a field of 32 bits.  `consistent_iff` says when the
checksum is that of the array it sees, and `crcByte_injective` is why it is not by chance.
-/
import LinuxUtil.Proofs.Gpt.Footprint

namespace LinuxUtil.Gpt

open ByteMem

/-! ### The entry array -/

/-- A name as it lies in an entry. -/
def nameBytes (name : List UInt8) : List UInt8 :=
  (name.flatMap fun ch => [ch, 0]) ++ List.replicate (72 - 2 * name.length) 0

/-- The 128 bytes of an entry. -/
def entryBytes (cp : PartitionConfig) : List UInt8 :=
  cp.partType.bytes ++ cp.partId.bytes ++ leBytes 8 cp.startLBA.toNat
    ++ leBytes 8 (cp.startLBA + cp.volume - 1).toNat ++ leBytes 8 5 ++ nameBytes (cp.name.getD [])

/-- The partitions one behind the other from sector `start` on. -/
def placeFrom : Nat → List PartitionConfig → List PartitionConfig
  | _, [] => []
  | start, cp :: cps =>
      { cp with startLBA := UInt64.ofNat start } :: placeFrom (start + cp.volume.toNat) cps

/-- The entry array of the partitions that fit. -/
def GPTConfig.entryArray (config : GPTConfig) : List UInt8 :=
  (placeFrom (2 + config.arraySectors) (config.partitions.take config.fitting)).flatMap entryBytes

/-- One round of the loop, byte by byte. -/
theorem read_entryImage_eq (m : Mem) (nS : UInt64) (e : Nat) {cp : PartitionConfig}
    {name : List UInt8} (hname : cp.name = some name) (hshort : name.length ≤ 36)
    (hclear : 128 ≤ (nS * BLOCK_SIZE).toNat) :
    read (entryImage m nS e cp name) e 128 = entryBytes cp := by
  have hfield : ∀ f ∈ entryFields cp, f.off + f.bytes.length ≤ 56 →
      read (entryImage m nS e cp name) (e + f.off) f.bytes.length = f.bytes := by
    intro f hf hle
    rw [read_entryImage m nS e cp name hle]
    exact read_put _ _ _ (entryFields_apart cp) hf
  have hint : ∀ off v, Field.int off 8 v ∈ entryFields cp → off + 8 ≤ 56 →
      read (entryImage m nS e cp name) (e + off) 8 = leBytes 8 v := by
    intro off v hf hle
    have h := hfield _ hf (by simpa [Field.int] using hle)
    simpa [Field.int] using h
  have hguid : ∀ off (g : GUID), ⟨off, g.bytes⟩ ∈ entryFields cp → off + 16 ≤ 56 →
      read (entryImage m nS e cp name) (e + off) 16 = g.bytes := by
    intro off g hf hle
    have h := hfield _ hf (by simpa using hle)
    simpa using h
  have hlen : (name.flatMap fun ch => [ch, 0]).length = 2 * name.length := by
    rw [List.length_flatMap]
    simp
    omega
  have htail : read (entryImage m nS e cp name) (e + 56) 72 = nameBytes name := by
    have hsplit : (72 : Nat) = (name.flatMap fun ch => [ch, 0]).length + (72 - 2 * name.length) := by
      omega
    unfold nameBytes
    rw [hsplit, read_add]
    congr 1
    · exact read_write_self _ _ _
    · rw [show (name.flatMap fun ch => [ch, 0]).length + (72 - 2 * name.length) - 2 * name.length
        = 72 - 2 * name.length by omega]
      refine read_zeros fun x h1 h2 => ?_
      unfold entryImage writePartitionName
      rw [write_apply_of_out _ _ _ (Or.inr h1), entryFields_out _ _ _ (Or.inr (by omega)),
        fill_apply_of_in _ _ _ _ (by omega) (by omega)]
  have hsplit : read (entryImage m nS e cp name) e 128
      = read (entryImage m nS e cp name) (e + 0) 16 ++ read (entryImage m nS e cp name) (e + 16) 16
        ++ read (entryImage m nS e cp name) (e + 32) 8 ++ read (entryImage m nS e cp name) (e + 40) 8
        ++ read (entryImage m nS e cp name) (e + 48) 8
        ++ read (entryImage m nS e cp name) (e + 56) 72 := by
    rw [Nat.add_zero, ← read_add, ← read_add, ← read_add, ← read_add, ← read_add]
  unfold entryBytes
  rw [hsplit, hguid 0 cp.partType (by simp [entryFields]) (by omega),
    hguid 16 cp.partId (by simp [entryFields]) (by omega),
    hint 32 cp.startLBA.toNat (by simp [entryFields]) (by omega),
    hint 40 (cp.startLBA + cp.volume - 1).toNat (by simp [entryFields]) (by omega),
    hint 48 5 (by simp [entryFields]) (by omega), htail, hname]
  rfl

/-- The loop leaves the entries of its partitions, one behind the other. -/
theorem read_writeEntries (nS : UInt64) (hclear : 128 ≤ (nS * BLOCK_SIZE).toNat) :
    ∀ (cps : List PartitionConfig) (m m' : Mem) (e : Nat),
      (∀ cp ∈ cps, ∃ name, cp.name = some name ∧ name.length ≤ 36) →
      writeEntries nS cps m e = .ok m' →
      read m' e (128 * cps.length) = cps.flatMap entryBytes := by
  intro cps
  induction cps with
  | nil => intro m m' e _ _; rfl
  | cons cp cps ih =>
      intro m m' e hnames h
      obtain ⟨name, hname, hshort⟩ := hnames cp List.mem_cons_self
      unfold writeEntries at h
      rw [writeEntry_eq m nS e hname] at h
      have hrest := ih _ m' (e + 128) (fun cp' hcp => hnames cp' (List.mem_cons_of_mem cp hcp)) h
      have hbelow := (writeEntries_lba nS cps _ m' (e + 128) h).1
      rw [List.length_cons, Nat.mul_succ, Nat.add_comm, read_add, hrest, List.flatMap_cons,
        read_congr fun x _ hx => hbelow x hx, read_entryImage_eq m nS e hname hshort hclear]

theorem getElem?_placeFrom (cps : List PartitionConfig) (start i : Nat) :
    (placeFrom start cps)[i]?
      = cps[i]?.map fun cp => { cp with startLBA := UInt64.ofNat (start + volumeTo cps i) } := by
  induction cps generalizing start i with
  | nil => rfl
  | cons cp cps ih =>
      cases i with
      | zero => simp [placeFrom, volumeTo]
      | succ i =>
          rw [placeFrom, List.getElem?_cons_succ, ih, List.getElem?_cons_succ, volumeTo_cons_succ,
            Nat.add_assoc]

theorem Placed.take_eq {cps placed : List PartitionConfig} {start room k last : Nat}
    (hp : Placed cps start room k last placed) :
    placed.take k = placeFrom start (cps.take k) := by
  apply List.ext_getElem?
  intro i
  have hle := hp.le
  by_cases hi : i < k
  · have hcp : cps[i]? = some cps[i] := List.getElem?_eq_getElem (by omega)
    have hsame : volumeTo (cps.take k) i = volumeTo cps i := by
      unfold volumeTo
      rw [List.take_take, Nat.min_eq_left (by omega)]
    rw [List.getElem?_take_of_lt hi, hp.part i _ hi hcp, getElem?_placeFrom,
      List.getElem?_take_of_lt hi, hcp, hsame]
    rfl
  · have hout : (cps.take k)[i]? = none := by
      rw [List.getElem?_eq_none]
      simp only [List.length_take]
      omega
    rw [getElem?_placeFrom, hout, List.getElem?_eq_none]
    · rfl
    · simp only [List.length_take]
      omega

/-! ### The checksum -/

/-- None of the numbers comes twice, and none has its bit in `seen`. -/
def freshIn : Nat → List Nat → Bool
  | _, [] => true
  | seen, b :: bs => !seen.testBit b && freshIn (seen ||| 1 <<< b) bs

theorem freshIn_sound {bs : List Nat} {seen : Nat} (h : freshIn seen bs = true) :
    bs.Nodup ∧ ∀ b ∈ bs, seen.testBit b = false := by
  induction bs generalizing seen with
  | nil => simp
  | cons b bs ih =>
      simp only [freshIn, Bool.and_eq_true, Bool.not_eq_true'] at h
      obtain ⟨hnodup, hout⟩ := ih h.2
      simp only [Nat.testBit_or, Bool.or_eq_false_iff] at hout
      refine ⟨List.nodup_cons.mpr ⟨fun hmem => ?_, hnodup⟩, ?_⟩
      · have := (hout b hmem).2
        simp [Nat.testBit_shiftLeft] at this
      · intro d hd
        rcases List.mem_cons.mp hd with rfl | hd
        · exact h.1
        · exact (hout d hd).1

/-- The high bytes of the table tell its words apart. -/
theorem crc32_tab_high : (crc32_tab.toList.map fun w : UInt32 => (w >>> 24).toNat).Nodup :=
  (freshIn_sound (show freshIn 0 _ = true by decide +kernel)).1

theorem xor_shift_high (x c : UInt32) : (x ^^^ (c >>> 8)) >>> 24 = x >>> 24 := by
  apply UInt32.toBitVec_inj.mp
  apply BitVec.eq_of_getLsbD_eq
  intro i hi
  have hout : c.toBitVec.getLsbD (8 + (24 + i)) = false := BitVec.getLsbD_of_ge _ _ (by omega)
  simp [BitVec.getLsbD_xor, hout]

theorem toNat_low (c : UInt32) : (c &&& 0xff).toNat = c.toNat % 256 := by
  rw [UInt32.toNat_and]
  exact Nat.and_two_pow_sub_one_eq_mod c.toNat 8

/-- A word is given by its low byte and the others. -/
theorem eq_of_low_of_shift {c d : UInt32} (hlow : c.toNat % 256 = d.toNat % 256)
    (hshift : c >>> 8 = d >>> 8) : c = d := by
  have h := congrArg UInt32.toNat hshift
  rw [UInt32.toNat_shiftRight, UInt32.toNat_shiftRight] at h
  have h8 : (8 : UInt32).toNat % 32 = 8 := rfl
  rw [h8, Nat.shiftRight_eq_div_pow, Nat.shiftRight_eq_div_pow] at h
  apply UInt32.toNat_inj.mp
  omega

/-- Words of the table with one high byte are the same word of the table. -/
theorem crc32_tab_inj {i j : Nat} (hi : i < 256) (hj : j < 256)
    (h : crc32_tab.getD i 0 >>> 24 = crc32_tab.getD j 0 >>> 24) : i = j := by
  have hsize : crc32_tab.size = 256 := by decide +kernel
  have hget : ∀ k, k < 256 → (crc32_tab.toList.map fun w : UInt32 => (w >>> 24).toNat)[k]?
      = some (crc32_tab.getD k 0 >>> 24).toNat := by
    intro k hk
    rw [List.getElem?_map, Array.getElem?_toList, Array.getD_eq_getD_getElem?,
      Array.getElem?_eq_getElem (by omega)]
    rfl
  refine (List.getElem?_inj ?_ crc32_tab_high).mp ?_
  · rw [List.length_map, Array.length_toList]
    omega
  · rw [hget i hi, hget j hj, h]

/-- **One byte of the checksum loses nothing of the state.** -/
theorem crcByte_injective {c d : UInt32} {b : UInt8} (h : crcByte c b = crcByte d b) : c = d := by
  have hlt : ∀ w : UInt32, (w &&& 0xff).toNat < 256 := by
    intro w
    rw [toNat_low]
    exact Nat.mod_lt _ (by omega)
  unfold crcByte at h
  have hhigh := congrArg (fun w : UInt32 => w >>> 24) h
  simp only [xor_shift_high] at hhigh
  have hidx := crc32_tab_inj (hlt _) (hlt _) hhigh
  rw [hidx] at h
  rw [toNat_low, toNat_low] at hidx
  refine eq_of_low_of_shift ?_ ?_
  · rw [UInt32.toNat_xor, UInt32.toNat_xor, Nat.xor_mod_two_pow (n := 8),
      Nat.xor_mod_two_pow (n := 8)] at hidx
    have hxor := congrArg (fun k => k ^^^ b.toUInt32.toNat % 2 ^ 8) hidx
    rwa [Nat.xor_assoc, Nat.xor_assoc, Nat.xor_self, Nat.xor_zero, Nat.xor_zero] at hxor
  · exact (UInt32.xor_right_inj _).mp h

/-- Nor do the bytes of a whole string. -/
theorem efi_crc32_injective {bs : List UInt8} {c d : UInt32} (h : efi_crc32 bs c = efi_crc32 bs d) :
    c = d := by
  unfold efi_crc32 at h
  induction bs generalizing c d with
  | nil => exact h
  | cons b bs ih => exact crcByte_injective (ih h)

theorem crc32_append_injective {xs ys bs : List UInt8}
    (h : crc32 (xs ++ bs) = crc32 (ys ++ bs)) : crc32 xs = crc32 ys := by
  unfold crc32 efi_crc32 at h ⊢
  rw [List.foldl_append, List.foldl_append] at h
  rw [efi_crc32_injective ((UInt32.xor_left_inj _).mp h)]

/-! ### The headers -/

/-- The checksums of the headers in sector 1 and at `last`, both over as many bytes as the first
one says it has. -/
def storeChecksums (buf : Mem) (last : Nat) : Mem :=
  let buf := store buf (512 + 16) 4 (crc32 (read buf 512 (load buf (512 + 12) 4))).toNat
  store buf (last + 16) 4 (crc32 (read buf last (load buf (512 + 12) 4))).toNat

theorem storeChecksums_eq {buf : Mem} {last : Nat} (hlast : 604 ≤ last)
    (hsize : load buf (512 + 12) 4 = 92) :
    storeChecksums buf last = store (store buf (512 + 16) 4 (crc32 (read buf 512 92)).toNat)
      (last + 16) 4 (crc32 (read buf last 92)).toNat := by
  unfold storeChecksums
  dsimp only
  rw [load_store_of_apart _ _ _ _ (by omega), hsize, read_store_of_apart _ _ _ _ (by omega)]

section Headers

variable (m : Mem) (nBlock start nPartition : UInt64) (diskId : GUID) (crc : UInt32)

/-- The buffer when the headers are complete but for their checksums. -/
def headersImage : Mem :=
  let last := getSector (nBlock - 1)
  let buf := put (fill (fill m 512 92 0) last 92 0) 512
    (headerFields nBlock start nPartition diskId crc)
  store (store (copy buf last 512 92) (last + 24) 8 (nBlock - 1).toNat) (last + 32) 8 1

variable {m nBlock start nPartition diskId crc}

theorem headersImage_primary {x : Nat} (hx : x < getSector (nBlock - 1)) :
    headersImage m nBlock start nPartition diskId crc x
      = put (fill (fill m 512 92 0) (getSector (nBlock - 1)) 92 0) 512
        (headerFields nBlock start nPartition diskId crc) x := by
  unfold headersImage
  rw [store_apply_of_out _ _ _ _ (by omega), store_apply_of_out _ _ _ _ (by omega),
    copy_apply_of_out _ _ _ _ (by omega)]

variable (hlast : 604 ≤ getSector (nBlock - 1))
include hlast

/-- Neither checksum is there yet. -/
theorem headersImage_crc {header x : Nat} (hheader : header = 512 ∨ header = getSector (nBlock - 1))
    (hlo : header + 16 ≤ x) (hhi : x < header + 20) :
    headersImage m nBlock start nPartition diskId crc x = 0 := by
  have hzero : ∀ x, 512 + 16 ≤ x → x < 512 + 20 →
      headersImage m nBlock start nPartition diskId crc x = 0 := by
    intro x hlo hhi
    rw [headersImage_primary (by omega), put_apply_of_out, fill_apply_of_out _ _ _ _ (by omega),
      fill_apply_of_in _ _ _ _ (by omega) (by omega)]
    intro f hf
    simp only [headerFields, List.mem_cons, List.not_mem_nil, or_false] at hf
    rcases hf with rfl | rfl | rfl | rfl | rfl | rfl | rfl | rfl | rfl | rfl | rfl | rfl | rfl <;>
      simp [Field.int, ascii] <;> omega
  rcases hheader with rfl | rfl
  · exact hzero x hlo hhi
  · obtain ⟨i, rfl⟩ := Nat.exists_eq_add_of_le (show getSector (nBlock - 1) ≤ x by omega)
    have h := hzero (512 + i) (by omega) (by omega)
    rw [headersImage_primary (by omega)] at h
    unfold headersImage
    rw [store_apply_of_out _ _ _ _ (by omega), store_apply_of_out _ _ _ _ (by omega),
      copy_apply_of_in _ _ _ _ (by omega), h]

theorem load_headerSize : load (headersImage m nBlock start nPartition diskId crc) (512 + 12) 4 = 92 := by
  rw [load_congr fun x _ _ => headersImage_primary (by omega)]
  exact load_put (v := 92) _ 512 _ packed_header.apart (by simp [headerFields])

/-- The checksums are those of the two headers without them. -/
theorem writeHeaders_eq :
    writeHeaders m nBlock start nPartition diskId crc
      = store (store (headersImage m nBlock start nPartition diskId crc) (512 + 16) 4
          (crc32 (read (headersImage m nBlock start nPartition diskId crc) 512 92)).toNat)
        (getSector (nBlock - 1) + 16) 4
        (crc32 (read (headersImage m nBlock start nPartition diskId crc)
          (getSector (nBlock - 1)) 92)).toNat := by
  have hsize : load (headersImage m nBlock start nPartition diskId crc) (512 + 12) 4 = 92 :=
    load_headerSize hlast
  rw [← storeChecksums_eq (by omega) hsize]
  rfl

/-- **Each header's checksum is its own**, taken with the checksum zeroed. -/
theorem writeHeaders_checksum {header : Nat}
    (hheader : header = 512 ∨ header = getSector (nBlock - 1)) :
    load (writeHeaders m nBlock start nPartition diskId crc) (header + 16) 4
      = (crc32 (read (fill (writeHeaders m nBlock start nPartition diskId crc) (header + 16) 4 0)
          header 92)).toNat := by
  have hzero : ∀ x, header + 16 ≤ x → x < header + 20 →
      headersImage m nBlock start nPartition diskId crc x = 0 :=
    fun x => headersImage_crc hlast hheader
  rw [writeHeaders_eq hlast]
  generalize headersImage m nBlock start nPartition diskId crc = H at hzero ⊢
  have hread : ∀ a b : Nat,
      read (fill (store (store H (512 + 16) 4 a) (getSector (nBlock - 1) + 16) 4 b)
        (header + 16) 4 0) header 92 = read H header 92 := by
    intro a b
    refine read_congr fun x h1 h2 => ?_
    by_cases hin : header + 16 ≤ x ∧ x < header + 20
    · rw [fill_apply_of_in _ _ _ _ hin.1 hin.2, hzero x hin.1 hin.2]
    · rw [fill_apply_of_out _ _ _ _ (by omega), store_apply_of_out _ _ _ _ (by omega),
        store_apply_of_out _ _ _ _ (by omega)]
  have hlt : ∀ w : UInt32, w.toNat % 256 ^ 4 = w.toNat := fun w => Nat.mod_eq_of_lt w.toNat_lt
  rw [hread]
  rcases hheader with rfl | rfl
  · rw [load_store_of_apart _ _ _ _ (by omega), load_store_self, hlt]
  · rw [load_store_self, hlt]

/-- The backup header says where it lies, and where the other one is. -/
theorem writeHeaders_backup_lba :
    load (writeHeaders m nBlock start nPartition diskId crc) (getSector (nBlock - 1) + 24) 8
        = (nBlock - 1).toNat
      ∧ load (writeHeaders m nBlock start nPartition diskId crc) (getSector (nBlock - 1) + 32) 8
        = 1 := by
  rw [writeHeaders_eq hlast]
  unfold headersImage
  refine ⟨?_, ?_⟩
  · rw [load_store_of_apart _ _ _ _ (by omega), load_store_of_apart _ _ _ _ (by omega),
      load_store_of_apart _ _ _ _ (by omega), load_store_self]
    exact Nat.mod_eq_of_lt (UInt64.toNat_lt _)
  · rw [load_store_of_apart _ _ _ _ (by omega), load_store_of_apart _ _ _ _ (by omega),
      load_store_self]
    rfl

end Headers

/-! ### What a reader checks -/

/-- The header in sector `lba` is consistent, and names sector `other` as the other one. -/
structure HeaderAt (m : Mem) (lba other : Nat) : Prop where
  headerCRC32 : load m (lba * 512 + 16) 4
    = (crc32 (read (fill m (lba * 512 + 16) 4 0) (lba * 512) 92)).toNat
  crc32EntryArray : load m (lba * 512 + 88) 4
    = (crc32 (read m (load m (lba * 512 + 72) 8 * 512) (load m (lba * 512 + 80) 4 * 128))).toNat
  thisLBA : load m (lba * 512 + 24) 8 = lba
  alternateLBA : load m (lba * 512 + 32) 8 = other

/-- The partitions `GPTParse` would find by the header in sector `lba`. -/
def partitionsAt (heap : Heap) (m : Mem) (lba : Nat) : List PartitionConfig :=
  (List.range (load m (lba * 512 + 80) 4)).map fun i =>
    parseEntry heap m (getSector (UInt64.ofNat (load m (lba * 512 + 72) 8)) + 128 * i)

/-- The header it does use is the one in sector 1. -/
theorem parse_partitionsAt {heap : Heap} {m : Mem} {k : UInt64} {parsed : List PartitionConfig}
    (h : GPTParse heap m = .ok (k, parsed)) : parsed = partitionsAt heap m 1 := by
  have hcount : (UInt32.ofNat (load m (getSector 1 + 80) 4)).toNat = load m (getSector 1 + 80) 4 :=
    UInt32.toNat_ofNat_of_lt' (load_lt m _ 4)
  simp only [GPTParse, hcount] at h
  split at h
  · cases h
  · split at h
    · cases h
    · split at h
      · exact ((Prod.mk.inj (Except.ok.inj h)).2).symm
      · cases h

/-- `GPTGenerate` returns, and leaves two consistent headers behind that list the same
partitions. -/
def Consistent (buf : Mem) (config : GPTConfig) : Prop :=
  ∃ k buf' placed, GPTGenerate buf config = .ok (k, buf', placed)
    ∧ HeaderAt buf' 1 (config.volume.toNat - 1) ∧ HeaderAt buf' (config.volume.toNat - 1) 1
    ∧ ∀ heap, partitionsAt heap buf' 1 = partitionsAt heap buf' (config.volume.toNat - 1)

/-- What the header in sector `lba` says on a disk that `GPTGenerate` wrote. -/
structure Announced (config : GPTConfig) (m : Mem) (lba other : Nat) : Prop where
  headerCRC32 : load m (lba * 512 + 16) 4
    = (crc32 (read (fill m (lba * 512 + 16) 4 0) (lba * 512) 92)).toNat
  crc32EntryArray : load m (lba * 512 + 88) 4 = (crc32 config.entryArray).toNat
  startEntryArray : load m (lba * 512 + 72) 8 = 2
  numEntries : load m (lba * 512 + 80) 4 = config.fitting % 2 ^ 32
  thisLBA : load m (lba * 512 + 24) 8 = lba
  alternateLBA : load m (lba * 512 + 32) 8 = other

section Consistent

variable {buf : Mem} {config : GPTConfig}

/-- The headers announce the partitions that were placed. -/
theorem writeHeaders_announced (hfits : 4 + config.arraySectors ≤ config.volume.toNat) (m : Mem)
    (start : UInt64) {nPartition : UInt64} (hn : nPartition.toNat = config.fitting) (diskId : GUID) :
    ∀ lba other, lba = 1 ∧ other = config.volume.toNat - 1
        ∨ lba = config.volume.toNat - 1 ∧ other = 1 →
      Announced config (writeHeaders m config.volume start nPartition diskId
        (crc32 config.entryArray)) lba other := by
  have hlast := lastSector_eq hfits
  have h604 : 604 ≤ getSector (config.volume - 1) := by omega
  have hend : (config.volume - 1).toNat = config.volume.toNat - 1 :=
    UInt64.toNat_sub_of_le _ _ (UInt64.le_iff_toNat_le.mpr (show 1 ≤ _ by omega))
  have hfield : ∀ {j w v : Nat}, j + w ≤ 92 → 20 ≤ j → v < 256 ^ w →
      Field.int j w v ∈ headerFields config.volume start nPartition diskId
        (crc32 config.entryArray) →
      load (writeHeaders m config.volume start nPartition diskId (crc32 config.entryArray))
        (512 + j) w = v := by
    intro j w v hj hcrc hv hf
    rw [writeHeaders_load h604 hj (Or.inr hcrc) hf, Nat.mod_eq_of_lt hv]
  have hthis := hfield (j := 24) (w := 8) (v := 1) (by omega) (by omega) (by decide)
    (by simp [headerFields])
  have hother := hfield (j := 32) (w := 8) (v := (config.volume - 1).toNat) (by omega) (by omega)
    (UInt64.toNat_lt _) (by simp [headerFields])
  have hstart := hfield (j := 72) (w := 8) (v := 2) (by omega) (by omega) (by decide)
    (by simp [headerFields])
  have harray := hfield (j := 88) (w := 4) (v := (crc32 config.entryArray).toNat) (by omega)
    (by omega) (UInt32.toNat_lt _) (by simp [headerFields])
  have hcount : load (writeHeaders m config.volume start nPartition diskId
      (crc32 config.entryArray)) (512 + 80) 4 = config.fitting % 2 ^ 32 := by
    rw [writeHeaders_load (v := nPartition.toNat) h604 (by omega) (Or.inr (by omega))
      (by simp [headerFields]), hn]
    rfl
  have hbackup := @writeHeaders_backup m config.volume start nPartition diskId
    (crc32 config.entryArray) h604
  have hlba := @writeHeaders_backup_lba m config.volume start nPartition diskId
    (crc32 config.entryArray) h604
  have hsum := @writeHeaders_checksum m config.volume start nPartition diskId
    (crc32 config.entryArray) h604
  rw [hlast] at hlba
  simp only [hlast] at hbackup hsum
  rintro lba other (⟨rfl, rfl⟩ | ⟨rfl, rfl⟩)
  · exact ⟨hsum (Or.inl rfl), harray, hstart, hcount, hthis, hother.trans hend⟩
  · refine ⟨hsum (Or.inr rfl), ?_, ?_, ?_, hlba.1.trans hend, hlba.2⟩
    · rw [hbackup (by omega) (by omega), harray]
    · rw [hbackup (by omega) (by omega), hstart]
    · rw [hbackup (by omega) (by omega), hcount]

/-- Both headers announce the partitions that fit, and their entries are in the array. -/
theorem generate_announced (buf : Mem) (h : config.Servable) : ∃ k buf' placed,
    GPTGenerate buf config = .ok (k, buf', placed)
      ∧ Announced config buf' 1 (config.volume.toNat - 1)
      ∧ Announced config buf' (config.volume.toNat - 1) 1
      ∧ read buf' 1024 (128 * config.fitting) = config.entryArray := by
  have hfits := h.fits
  have hlast := lastSector_eq hfits
  have hpos := arraySectors_pos h.nonempty
  have hvol := config.buf_fits
  obtain ⟨nS, k, last, placed, hclear, hp, -, hgen⟩ := generate_shape buf h.nonempty hfits
  have hk := hp.fitting
  have hle := hp.le
  have hk4 : k ≤ 4 * config.arraySectors := by
    unfold GPTConfig.arraySectors
    omega
  have hk64 : (UInt64.ofNat k).toNat = k := UInt64.toNat_ofNat_of_lt' (show _ < 2 ^ 64 by omega)
  have hbytes : (128 * UInt64.ofNat k).toNat = 128 * k := by
    rw [UInt64.toNat_mul, hk64]
    exact Nat.mod_eq_of_lt (show 128 * k < 2 ^ 64 by omega)
  have hnames : ∀ cp ∈ placed.take k, ∃ name, cp.name = some name ∧ name.length ≤ 36 := by
    intro cp hcp
    obtain ⟨name, hname, hshort, -⟩ := hp.names h cp hcp
    exact ⟨name, hname, hshort⟩
  obtain ⟨m, hm, -⟩ := writeEntries_behind nS (placed.take k)
    (createProtectGPT buf 0 BLOCK_SIZE config.volume) 1024 hnames
  have harray : read m 1024 (128 * k) = config.entryArray := by
    have hcount : (placed.take k).length = k := by
      rw [List.length_take, hp.length]
      omega
    have hread := read_writeEntries nS (by omega) (placed.take k) _ m 1024 hnames hm
    rw [hcount, hp.take_eq] at hread
    rw [hread, GPTConfig.entryArray, hk]
  rw [hm] at hgen
  have hcount : (UInt64.ofNat k).toNat = config.fitting := by rw [hk64, hk]
  have hheaders := writeHeaders_announced hfits m last hcount config.diskId
  refine ⟨_, _, _, hgen, ?_, ?_, ?_⟩
  · rw [hbytes, harray]
    exact hheaders _ _ (Or.inl ⟨rfl, rfl⟩)
  · rw [hbytes, harray]
    exact hheaders _ _ (Or.inr ⟨rfl, rfl⟩)
  · rw [hk, ← harray]
    exact read_congr fun x _ _ => writeHeaders_out (by omega) (by omega)

/-- The checksum of the entry array is that of the part of it whose length the 32-bit field can
say.  That part is all of it for fewer than `2 ^ 32` partitions. -/
def GPTConfig.Checked (config : GPTConfig) : Prop :=
  config.fitting < 2 ^ 32
    ∨ crc32 config.entryArray = crc32 (config.entryArray.take (128 * (config.fitting % 2 ^ 32)))

theorem GPTConfig.Checked.crc (h : config.Checked)
    (hlen : config.entryArray.length = 128 * config.fitting) :
    crc32 config.entryArray = crc32 (config.entryArray.take (128 * (config.fitting % 2 ^ 32))) := by
  rcases h with hfew | hcrc
  · rw [Nat.mod_eq_of_lt hfew, ← hlen, List.take_length]
  · exact hcrc

section Announced

variable {m : Mem} {lba other : Nat} (ha : Announced config m lba other)
  (harray : read m 1024 (128 * config.fitting) = config.entryArray)
include ha harray

/-- The array a reader sees. -/
theorem Announced.read_array :
    read m (load m (lba * 512 + 72) 8 * 512) (load m (lba * 512 + 80) 4 * 128)
      = config.entryArray.take (128 * (config.fitting % 2 ^ 32)) := by
  have hle := Nat.mod_le config.fitting (2 ^ 32)
  rw [ha.startEntryArray, ha.numEntries, ← harray, take_read _ _ _ _ (by omega),
    Nat.mul_comm (config.fitting % 2 ^ 32)]

theorem Announced.headerAt_iff : HeaderAt m lba other
    ↔ crc32 config.entryArray
      = crc32 (config.entryArray.take (128 * (config.fitting % 2 ^ 32))) := by
  rw [← ha.read_array harray]
  refine ⟨fun h => ?_, fun h => ⟨ha.headerCRC32, ?_, ha.thisLBA, ha.alternateLBA⟩⟩
  · exact UInt32.toNat_inj.mp (ha.crc32EntryArray.symm.trans h.crc32EntryArray)
  · rw [ha.crc32EntryArray, h]

end Announced

theorem Consistent.checked (h : config.Servable) (hc : Consistent buf config) : config.Checked := by
  obtain ⟨k, buf', placed, hgen, hfirst, -, harray⟩ := generate_announced buf h
  obtain ⟨k', buf'', placed', hgen', hheader, -⟩ := hc
  rw [hgen] at hgen'
  obtain ⟨rfl, hrest⟩ := Prod.mk.inj (Except.ok.inj hgen')
  obtain ⟨rfl, rfl⟩ := Prod.mk.inj hrest
  exact Or.inr ((hfirst.headerAt_iff harray).mp hheader)

theorem GPTConfig.Checked.consistent (h : config.Servable) (hc : config.Checked) :
    Consistent buf config := by
  obtain ⟨k, buf', placed, hgen, hfirst, hlast, harray⟩ := generate_announced buf h
  have hcrc := hc.crc (by rw [← harray, length_read])
  refine ⟨k, buf', placed, hgen, (hfirst.headerAt_iff harray).mpr hcrc,
    (hlast.headerAt_iff harray).mpr hcrc, fun heap => ?_⟩
  unfold partitionsAt
  rw [hfirst.startEntryArray, hfirst.numEntries, hlast.startEntryArray, hlast.numEntries]

end Consistent

/-- **Both headers are consistent exactly when the checksum of the entry array is that of the part
a 32-bit number of entries can describe**, as it is for fewer than `2 ^ 32` partitions. -/
theorem consistent_iff (buf : Mem) (config : GPTConfig) (h : config.Servable) :
    Consistent buf config ↔ config.Checked :=
  ⟨Consistent.checked h, GPTConfig.Checked.consistent h⟩

theorem fitting_eq_length {config : GPTConfig}
    (h : volumeTo config.partitions config.partitions.length ≤ config.room) :
    config.fitting = config.partitions.length :=
  Nat.findGreatest_eq h

theorem consistent_two : Consistent (fun _ => 0) (bootDisk 2 (by decide)) := by
  have hserve := bootDisk_servable 2 (by decide) (by decide)
  refine (consistent_iff (fun _ => 0) _ hserve).mpr (Or.inl ?_)
  have hle : (bootDisk 2 (by decide)).fitting ≤ (bootDisk 2 (by decide)).partitions.length :=
    Nat.findGreatest_le _
  rw [bootDisk_length] at hle
  omega

/-- A disk of `n + 1` partitions of one sector, the first of which has this identifier. -/
def fullDisk (n : Nat) (hn : n < 2 ^ 32) (id : GUID) : GPTConfig where
  volume := UInt64.ofNat (4 + (n + 1 + 3) / 4 + (n + 1))
  partitions := { bootPart with partId := id } :: List.replicate n bootPart
  diskId := sampleGuid
  buf_fits := (bootDisk (n + 1) hn).buf_fits
  partitions_fit := by
    rw [List.length_cons, List.length_replicate]
    omega

section FullDisk

variable (n : Nat) (hn : n < 2 ^ 32) (id : GUID)

theorem fullDisk_length : (fullDisk n hn id).partitions.length = n + 1 := by
  unfold fullDisk
  rw [List.length_cons, List.length_replicate]

theorem fullDisk_arraySectors : (fullDisk n hn id).arraySectors = (n + 1 + 3) / 4 := by
  unfold GPTConfig.arraySectors
  rw [fullDisk_length]

theorem fullDisk_volume :
    (fullDisk n hn id).volume.toNat = 4 + (fullDisk n hn id).arraySectors + (n + 1) := by
  rw [fullDisk_arraySectors]
  exact UInt64.toNat_ofNat_of_lt' (show _ < 2 ^ 64 by omega)

theorem fullDisk_fitting : (fullDisk n hn id).fitting = n + 1 := by
  have hone : ({ bootPart with partId := id } : PartitionConfig).volume.toNat = 1 := rfl
  have hall : volumeTo (fullDisk n hn id).partitions (n + 1) = n + 1 := by
    unfold fullDisk
    rw [volumeTo_cons_succ, volumeTo_replicate, hone, Nat.add_comm]
  rw [fitting_eq_length, fullDisk_length]
  rw [fullDisk_length, hall, GPTConfig.room, fullDisk_volume]
  omega

theorem fullDisk_servable : (fullDisk n hn id).Servable := by
  have hmem : ∀ cp ∈ (fullDisk n hn id).partitions,
      cp.volume = 1 ∧ cp.name = some (ascii "boot") := by
    intro cp hcp
    rcases List.mem_cons.mp hcp with rfl | hcp
    · exact ⟨rfl, rfl⟩
    · rw [List.eq_of_mem_replicate hcp]
      exact ⟨rfl, rfl⟩
  refine ⟨List.cons_ne_nil _ _, fun cp hcp => ?_, fun cp hcp => ?_, ?_⟩
  · rw [(hmem cp hcp).1]
    decide
  · exact ⟨_, (hmem cp hcp).2, by decide, by decide⟩
  · rw [fullDisk_volume]
    omega

/-- When the headers describe an array of no entries, its checksum is that of nothing. -/
theorem fullDisk_crc (hall : n + 1 = 2 ^ 32)
    (hc : Consistent (fun _ => 0) (fullDisk n hn id)) :
    crc32 (fullDisk n hn id).entryArray = crc32 [] := by
  rcases hc.checked (fullDisk_servable n hn id) with hfew | hcrc
  · rw [fullDisk_fitting] at hfew
    omega
  · rw [fullDisk_fitting, hall, Nat.mod_self, Nat.mul_zero, List.take_zero] at hcrc
    exact hcrc

/-- The identifier is near the start of the first entry, and nowhere else. -/
theorem fullDisk_entryArray : ∃ tail, ∀ id,
    (fullDisk n hn id).entryArray = sampleGuid.bytes ++ id.bytes ++ tail := by
  let start := 2 + (n + 1 + 3) / 4
  refine ⟨(leBytes 8 (UInt64.ofNat start).toNat ++ leBytes 8 (UInt64.ofNat start + 1 - 1).toNat
    ++ leBytes 8 5 ++ nameBytes (ascii "boot"))
      ++ (placeFrom (start + 1) (List.replicate n bootPart)).flatMap entryBytes, fun id => ?_⟩
  unfold GPTConfig.entryArray
  rw [fullDisk_fitting, fullDisk_arraySectors, List.take_of_length_le (by rw [fullDisk_length])]
  show entryBytes _ ++ _ = _
  simp only [entryBytes, List.append_assoc]
  rfl

end FullDisk

theorem count_lt : 2 ^ 32 - 1 < 2 ^ 32 := by decide

/-- Of two disks of `2 ^ 32` partitions, one at least has an entry array whose checksum is not that
of the empty array its headers describe. -/
theorem consistent_fails :
    ∃ id ∈ [sampleGuid, { sampleGuid with timeLow := 0 }],
      (fullDisk (2 ^ 32 - 1) count_lt id).Servable
        ∧ ¬ Consistent (fun _ => 0) (fullDisk (2 ^ 32 - 1) count_lt id) := by
  by_contra hnone
  have hboth : ∀ id ∈ [sampleGuid, { sampleGuid with timeLow := 0 }],
      crc32 (fullDisk (2 ^ 32 - 1) count_lt id).entryArray = crc32 [] := by
    intro id hmem
    refine fullDisk_crc _ _ id (by decide) ?_
    by_contra hc
    exact hnone ⟨_, hmem, fullDisk_servable _ _ id, hc⟩
  have h1 := hboth sampleGuid List.mem_cons_self
  have h2 := hboth { sampleGuid with timeLow := 0 } (List.mem_cons_of_mem _ List.mem_cons_self)
  obtain ⟨tail, htail⟩ := fullDisk_entryArray (2 ^ 32 - 1) count_lt
  rw [htail] at h1 h2
  have heq := crc32_append_injective (h1.trans h2.symm)
  revert heq
  decide +kernel

end LinuxUtil.Gpt
