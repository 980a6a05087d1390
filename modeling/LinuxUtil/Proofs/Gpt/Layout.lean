/-
What `GPTGenerate` writes.

First where the partitions go: `allocate_placed` says that the loop places the longest
run of partitions that fits, one behind the other.  Then the bytes: `EntryAt` is a
partition entry, `writeEntries_entries` that the loop leaves one for every placed
partition.  Each round clears as many bytes as the whole array has, starting with its
own entry; it reaches beyond the array, but never back to an entry written before.
-/
import LinuxUtil.Gpt.Gpt
import Mathlib.Algebra.Order.BigOperators.Group.List

namespace LinuxUtil.Gpt

open ByteMem

/-! ### Placement -/

/-- The volumes of the first `i` partitions together. -/
def volumeTo (cps : List PartitionConfig) (i : Nat) : Nat :=
  ((cps.take i).map fun cp => cp.volume.toNat).sum

theorem volumeTo_cons_succ (cp : PartitionConfig) (cps : List PartitionConfig) (i : Nat) :
    volumeTo (cp :: cps) (i + 1) = cp.volume.toNat + volumeTo cps i := by
  simp [volumeTo]

theorem volumeTo_mono (cps : List PartitionConfig) {i j : Nat} (h : i ≤ j) :
    volumeTo cps i ≤ volumeTo cps j := by
  obtain ⟨d, rfl⟩ := Nat.exists_eq_add_of_le h
  unfold volumeTo
  rw [List.take_add, List.map_append, List.sum_append]
  exact Nat.le_add_right _ _

/-- The first `ret` partitions are placed one behind the other from `start` on; they fit into
`room` sectors, and one more would not. -/
structure Placed (cps : List PartitionConfig) (start room : Nat) (ret last : Nat)
    (placed : List PartitionConfig) : Prop where
  le : ret ≤ cps.length
  fits : volumeTo cps ret ≤ room
  longest : ret < cps.length → room < volumeTo cps (ret + 1)
  last : last = start + volumeTo cps ret
  length : placed.length = cps.length
  part : ∀ i cp, i < ret → cps[i]? = some cp →
    placed[i]? = some { cp with startLBA := UInt64.ofNat (start + volumeTo cps i) }

/-- A placed partition is one of the configuration, but for its place. -/
theorem Placed.mem_take {cps placed : List PartitionConfig} {start room ret last : Nat}
    (hp : Placed cps start room ret last placed) {q : PartitionConfig} (hq : q ∈ placed.take ret) :
    ∃ cp ∈ cps, ∃ s, q = { cp with startLBA := s } := by
  obtain ⟨i, hi, rfl⟩ := List.mem_iff_getElem.mp hq
  simp only [List.length_take] at hi
  have hle := hp.le
  have hin : i < cps.length := by omega
  have hpart := hp.part i _ (by omega) (List.getElem?_eq_getElem hin)
  rw [List.getElem?_eq_getElem (by omega)] at hpart
  rw [List.getElem_take, Option.some.inj hpart]
  exact ⟨cps[i], List.getElem_mem hin, _, rfl⟩

theorem allocate_placed :
    ∀ (cps : List PartitionConfig) (start remains : UInt64),
      start.toNat + remains.toNat < 2 ^ 64 →
      Placed cps start.toNat remains.toNat (allocate cps start remains).1
        (allocate cps start remains).2.1.toNat (allocate cps start remains).2.2 := by
  intro cps
  induction cps with
  | nil =>
      intro start remains _
      exact ⟨Nat.le_refl _, Nat.zero_le _, fun h => absurd h (Nat.lt_irrefl _), rfl, rfl,
        fun i cp hi _ => absurd hi (Nat.not_lt_zero _)⟩
  | cons cp cps ih =>
      intro start remains hlt
      unfold allocate
      by_cases hfit : remains < cp.volume
      · rw [if_pos hfit]
        rw [UInt64.lt_iff_toNat_lt] at hfit
        refine ⟨Nat.zero_le _, Nat.zero_le _, fun _ => ?_, rfl, rfl,
          fun i _ hi _ => absurd hi (Nat.not_lt_zero _)⟩
        rw [volumeTo_cons_succ]
        omega
      · rw [if_neg hfit]
        rw [UInt64.lt_iff_toNat_lt, Nat.not_lt] at hfit
        have hstart : (start + cp.volume).toNat = start.toNat + cp.volume.toNat := by
          rw [UInt64.toNat_add, Nat.mod_eq_of_lt (by omega)]
        have hrem : (remains - cp.volume).toNat = remains.toNat - cp.volume.toNat :=
          UInt64.toNat_sub_of_le _ _ (UInt64.le_iff_toNat_le.mpr hfit)
        have h := ih (start + cp.volume) (remains - cp.volume) (by rw [hstart, hrem]; omega)
        rw [hstart, hrem] at h
        generalize allocate cps (start + cp.volume) (remains - cp.volume) = res at h ⊢
        obtain ⟨ret, last, rest⟩ := res
        dsimp only at h ⊢
        refine ⟨?_, ?_, ?_, ?_, ?_, ?_⟩
        · have := h.le
          simp only [List.length_cons]
          omega
        · have := h.fits
          rw [volumeTo_cons_succ]
          omega
        · intro hlt'
          have := h.longest (by simp only [List.length_cons] at hlt'; omega)
          rw [volumeTo_cons_succ]
          omega
        · rw [volumeTo_cons_succ, ← Nat.add_assoc]
          exact h.last
        · simp only [List.length_cons]
          rw [h.length]
        · intro i cp' hi hcp
          cases i with
          | zero =>
              obtain rfl := Option.some.inj hcp
              simp [volumeTo]
          | succ i =>
              have := h.part i cp' (by omega) hcp
              rw [List.getElem?_cons_succ, this, volumeTo_cons_succ, Nat.add_assoc]

/-- The partitions that were not placed are as they came. -/
theorem allocate_rest :
    ∀ (cps : List PartitionConfig) (start remains : UInt64) (i : Nat),
      (allocate cps start remains).1 ≤ i → (allocate cps start remains).2.2[i]? = cps[i]? := by
  intro cps
  induction cps with
  | nil => intro start remains i _; rfl
  | cons cp cps ih =>
      intro start remains i hi
      unfold allocate at hi ⊢
      by_cases hfit : remains < cp.volume
      · rw [if_pos hfit]
      · rw [if_neg hfit] at hi ⊢
        have h := ih (start + cp.volume) (remains - cp.volume)
        generalize allocate cps (start + cp.volume) (remains - cp.volume) = res at h hi ⊢
        obtain ⟨ret, last, rest⟩ := res
        dsimp only at h hi ⊢
        cases i with
        | zero => omega
        | succ i =>
            rw [List.getElem?_cons_succ, List.getElem?_cons_succ]
            exact h i (by omega)

/-! ### One entry -/

@[simp] theorem GUID.length_bytes (g : GUID) : g.bytes.length = 16 := by
  simp [GUID.bytes]

theorem GUID.at_eq {m : Mem} {a : Nat} {g : GUID} (h : read m a 16 = g.bytes) :
    GUID.at m a = g := by
  have hpart : ∀ k w, k + w ≤ 16 → read m (a + k) w = (g.bytes.drop k).take w := by
    intro k w hkw
    rw [read_part m a 16 hkw, h]
  have hload : ∀ k w v, k + w ≤ 16 → (g.bytes.drop k).take w = leBytes w v → v < 256 ^ w →
      load m (a + k) w = v := by
    intro k w v hkw hb hv
    unfold load
    rw [hpart k w hkw, hb, leNat_leBytes, Nat.mod_eq_of_lt hv]
  have h0 : load m a 4 = g.timeLow.toNat :=
    hload 0 4 _ (by omega) (by simp [GUID.bytes]) g.timeLow.toNat_lt
  have h4 : load m (a + 4) 2 = g.timeMid.toNat :=
    hload 4 2 _ (by omega) (by simp [GUID.bytes]) g.timeMid.toNat_lt
  have h6 : load m (a + 6) 2 = g.timeHigh.toNat :=
    hload 6 2 _ (by omega) (by simp [GUID.bytes, List.drop_append, List.take_append]) g.timeHigh.toNat_lt
  have hseq : read m (a + 8) 2 = [g.clockSeqHigh, g.clockSeqLow] := by
    rw [hpart 8 2 (by omega)]
    simp [GUID.bytes, leBytes]
  have hnode : read m (a + 10) 6 = g.node.toList := by
    rw [hpart 10 6 (by omega)]
    simp [GUID.bytes, leBytes]
  have h8 : m (a + 8) = g.clockSeqHigh ∧ m (a + 9) = g.clockSeqLow := by
    rw [read_succ, read_succ] at hseq
    exact ⟨(List.cons.inj hseq).1, (List.cons.inj (List.cons.inj hseq).2).1⟩
  have hvec : (Vector.ofFn fun i : Fin 6 => m (a + 10 + i)) = g.node := by
    apply Vector.ext
    intro i hi
    have := congrArg (fun l => l[i]?) hnode
    simp only [getElem?_read, if_pos hi] at this
    simpa [hi] using this
  unfold GUID.at
  rw [h0, h4, h6, h8.1, h8.2, hvec, UInt32.ofNat_toNat, UInt16.ofNat_toNat, UInt16.ofNat_toNat]

/-- The bytes at `e` are the entry of a partition of this name. -/
structure EntryAt (m : Mem) (e : Nat) (cp : PartitionConfig) (name : List UInt8) : Prop where
  partType : read m e 16 = cp.partType.bytes
  partId : read m (e + 16) 16 = cp.partId.bytes
  startLBA : load m (e + 32) 8 = cp.startLBA.toNat
  endLBA : load m (e + 40) 8 = (cp.startLBA + cp.volume - 1).toNat
  name : readPartitionName m 36 (e + 56) = name

theorem readPartitionName_congr {m m' : Mem} :
    ∀ (n a : Nat), (∀ x, a ≤ x → x < a + 2 * n → m' x = m x) →
      readPartitionName m' n a = readPartitionName m n a := by
  intro n
  induction n with
  | zero => intro a _; rfl
  | succ n ih =>
      intro a h
      unfold readPartitionName
      rw [h a (by omega) (by omega), ih (a + 2) fun x h1 h2 => h x (by omega) (by omega)]

theorem EntryAt.congr {m m' : Mem} {e : Nat} {cp : PartitionConfig} {name : List UInt8}
    (h : EntryAt m e cp name) (heq : ∀ x, e ≤ x → x < e + 128 → m' x = m x) :
    EntryAt m' e cp name := by
  refine ⟨?_, ?_, ?_, ?_, ?_⟩
  · rw [read_congr fun x _ _ => heq x (by omega) (by omega)]
    exact h.partType
  · rw [read_congr fun x _ _ => heq x (by omega) (by omega)]
    exact h.partId
  · rw [load_congr fun x _ _ => heq x (by omega) (by omega)]
    exact h.startLBA
  · rw [load_congr fun x _ _ => heq x (by omega) (by omega)]
    exact h.endLBA
  · rw [readPartitionName_congr _ _ fun x _ _ => heq x (by omega) (by omega)]
    exact h.name

/-- A name comes back from where it was written, with zeros behind it. -/
theorem readPartitionName_write :
    ∀ (name : List UInt8) (m : Mem) (a n : Nat), 0 ∉ name → name.length ≤ n →
      (∀ x, a + 2 * name.length ≤ x → x < a + 2 * n → m x = 0) →
      readPartitionName (write m a (name.flatMap fun ch => [ch, 0])) n a = name := by
  intro name
  induction name with
  | nil =>
      intro m a n _ _ hz
      rw [List.flatMap_nil, write_nil]
      cases n with
      | zero => rfl
      | succ n =>
          unfold readPartitionName
          rw [if_pos (hz a (by simp) (by omega))]
  | cons ch name ih =>
      intro m a n hnul hlen hz
      cases n with
      | zero => simp at hlen
      | succ n =>
          -- What is behind the first character is the name's tail, written behind it.
          have htail : write m a ((ch :: name).flatMap fun ch => [ch, 0])
              = write (write m a [ch, 0]) (a + 2) (name.flatMap fun ch => [ch, 0]) := by
            rw [List.flatMap_cons, write_append]
            rfl
          have hhead : write m a ((ch :: name).flatMap fun ch => [ch, 0]) a = ch := by
            rw [htail, write_apply_of_out _ _ _ (by omega)]
            exact write_apply_of_in m a [ch, 0] (i := 0) (by simp)
          have hch : ch ≠ 0 := by
            rintro rfl
            exact hnul List.mem_cons_self
          unfold readPartitionName
          rw [hhead, if_neg hch, htail]
          congr 1
          refine ih _ (a + 2) n (fun hc => hnul (List.mem_cons_of_mem ch hc))
            (by simp only [List.length_cons] at hlen; omega) ?_
          intro x h1 h2
          rw [write_apply_of_out _ _ _ (by simp; omega)]
          exact hz x (by simp only [List.length_cons]; omega) (by omega)

theorem entryFields_apart (cp : PartitionConfig) : (entryFields cp).Pairwise Field.Apart := by
  simp [entryFields, Field.Apart, Field.int]

theorem entryFields_out (m : Mem) (e : Nat) (cp : PartitionConfig) {x : Nat}
    (hx : x < e ∨ e + 56 ≤ x) : put m e (entryFields cp) x = m x := by
  refine put_apply_of_out m e _ fun f hf => ?_
  have hbound : f.off + f.bytes.length ≤ 56 := by
    simp only [entryFields, List.mem_cons, List.not_mem_nil, or_false] at hf
    rcases hf with rfl | rfl | rfl | rfl | rfl <;> simp [Field.int]
  omega

/-- What one round of the loop leaves behind, if it comes back. -/
def entryImage (m : Mem) (nS : UInt64) (e : Nat) (cp : PartitionConfig) (name : List UInt8) : Mem :=
  writePartitionName (put (fill m e (nS * BLOCK_SIZE).toNat 0) e (entryFields cp)) e name

theorem writeEntry_eq (m : Mem) (nS : UInt64) (e : Nat) {cp : PartitionConfig}
    {name : List UInt8} (hname : cp.name = some name) :
    writeEntry m nS e cp = .ok (entryImage m nS e cp name) := by
  simp only [writeEntry, hname, deref, bind, Except.bind]
  rfl

section EntryImage

variable (m : Mem) (nS : UInt64) (e : Nat) (cp : PartitionConfig) (name : List UInt8)

/-- Nothing in front of the entry has changed. -/
theorem entryImage_below {x : Nat} (hx : x < e) : entryImage m nS e cp name x = m x := by
  unfold entryImage writePartitionName
  rw [write_apply_of_out _ _ _ (Or.inl (by omega)), entryFields_out _ _ _ (Or.inl hx),
    fill_apply_of_out _ _ _ _ (Or.inl hx)]

/-- A name of any length is behind the other fields. -/
theorem read_entryImage {k w : Nat} (hkw : k + w ≤ 56) :
    read (entryImage m nS e cp name) (e + k) w
      = read (put (fill m e (nS * BLOCK_SIZE).toNat 0) e (entryFields cp)) (e + k) w :=
  read_write_of_apart _ _ _ (by omega)

theorem load_entryImage {off w v : Nat} (hw : off + w ≤ 56)
    (hf : Field.int off w v ∈ entryFields cp) :
    load (entryImage m nS e cp name) (e + off) w = v % 256 ^ w := by
  rw [← load_put (fill m e (nS * BLOCK_SIZE).toNat 0) e _ (entryFields_apart cp) hf]
  unfold load
  rw [read_entryImage m nS e cp name hw]

theorem entryImage_startLBA : load (entryImage m nS e cp name) (e + 32) 8 = cp.startLBA.toNat := by
  rw [load_entryImage m nS e cp name (v := cp.startLBA.toNat) (by omega) (by simp [entryFields])]
  exact Nat.mod_eq_of_lt cp.startLBA.toNat_lt

theorem entryImage_endLBA :
    load (entryImage m nS e cp name) (e + 40) 8 = (cp.startLBA + cp.volume - 1).toNat := by
  rw [load_entryImage m nS e cp name (v := (cp.startLBA + cp.volume - 1).toNat) (by omega)
    (by simp [entryFields])]
  exact Nat.mod_eq_of_lt (UInt64.toNat_lt _)

end EntryImage

/-- One round of the loop: the entry is there. -/
theorem entryImage_entry (m : Mem) (nS : UInt64) (e : Nat) (cp : PartitionConfig)
    {name : List UInt8} (hshort : name.length ≤ 36) (hnul : 0 ∉ name)
    (hclear : 128 ≤ (nS * BLOCK_SIZE).toNat) : EntryAt (entryImage m nS e cp name) e cp name := by
  have hput : ∀ f ∈ entryFields cp,
      read (put (fill m e (nS * BLOCK_SIZE).toNat 0) e (entryFields cp)) (e + f.off)
        f.bytes.length = f.bytes :=
    fun f hf => read_put _ _ _ (entryFields_apart cp) hf
  refine ⟨?_, ?_, entryImage_startLBA m nS e cp name, entryImage_endLBA m nS e cp name, ?_⟩
  · have h := read_entryImage m nS e cp name (k := 0) (w := 16) (by omega)
    have h' := hput ⟨0, cp.partType.bytes⟩ (by simp [entryFields])
    simp only [Nat.add_zero, GUID.length_bytes] at h h'
    rw [h, h']
  · have h := read_entryImage m nS e cp name (k := 16) (w := 16) (by omega)
    have h' := hput ⟨16, cp.partId.bytes⟩ (by simp [entryFields])
    simp only [GUID.length_bytes] at h'
    rw [h, h']
  · refine readPartitionName_write name _ (e + 56) 36 hnul hshort fun x h1 h2 => ?_
    rw [entryFields_out _ _ _ (Or.inr (by omega)), fill_apply_of_in _ _ _ _ (by omega) (by omega)]

/-! ### The entry array -/

/-- The loop leaves an entry for each of its partitions. -/
theorem writeEntries_entries (nS : UInt64) (hclear : 128 ≤ (nS * BLOCK_SIZE).toNat) :
    ∀ (cps : List PartitionConfig) (m : Mem) (e : Nat),
      (∀ cp ∈ cps, ∃ name, cp.name = some name ∧ name.length ≤ 36 ∧ 0 ∉ name) →
      ∃ m', writeEntries nS cps m e = .ok m' ∧ (∀ x, x < e → m' x = m x)
        ∧ ∀ i cp, cps[i]? = some cp →
          ∃ name, cp.name = some name ∧ EntryAt m' (e + 128 * i) cp name := by
  intro cps
  induction cps with
  | nil => intro m e _; exact ⟨m, rfl, fun _ _ => rfl, fun i cp h => by simp at h⟩
  | cons cp cps ih =>
      intro m e hnames
      obtain ⟨name, hname, hshort, hnul⟩ := hnames cp List.mem_cons_self
      obtain ⟨m2, hm2, hbelow2, hrest⟩ := ih (entryImage m nS e cp name) (e + 128)
        fun cp' h => hnames cp' (List.mem_cons_of_mem cp h)
      have hentry := entryImage_entry m nS e cp hshort hnul hclear
      refine ⟨m2, ?_, ?_, ?_⟩
      · unfold writeEntries
        rw [writeEntry_eq m nS e hname]
        exact hm2
      · intro x hx
        rw [hbelow2 x (by omega), entryImage_below _ _ _ _ _ hx]
      · intro i cp' hi
        cases i with
        | zero =>
            obtain rfl := Option.some.inj hi
            exact ⟨name, hname, hentry.congr fun x _ h2 => hbelow2 x (by omega)⟩
        | succ i =>
            have := hrest i cp' hi
            rwa [show e + 128 * (i + 1) = e + 128 + 128 * i by omega]

/-- Whatever the names, an array that was written has the sectors of each partition. -/
theorem writeEntries_lba (nS : UInt64) :
    ∀ (cps : List PartitionConfig) (m m' : Mem) (e : Nat), writeEntries nS cps m e = .ok m' →
      (∀ x, x < e → m' x = m x)
        ∧ ∀ i cp, cps[i]? = some cp → load m' (e + 128 * i + 32) 8 = cp.startLBA.toNat
          ∧ load m' (e + 128 * i + 40) 8 = (cp.startLBA + cp.volume - 1).toNat := by
  intro cps
  induction cps with
  | nil =>
      intro m m' e h
      obtain rfl := Except.ok.inj h
      exact ⟨fun _ _ => rfl, fun i cp h => by simp at h⟩
  | cons cp cps ih =>
      intro m m' e h
      cases hname : cp.name with
      | none => simp [writeEntries, writeEntry, hname, deref, bind, Except.bind] at h
      | some name =>
          unfold writeEntries at h
          rw [writeEntry_eq m nS e hname] at h
          obtain ⟨hbelow, hrest⟩ := ih _ m' (e + 128) h
          refine ⟨fun x hx => ?_, fun i cp' hi => ?_⟩
          · rw [hbelow x (by omega), entryImage_below _ _ _ _ _ hx]
          · cases i with
            | zero =>
                obtain rfl := Option.some.inj hi
                rw [Nat.mul_zero, Nat.add_zero, load_congr fun x _ _ => hbelow x (by omega),
                  load_congr fun x _ _ => hbelow x (by omega)]
                exact ⟨entryImage_startLBA m nS e cp name, entryImage_endLBA m nS e cp name⟩
            | succ i =>
                have := hrest i cp' hi
                rwa [show e + 128 * (i + 1) = e + 128 + 128 * i by omega]

end LinuxUtil.Gpt
