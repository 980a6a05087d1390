/-
A call keeps the image an image.

`Image.frame` is the failed call: the reserved sectors, the tables, the directory and
the clusters in use are as before, and the backups are fresh copies.  `Image.commit`
is the one that stores its file, and the image then holds one file more.  The writes
of the second lie in five regions that do not overlap, so each fact about the new
image either looks at one write or is the old fact carried over.
-/
import LinuxUtil.Proofs.Fat.Copyin
import Mathlib.Data.List.TakeWhile

namespace LinuxUtil.Fat

open ByteMem

variable {g : Layout} {m : Mem} {fs : List Stored}

/-! ### Carrying an image over -/

/-- A stored file ends before the first free cluster. -/
theorem contents_fit (hg : g.WF) {j : Nat} {f : Stored} (hf : fs[j]? = some f) :
    g.cluster (g.start fs j) + f.bytes.length ≤ g.cluster (g.next fs) := by
  have h1 := le_dataClusters hg f.bytes.length
  have h2 : g.bpc * g.dataClusters f.bytes.length ≤ g.bpc * g.clusters f :=
    Nat.mul_le_mul_left _ (Nat.le_max_right _ _)
  have h3 := g.cluster_mono (start_add_le (g := g) fs hf)
  rw [g.cluster_add (by have := start_ge (g := g) fs j; omega)] at h3
  omega

theorem next_le_entries (hg : g.WF) (h : Image g m fs) : 4 * g.next fs ≤ g.fatBytes := by
  by_cases hfs : fs = []
  · subst hfs
    have := hg.fatBytes_ge
    simp [Layout.next, Layout.used]
    omega
  · have h1 := h.fits hfs
    have h2 := hg.maxCluster_fit
    omega

theorem data_le_cluster (fs : List Stored) : g.data + g.bpc ≤ g.cluster (g.next fs) := by
  have := g.cluster_mono (next_ge (g := g) fs)
  rwa [g.cluster_root] at this

/-- Nothing an image says depends on the free clusters or the backup sectors. -/
theorem Image.frame (hg : g.WF) (h : Image g m fs) {m' : Mem}
    (hlow : ∀ x, x < 6 * g.bps → m' x = m x)
    (hhigh : ∀ x, g.fat1 ≤ x → x < g.cluster (g.next fs) → m' x = m x)
    (hbpb : ∀ x, x < 512 → m' (6 * g.bps + x) = m' x)
    (hfs : ∀ x, x < 512 → m' (7 * g.bps + x) = m' (g.bps + x)) : Image g m' fs := by
  have hb := hg.bps_ge
  have hd := data_le_cluster (g := g) fs
  have hf2 : g.fat2 = g.fat1 + g.fatBytes := rfl
  have hdata : g.data = g.fat2 + g.fatBytes := rfl
  have hnx := next_le_entries hg h
  have hent := hg.fatBytes_ge
  refine ⟨h.header.congr fun x hx => hlow x (by omega), ?_, ?_, h.fits, h.rootFits, ?_, ?_, ?_, ?_,
    ?_, ?_, ?_, hbpb, hfs⟩
  · rw [load_congr fun x _ _ => hlow x (by omega)]
    exact h.nextFree
  · rw [load_congr fun x _ _ => hlow x (by omega)]
    exact h.freeCount
  · rw [entry_congr fun x _ _ => hhigh x (by omega) (by omega)]
    exact h.rootChain
  · intro j f hf
    have := start_add_le (g := g) fs hf
    exact (h.chain j f hf).congr fun x _ _ => hhigh x (by omega) (by omega)
  · intro x h1 h2
    rw [hhigh x (by omega) (by omega)]
    exact h.freeEntries x h1 h2
  · intro x h1 h2
    rw [hhigh _ (by omega) (by omega), hhigh x h1 (by omega)]
    exact h.mirror x h1 h2
  · intro j f hf
    have hj : j < fs.length := (List.getElem?_eq_some_iff.mp hf).1
    have hroot := h.rootFits
    exact (h.dirUsed j f hf).congr fun x _ _ => hhigh x (by omega) (by omega)
  · intro x h1 h2
    rw [hhigh x (by omega) (by omega)]
    exact h.dirFree x h1 h2
  · intro j f hf
    have h1 := contents_fit hg hf
    have h2 := g.cluster_mono (start_ge (g := g) fs j)
    rw [g.cluster_root] at h2
    rw [read_congr fun x _ _ => hhigh x (by omega) (by omega)]
    exact h.contents j f hf

/-! ### The new directory entry -/

theorem packed_dirEntry (attr c n : UInt32) : Packed 11 (dirEntryFields attr c n) 32 := by
  simp [Packed, dirEntryFields, Field.int]

theorem takeWhile_noDot (name : FileName) :
    name.bytes.takeWhile (· ≠ 46) = name.bytes ∧ name.bytes.dropWhile (· ≠ 46) = [] := by
  have hall : ∀ b ∈ name.bytes, (decide (b ≠ 46)) = true := by
    intro b hb
    simp only [decide_eq_true_eq]
    intro hc
    exact name.noDot (hc ▸ hb)
  exact ⟨List.takeWhile_eq_self_iff.mpr hall, List.dropWhile_eq_nil_iff.mpr hall⟩

theorem writeName_eq (m : Mem) (e : Nat) (name : FileName) :
    writeName m e name.bytes = write m e name.bytes := by
  obtain ⟨h1, h2⟩ := takeWhile_noDot name
  unfold writeName
  rw [h1, h2]
  simp

theorem writeDirEntry_eq (m : Mem) (e : Nat) (name : FileName) (attr c n : UInt32) :
    writeDirEntry m e name.bytes attr c n
      = put (write (fill m e 32 0) e name.bytes) e (dirEntryFields attr c n) := by
  rw [← writeName_eq]
  rfl

theorem writeDirEntry_apply_of_out (m : Mem) (e : Nat) (name : FileName) (attr c n : UInt32)
    {x : Nat} (hx : x < e ∨ e + 32 ≤ x) : writeDirEntry m e name.bytes attr c n x = m x := by
  have := name.short
  rw [writeDirEntry_eq, (packed_dirEntry attr c n).put_out _ _ (by omega),
    write_apply_of_out _ _ _ (by omega), fill_apply_of_out _ _ _ _ (by omega)]

theorem writeDirEntry_dirEntry (m : Mem) (e : Nat) (f : Stored) {c : Nat} (hc : c < 2 ^ 32)
    (hn : f.bytes.length < 2 ^ 32) :
    DirEntry (writeDirEntry m e f.name.bytes f.attr (UInt32.ofNat c)
      (UInt32.ofNat f.bytes.length)) e f c := by
  have hshort := f.name.short
  have hp := packed_dirEntry f.attr (UInt32.ofNat c) (UInt32.ofNat f.bytes.length)
  rw [writeDirEntry_eq]
  refine ⟨?_, ?_, ?_, ?_⟩
  · -- The fields start at byte 11, so the name is what is left of the cleared entry.
    have hfields : read (put (write (fill m e 32 0) e f.name.bytes) e
          (dirEntryFields f.attr (UInt32.ofNat c) (UInt32.ofNat f.bytes.length))) e 11
        = read (write (fill m e 32 0) e f.name.bytes) e 11 :=
      read_congr fun x _ _ => hp.put_out _ _ (by omega)
    rw [hfields, show 11 = f.name.bytes.length + (11 - f.name.bytes.length) by omega, read_add,
      read_write_self, show f.name.bytes.length + (11 - f.name.bytes.length)
        - f.name.bytes.length = 11 - f.name.bytes.length by omega]
    congr 1
    apply List.ext_getElem?
    intro i
    rw [getElem?_read, List.getElem?_replicate]
    by_cases hi : i < 11 - f.name.bytes.length
    · rw [if_pos hi, if_pos hi, write_apply_of_out _ _ _ (by omega),
        fill_apply_of_in _ _ _ _ (by omega) (by omega)]
    · rw [if_neg hi, if_neg hi]
  · rw [load_put _ _ _ hp.apart (v := (UInt32.ofNat c >>> 16).toNat) (by simp [dirEntryFields]),
      UInt32.toNat_shiftRight, toNat_ofNat_lt hc]
    show c >>> 16 % 256 ^ 2 = c / 65536
    rw [Nat.shiftRight_eq_div_pow, Nat.mod_eq_of_lt (by omega)]
  · rw [load_put _ _ _ hp.apart (v := (UInt32.ofNat c &&& 0xFFFF).toNat) (by simp [dirEntryFields]),
      UInt32.toNat_and, toNat_ofNat_lt hc]
    show (c &&& 2 ^ 16 - 1) % 256 ^ 2 = c % 65536
    rw [Nat.and_two_pow_sub_one_eq_mod, Nat.mod_eq_of_lt (by omega)]
  · rw [load_put _ _ _ hp.apart (v := (UInt32.ofNat f.bytes.length).toNat)
      (by simp [dirEntryFields]), toNat_ofNat_lt hn, Nat.mod_eq_of_lt (by omega)]

/-- However long the name is, nothing in front of the entry is written. -/
theorem writeDirEntry_below (m : Mem) (e : Nat) (name : List UInt8) (attr c n : UInt32) {x : Nat}
    (hx : x < e) : writeDirEntry m e name attr c n x = m x := by
  have hname : writeName (fill m e 32 0) e name x = fill m e 32 0 x := by
    unfold writeName
    split
    · rw [write_apply_of_out _ _ _ (Or.inl (by omega)), write_apply_of_out _ _ _ (Or.inl hx)]
    · rw [write_apply_of_out _ _ _ (Or.inl hx)]
  unfold writeDirEntry
  rw [(packed_dirEntry attr c n).put_out _ _ (by omega), hname,
    fill_apply_of_out _ _ _ _ (Or.inl hx)]

/-! ### The writes of a stored file -/

section Record

variable {name : List UInt8} {attr : UInt32} {k c n free : Nat}

/-- Below the backups, `recordAt` touches the two counters of FSInfo only. -/
theorem recordAt_low {x : Nat} (hx : x < 6 * g.bps) (hout : x < g.bps + 488 ∨ g.bps + 496 ≤ x) :
    g.recordAt m k c name attr n free x = m x := by
  have hf1 : g.fat1 = 8 * g.bps := rfl
  have hf2 : g.fat2 = g.fat1 + g.fatBytes := rfl
  have hd : g.data = g.fat2 + g.fatBytes := rfl
  unfold Layout.recordAt
  rw [sync_apply_of_out _ (Or.inl hx), store_apply_of_out _ _ _ _ (by omega),
    store_apply_of_out _ _ _ _ (by omega),
    writeChain_apply_of_out _ (fileClusters_pos g n) (by omega) (by omega),
    writeDirEntry_below _ _ _ _ _ _ (by omega)]

/-- Behind the reserved sectors it writes the directory entry and the chain. -/
theorem recordAt_high (hg : g.WF) {x : Nat} (hx : g.fat1 ≤ x) :
    g.recordAt m k c name attr n free x
      = g.writeChain (writeDirEntry m (g.data + 32 * k) name attr (UInt32.ofNat c) (UInt32.ofNat n))
          c (g.fileClusters n) x := by
  have hb := hg.bps_ge
  have hf1 : g.fat1 = 8 * g.bps := rfl
  unfold Layout.recordAt
  rw [sync_apply_of_out _ (Or.inr (by omega)), store_apply_of_out _ _ _ _ (by omega),
    store_apply_of_out _ _ _ _ (by omega)]

theorem recordAt_nextFree (hg : g.WF) (hfit : c + g.fileClusters n ≤ g.maxCluster) :
    load (g.recordAt m k c name attr n free) (g.bps + 492) 4 = c + g.fileClusters n := by
  have hb := hg.bps_ge
  have hmax := hg.maxCluster_lt
  have hpos := fileClusters_pos g n
  unfold Layout.recordAt
  rw [load_congr fun x _ _ => sync_apply_of_out _ (Or.inl (by omega)), load_store_self,
    Nat.mod_eq_of_lt (by omega)]
  omega

theorem recordAt_freeCount (hg : g.WF) :
    load (g.recordAt m k c name attr n free) (g.bps + 488) 4 = free % 2 ^ 32 := by
  have hb := hg.bps_ge
  unfold Layout.recordAt
  rw [load_congr fun x _ _ => sync_apply_of_out _ (Or.inl (by omega)),
    load_store_of_apart _ _ _ _ (by omega), load_store_self]
  rfl

end Record

section Record

variable {name : FileName} {attr : UInt32} {n : Nat}

theorem record_low {x : Nat} (hx : x < 6 * g.bps) (hout : x < g.bps + 488 ∨ g.bps + 496 ≤ x) :
    g.record m fs name.bytes attr n x = m x :=
  recordAt_low hx hout

theorem record_high (hg : g.WF) {x : Nat} (hx : g.fat1 ≤ x) :
    g.record m fs name.bytes attr n x
      = g.writeChain (writeDirEntry m (g.data + 32 * fs.length) name.bytes attr
          (UInt32.ofNat (g.next fs)) (UInt32.ofNat n)) (g.next fs) (g.fileClusters n) x :=
  recordAt_high hg hx

theorem record_data (hg : g.WF) (hfit : g.next fs + g.fileClusters n ≤ g.maxCluster) {x : Nat}
    (hx : g.data ≤ x) :
    g.record m fs name.bytes attr n x
      = writeDirEntry m (g.data + 32 * fs.length) name.bytes attr (UInt32.ofNat (g.next fs))
          (UInt32.ofNat n) x := by
  have hent := hg.maxCluster_fit
  have hf2 : g.fat2 = g.fat1 + g.fatBytes := rfl
  have hd : g.data = g.fat2 + g.fatBytes := rfl
  rw [record_high hg (by omega), writeChain_apply_of_out _ (fileClusters_pos g n) (by omega) (by omega)]

theorem record_nextFree (hg : g.WF) (hfit : g.next fs + g.fileClusters n ≤ g.maxCluster) :
    load (g.record m fs name.bytes attr n) (g.bps + 492) 4 = g.next fs + g.fileClusters n :=
  recordAt_nextFree hg hfit

theorem record_freeCount (hg : g.WF) :
    load (g.record m fs name.bytes attr n) (g.bps + 488) 4
      = (g.initialFree - g.charged fs - g.dataClusters n) % 2 ^ 32 :=
  recordAt_freeCount hg

end Record

/-- The counter `createFAT32` starts from is a 32-bit number. -/
theorem initialFree_lt (h : Image g m fs) : g.initialFree - g.charged fs < 2 ^ 32 := by
  have h1 := h.freeCount
  have h2 : load m (g.bps + 488) 4 < 2 ^ 32 := load_lt m _ 4
  omega

/-! ### A call that stored its file -/

section Stored

variable {f : Stored}

/-- The image a call leaves behind that stored the file `f`. -/
def Layout.commit (g : Layout) (m : Mem) (fs : List Stored) (f : Stored) : Mem :=
  g.record (g.putData m fs f.bytes.length f.bytes) fs f.name.bytes f.attr f.bytes.length

theorem commit_low {x : Nat} (hx : x < 6 * g.bps) (hout : x < g.bps + 488 ∨ g.bps + 496 ≤ x) :
    g.commit m fs f x = m x := by
  have hd := data_le_cluster (g := g) fs
  have h1 : g.fat1 = 8 * g.bps := rfl
  have h2 : g.data = g.fat1 + g.fatBytes + g.fatBytes := rfl
  unfold Layout.commit
  rw [record_low hx hout, putData_below _ _ _ _ (by omega)]

/-- In the tables a call changes the entries of the new chain, and nothing else. -/
theorem commit_tables (hg : g.WF) {x : Nat} (h1 : g.fat1 ≤ x) (hx : x < g.data)
    (hout1 : x < g.fat1 + 4 * g.next fs ∨ g.fat1 + 4 * (g.next fs + g.clusters f) ≤ x)
    (hout2 : x < g.fat2 + 4 * g.next fs ∨ g.fat2 + 4 * (g.next fs + g.clusters f) ≤ x) :
    g.commit m fs f x = m x := by
  unfold Layout.commit
  rw [record_high hg h1, writeChain_apply_of_out _ (fileClusters_pos g _) hout1 hout2,
    writeDirEntry_apply_of_out _ _ _ _ _ _ (Or.inl (by omega)),
    putData_below _ _ _ _ (root_below fs (by omega))]

theorem commit_chain (hg : g.WF) (hfit : g.next fs + g.clusters f ≤ g.maxCluster) :
    ChainAt g (g.commit m fs f) (g.next fs) (g.clusters f) := by
  have hmax := hg.maxCluster_lt
  have hent := hg.maxCluster_fit
  unfold Layout.commit
  exact (writeChain_chain _ (clusters_pos f) (by omega) (by omega)).congr
    fun x _ _ => record_high hg (by omega)

theorem commit_mirror (hg : g.WF) (h : Image g m fs)
    (hfit : g.next fs + g.clusters f ≤ g.maxCluster) :
    ∀ x, g.fat1 ≤ x → x < g.fat2 → g.commit m fs f (x + g.fatBytes) = g.commit m fs f x := by
  intro x h1 h2
  have hent := hg.maxCluster_fit
  have hf2 : g.fat2 = g.fat1 + g.fatBytes := rfl
  have hd : g.data = g.fat2 + g.fatBytes := rfl
  unfold Layout.commit
  rw [record_high hg (by omega), record_high hg h1]
  refine writeChain_mirror _ (fileClusters_pos g _) ?_ ?_ x h1 h2
  · show 4 * (g.next fs + g.clusters f) ≤ g.fatBytes
    omega
  · intro y h3 h4
    rw [writeDirEntry_apply_of_out _ _ _ _ _ _ (Or.inl (by omega)),
      writeDirEntry_apply_of_out _ _ _ _ _ _ (Or.inl (by omega)),
      putData_below _ _ _ _ (root_below fs (by omega)),
      putData_below _ _ _ _ (root_below fs (by omega)), h.mirror y h3 h4]

/-- In the directory a call changes its own entry, and nothing else. -/
theorem commit_dir (hg : g.WF) (hfit : g.next fs + g.clusters f ≤ g.maxCluster) {x : Nat}
    (h1 : g.data ≤ x) (h2 : x < g.cluster (g.next fs))
    (hout : x < g.data + 32 * fs.length ∨ g.data + 32 * fs.length + 32 ≤ x) :
    g.commit m fs f x = m x := by
  unfold Layout.commit
  rw [record_data hg hfit h1, writeDirEntry_apply_of_out _ _ _ _ _ _ (by omega),
    putData_below _ _ _ _ h2]

theorem commit_dirEntry (hg : g.WF) (hfit : g.next fs + g.clusters f ≤ g.maxCluster)
    (hlen : f.bytes.length < 2 ^ 32) :
    DirEntry (g.commit m fs f) (g.data + 32 * fs.length) f (g.next fs) := by
  have hmax := hg.maxCluster_lt
  unfold Layout.commit
  exact (writeDirEntry_dirEntry _ _ f (by omega) hlen).congr
    fun x _ _ => record_data hg hfit (by omega)

theorem commit_contents (hg : g.WF) (hfit : g.next fs + g.clusters f ≤ g.maxCluster)
    (hroot : 32 * fs.length + 32 ≤ g.bpc) :
    read (g.commit m fs f) (g.cluster (g.next fs)) f.bytes.length = f.bytes := by
  have hd := data_le_cluster (g := g) fs
  have hrec : read (g.commit m fs f) (g.cluster (g.next fs)) f.bytes.length
      = read (g.putData m fs f.bytes.length f.bytes) (g.cluster (g.next fs)) f.bytes.length := by
    refine read_congr fun x _ _ => ?_
    unfold Layout.commit
    rw [record_data hg hfit (by omega), writeDirEntry_apply_of_out _ _ _ _ _ _ (by omega)]
  rw [hrec]
  exact read_write_self _ _ _

/-- The backups are those of the sectors the call left behind. -/
theorem commit_backup (hg : g.WF) {x : Nat} (hx : x < 512) :
    g.commit m fs f (6 * g.bps + x) = g.commit m fs f x
      ∧ g.commit m fs f (7 * g.bps + x) = g.commit m fs f (g.bps + x) := by
  have hb := hg.bps_ge
  unfold Layout.commit Layout.record
  rw [sync_bpb _ (by omega), sync_fsInfo _ (by omega), sync_apply_of_out _ (Or.inl (by omega)),
    sync_apply_of_out _ (Or.inl (by omega))]
  exact ⟨rfl, rfl⟩

/-- **A call that stores its file leaves an image with that file added.** -/
theorem Image.commit (hg : g.WF) (h : Image g m fs) (hroot : fs.length < g.bpc / 32)
    (hfit : g.next fs + g.clusters f ≤ g.maxCluster) (hlen : f.bytes.length < 2 ^ 32) :
    Image g (g.commit m fs f) (fs ++ [f]) := by
  have hb := hg.bps_ge
  have hf1 : g.fat1 = 8 * g.bps := rfl
  have hf2 : g.fat2 = g.fat1 + g.fatBytes := rfl
  have hdata : g.data = g.fat2 + g.fatBytes := rfl
  have hent := hg.maxCluster_fit
  have hroot32 : 32 * fs.length + 32 ≤ g.bpc := by
    have := hg.bpc_entries
    omega
  have hd := data_le_cluster (g := g) fs
  have hnx := next_ge (g := g) fs
  have hnext : g.next (fs ++ [f]) = g.next fs + g.clusters f := next_append fs f
  -- An old chain lies below the new one, an old file below the new data.
  have htab : ∀ x, g.fat1 ≤ x → x < g.fat1 + 4 * g.next fs → g.commit m fs f x = m x :=
    fun x h1 h2 => commit_tables hg h1 (by omega) (by omega) (by omega)
  refine ⟨h.header.congr fun x hx => commit_low (by omega) (by omega), ?_, ?_, ?_, ?_, ?_, ?_, ?_,
    commit_mirror hg h hfit, ?_, ?_, ?_, fun x hx => (commit_backup hg hx).1,
    fun x hx => (commit_backup hg hx).2⟩
  · rw [hnext]
    exact record_nextFree hg hfit
  · have hfree : g.charged fs + g.dataClusters f.bytes.length ≤ g.initialFree :=
      free_enough hg (Nat.le_trans (Nat.add_le_add_left (Nat.le_max_right _ _) _) hfit)
    have hlt := initialFree_lt h
    rw [charged_append]
    unfold Layout.commit
    rw [record_freeCount hg, Nat.mod_eq_of_lt (by omega)]
    omega
  · intro _
    rw [hnext]
    exact hfit
  · simp only [List.length_append, List.length_cons, List.length_nil]
    omega
  · rw [entry_congr fun x _ _ => htab x (by omega) (by omega)]
    exact h.rootChain
  · intro j f' hj
    rcases getElem?_append_singleton hj with hj | ⟨rfl, rfl⟩
    · have hlt : j < fs.length := (List.getElem?_eq_some_iff.mp hj).1
      have hle := start_add_le (g := g) fs hj
      rw [start_append_lt (by omega)]
      exact (h.chain j f' hj).congr fun x _ _ => htab x (by omega) (by omega)
    · rw [start_append_lt (Nat.le_refl _), start_length]
      exact commit_chain hg hfit
  · intro x h1 h2
    rw [hnext] at h1
    rw [commit_tables hg (by omega) (by omega) (by omega) (by omega)]
    exact h.freeEntries x (by omega) h2
  · intro j f' hj
    rcases getElem?_append_singleton hj with hj | ⟨rfl, rfl⟩
    · have hlt : j < fs.length := (List.getElem?_eq_some_iff.mp hj).1
      rw [start_append_lt (by omega)]
      exact (h.dirUsed j f' hj).congr
        fun x _ _ => commit_dir hg hfit (by omega) (by omega) (by omega)
    · rw [start_append_lt (Nat.le_refl _), start_length]
      exact commit_dirEntry hg hfit hlen
  · intro x h1 h2
    simp only [List.length_append, List.length_cons, List.length_nil] at h1
    rw [commit_dir hg hfit (by omega) (by omega) (by omega)]
    exact h.dirFree x (by omega) h2
  · intro j f' hj
    rcases getElem?_append_singleton hj with hj | ⟨rfl, rfl⟩
    · have hlt : j < fs.length := (List.getElem?_eq_some_iff.mp hj).1
      have hend := contents_fit hg hj
      have hbeg := g.cluster_mono (start_ge (g := g) fs j)
      rw [g.cluster_root] at hbeg
      rw [start_append_lt (by omega),
        read_congr fun x _ _ => commit_dir hg hfit (by omega) (by omega) (by omega)]
      exact h.contents j f' hj
    · rw [start_append_lt (Nat.le_refl _), start_length]
      exact commit_contents hg hfit hroot32

end Stored

end LinuxUtil.Fat
