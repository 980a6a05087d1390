/-
What a reader finds on an image.

A FAT driver that is handed an image parses the super block, goes through the root
directory and follows the chain of each entry.  `chainFrom` is that walk, over one
of the tables; `contentsAt` puts the clusters of the chain together and cuts them to
the size the entry gives.  On an `Image` the walk of a file's entry is the run of its
clusters and the contents are the file's bytes.
-/
import LinuxUtil.Proofs.Fat.Commit

namespace LinuxUtil.Fat

open ByteMem

/-! ### The walk -/

/-- Entry `c` of the table at `t`. -/
def tableEntry (m : Mem) (t c : Nat) : Nat := load m (t + 4 * c) 4

/-- The chain that starts with `c`, if it ends within `fuel` steps. -/
def chainFrom (m : Mem) (t : Nat) : Nat → Nat → Option (List Nat)
  | 0, _ => none
  | fuel + 1, c =>
      if tableEntry m t c = endOfChain.toNat then some [c]
      else (chainFrom m t fuel (tableEntry m t c)).map (c :: ·)

namespace FAT32Super

variable (sb : FAT32Super)

/-- Where root directory entry `j` is. -/
def rootEntry (j : Nat) : Nat := sb.rootDir.getD 0 + 32 * j

/-- The entries of one table. -/
def numEntries : Nat := sb.bytesPerFAT.toNat / 4

/-- Root directory entry `j` is in use. -/
def Used (m : Mem) (j : Nat) : Prop := j < sb.numRootEntry.toNat ∧ m (sb.rootEntry j) ≠ 0

/-- `firstClusterHigh:firstClusterLow` of root directory entry `j`. -/
def firstCluster (m : Mem) (j : Nat) : Nat :=
  65536 * load m (sb.rootEntry j + 20) 2 + load m (sb.rootEntry j + 26) 2

/-- `fileSize` of root directory entry `j`. -/
def fileSize (m : Mem) (j : Nat) : Nat := load m (sb.rootEntry j + 28) 4

/-- The name bytes of root directory entry `j`. -/
def entryName (m : Mem) (j : Nat) : List UInt8 := read m (sb.rootEntry j) 11

/-- The chain of root directory entry `j` in the table at `t`. -/
def entryChain (m : Mem) (t j : Nat) : Option (List Nat) :=
  chainFrom m t sb.numEntries (sb.firstCluster m j)

/-- The bytes of one cluster. -/
def clusterBytes (m : Mem) (c : Nat) : Option (List UInt8) :=
  (FAT32SuperCluster sb (UInt32.ofNat c)).map fun a => read m a sb.bytesPerCluster.toNat

/-- The clusters of root directory entry `j`, put together and truncated to its size. -/
def contentsAt (m : Mem) (t j : Nat) : Option (List UInt8) := do
  let chain ← sb.entryChain m t j
  let blocks ← chain.mapM (sb.clusterBytes m)
  return blocks.flatten.take (sb.fileSize m j)

end FAT32Super

/-! ### The walk on an image -/

variable {g : Layout} {m : Mem} {fs : List Stored}

/-- Following a run of linked entries gives the run. -/
theorem chainFrom_eq (m : Mem) (t : Nat) :
    ∀ (n c fuel : Nat), n < fuel →
      (∀ i, i < n → tableEntry m t (c + i) = c + i + 1) →
      tableEntry m t (c + n) = 0xFFFFFFFF → c + n < 0xFFFFFFFF →
      chainFrom m t fuel c = some (List.range' c (n + 1)) := by
  intro n
  induction n with
  | zero =>
      intro c fuel hfuel _ hend _
      cases fuel with
      | zero => omega
      | succ fuel =>
          have hhead : tableEntry m t c = endOfChain.toNat := hend
          unfold chainFrom
          rw [if_pos hhead]
          rfl
  | succ n ih =>
      intro c fuel hfuel hlink hend hlt
      cases fuel with
      | zero => omega
      | succ fuel =>
          have hhead : tableEntry m t c = c + 1 := hlink 0 (by omega)
          have hne : tableEntry m t c ≠ endOfChain.toNat := by
            rw [hhead, show endOfChain.toNat = 0xFFFFFFFF from rfl]
            omega
          have htail := ih (c + 1) fuel (by omega)
            (fun i hi => by
              have := hlink (i + 1) (by omega)
              rwa [show c + (i + 1) = c + 1 + i by omega] at this)
            (by rwa [show c + 1 + n = c + (n + 1) by omega]) (by omega)
          unfold chainFrom
          rw [if_neg hne, hhead, htail]
          rfl

/-- Consecutive clusters put together are one run of bytes. -/
theorem flatten_clusters (m : Mem) (g : Layout) :
    ∀ (n c : Nat), 2 ≤ c →
      ((List.range' c n).map fun c => read m (g.cluster c) g.bpc).flatten
        = read m (g.cluster c) (g.bpc * n) := by
  intro n
  induction n with
  | zero => intro c _; simp
  | succ n ih =>
      intro c hc
      rw [List.range'_succ, List.map_cons, List.flatten_cons, ih (c + 1) (by omega),
        g.cluster_add hc, Nat.mul_one, Nat.mul_succ, Nat.add_comm (g.bpc * n), read_add]

theorem mapM_some_of_forall {α β : Type} {f : α → Option β} {h : α → β} :
    ∀ (l : List α), (∀ a ∈ l, f a = some (h a)) → l.mapM f = some (l.map h) := by
  intro l
  induction l with
  | nil => intro _; rfl
  | cons a l ih =>
      intro hf
      rw [List.mapM_cons, hf a List.mem_cons_self, ih fun b hb => hf b (List.mem_cons_of_mem a hb)]
      rfl

theorem cluster_pointer (hg : g.WF) (hsz : g.nSector * g.bps ≤ 2 ^ 32) (k : Nat) {c : Nat}
    (h2 : 2 ≤ c) (hc : c < g.maxCluster) :
    FAT32SuperCluster (g.super k) (UInt32.ofNat c) = some (g.cluster c) := by
  have hmax := hg.maxCluster_lt
  have hbytes := cluster_lt hg hsz h2 (Nat.le_of_lt hc)
  have hcn : (UInt32.ofNat c).toNat = c := toNat_ofNat_lt (by omega)
  have hlo : ¬ UInt32.ofNat c < 2 := by
    rw [UInt32.lt_iff_toNat_lt, hcn]
    exact Nat.not_lt.mpr h2
  have hhi : ¬ UInt32.ofNat c ≥ UInt32.ofNat g.maxCluster := by
    rw [ge_iff_le, UInt32.le_iff_toNat_le, hcn, toNat_ofNat_lt (by omega)]
    omega
  have haddr : UInt32.ofNat g.bps * (UInt32.ofNat (2 * g.fatSize) + 8)
      + UInt32.ofNat g.bpc * (UInt32.ofNat c - 2) = UInt32.ofNat (g.cluster c) := by
    unfold Layout.cluster
    rw [g.data_eq, UInt32.ofNat_add, UInt32.ofNat_mul g.dataSector, UInt32.ofNat_mul g.bpc,
      UInt32.ofNat_sub h2]
    unfold Layout.dataSector
    rw [UInt32.ofNat_add 8, UInt32.mul_comm (UInt32.ofNat g.bps), UInt32.add_comm (UInt32.ofNat 8)]
    rfl
  unfold FAT32SuperCluster Layout.super
  simp only [hlo, hhi, decide_false, Bool.or_self, Bool.false_eq_true, if_false, haddr,
    toNat_ofNat_lt hbytes]

/-- The second table reads like the first. -/
theorem Image.tableEntry_eq (h : Image g m fs) {t : Nat} (ht : t ∈ (g.super fs.length).tables)
    {c : Nat} (hc : 4 * c + 4 ≤ g.fatBytes) : tableEntry m t c = g.entry m c := by
  have hf2 : g.fat2 = g.fat1 + g.fatBytes := rfl
  rcases List.mem_cons.mp ht with rfl | ht
  · rfl
  · rw [List.mem_singleton.mp ht]
    refine load_shift fun i hi => ?_
    rw [← h.mirror (g.fat1 + 4 * c + i) (by omega) (by omega)]
    congr 1
    omega

theorem Image.used_iff (hg : g.WF) (h : Image g m fs) (j : Nat) :
    (g.super fs.length).Used m j ↔ j < fs.length := by
  have hent := hg.bpc_entries
  have hroot := h.rootFits
  have hnum : (g.super fs.length).numRootEntry.toNat = g.bpc / 32 :=
    toNat_ofNat_lt (by have := hg.bpc_lt; omega)
  refine ⟨?_, ?_⟩
  · intro hu
    by_contra hj
    have hlt : j < g.bpc / 32 := hnum ▸ hu.1
    exact hu.2 (h.dirFree (g.data + 32 * j) (by omega) (by omega))
  · intro hj
    refine ⟨by omega, ?_⟩
    exact (h.dirUsed j _ (List.getElem?_eq_getElem hj)).head_ne

theorem numEntries_eq (hg : g.WF) (k : Nat) : (g.super k).numEntries = g.fatBytes / 4 := by
  show (UInt32.ofNat g.fatBytes).toNat / 4 = g.fatBytes / 4
  rw [toNat_ofNat_lt hg.fatBytes_lt]

section Entry

variable (h : Image g m fs) {j : Nat} {f : Stored} (hf : fs[j]? = some f)
include h hf

theorem Image.clusters_le : g.start fs j + g.clusters f ≤ g.maxCluster := by
  have hne : fs ≠ [] := by
    rintro rfl
    simp at hf
  exact Nat.le_trans (start_add_le fs hf) (h.fits hne)

theorem Image.firstCluster_eq : (g.super fs.length).firstCluster m j = g.start fs j := by
  have he := h.dirUsed j f hf
  have hhigh : load m ((g.super fs.length).rootEntry j + 20) 2 = g.start fs j / 65536 := he.high
  have hlow : load m ((g.super fs.length).rootEntry j + 26) 2 = g.start fs j % 65536 := he.low
  unfold FAT32Super.firstCluster
  rw [hhigh, hlow]
  exact Nat.div_add_mod _ _

variable (hg : g.WF)
include hg

theorem Image.entryChain_eq {t : Nat} (ht : t ∈ (g.super fs.length).tables) :
    (g.super fs.length).entryChain m t j = some (List.range' (g.start fs j) (g.clusters f)) := by
  have hmax := hg.maxCluster_lt
  have hent := hg.maxCluster_fit
  have hle := h.clusters_le hf
  have hst := start_ge (g := g) fs j
  have hpos := clusters_pos (g := g) f
  have hchain := h.chain j f hf
  unfold FAT32Super.entryChain
  rw [h.firstCluster_eq hf, numEntries_eq hg, show g.clusters f = g.clusters f - 1 + 1 by omega]
  refine chainFrom_eq m t _ _ _ (by omega) ?_ ?_ (by omega)
  · intro i hi
    rw [h.tableEntry_eq ht (by omega), hchain i (by omega), if_neg (by omega)]
  · rw [h.tableEntry_eq ht (by omega), hchain _ (by omega), if_pos (by omega)]

theorem Image.contentsAt_eq (hsz : g.nSector * g.bps ≤ 2 ^ 32) {t : Nat} (ht : t ∈ (g.super fs.length).tables) :
    (g.super fs.length).contentsAt m t j = some f.bytes := by
  have hle := h.clusters_le hf
  have hst := start_ge (g := g) fs j
  have hsize : (g.super fs.length).fileSize m j = f.bytes.length := (h.dirUsed j f hf).size
  have hblocks : (List.range' (g.start fs j) (g.clusters f)).mapM
      ((g.super fs.length).clusterBytes m)
      = some ((List.range' (g.start fs j) (g.clusters f)).map
          fun c => read m (g.cluster c) g.bpc) := by
    refine mapM_some_of_forall _ fun c hc => ?_
    rw [List.mem_range'_1] at hc
    unfold FAT32Super.clusterBytes
    rw [cluster_pointer hg hsz _ (by omega) (by omega)]
    show some (read m (g.cluster c) (UInt32.ofNat g.bpc).toNat) = _
    rw [toNat_ofNat_lt hg.bpc_lt]
  have hfill : f.bytes.length ≤ g.bpc * g.clusters f :=
    Nat.le_trans (le_dataClusters hg _) (Nat.mul_le_mul_left _ (Nat.le_max_right _ _))
  unfold FAT32Super.contentsAt
  rw [h.entryChain_eq hf hg ht]
  simp only [Option.bind_eq_bind, Option.bind_some, hblocks, hsize, Option.pure_def,
    Option.some.injEq]
  rw [flatten_clusters m g _ _ (by omega), take_read _ _ _ _ hfill]
  exact h.contents j f hf

end Entry

end LinuxUtil.Fat
