/-
What a FAT32 image holds.

`Layout` is the geometry of a volume over unbounded integers, and `Layout.WF` the
bounds that keep the 32-bit arithmetic of `createFAT32` from wrapping; on a volume of at
most `2 ^ 32` bytes that of `FAT32Copyin` does not wrap either.  `Image g m fs`
says that the bytes `m` are such a volume and that it stores exactly the files
`fs`, in this order: one directory entry, one chain of consecutive clusters and the
contents for each, zeros everywhere a later file will go.

This is the invariant `createFAT32` establishes and every `FAT32Copyin` keeps.  A
file's clusters follow those of the file before it, so its first cluster is a sum
over the files in front of it and nothing has to be said about chains being
disjoint.
-/
import LinuxUtil.Gpt.Fat

namespace LinuxUtil.Fat

open ByteMem

/-! ### Geometry -/

/-- Sector size, cluster size in sectors, sectors of the volume and of one table. -/
structure Layout where
  bps : Nat
  spc : Nat
  nSector : Nat
  fatSize : Nat
  deriving DecidableEq, Repr

namespace Layout

variable (g : Layout)

/-- Bytes of a cluster. -/
def bpc : Nat := g.spc * g.bps

/-- Bytes of one table. -/
def fatBytes : Nat := g.fatSize * g.bps

/-- Where the first table starts. -/
def fat1 : Nat := 8 * g.bps

/-- Where the second table starts. -/
def fat2 : Nat := g.fat1 + g.fatBytes

/-- Where the data region, and with it the root directory, starts. -/
def data : Nat := g.fat2 + g.fatBytes

/-- Sectors in front of the data region. -/
def dataSector : Nat := 8 + 2 * g.fatSize

/-- The bound `maxCluster` of the super block. -/
def maxCluster : Nat := (g.nSector - g.dataSector) / g.spc

/-- Where cluster `c` starts. -/
def cluster (c : Nat) : Nat := g.data + g.bpc * (c - 2)

/-- The geometry of a volume that `createFAT32` lays out with its data region below `2 ^ 32`. -/
structure WF : Prop where
  bps : g.bps ∈ [512, 1024, 2048, 4096]
  spc : g.spc ∈ [1, 2, 4, 8, 16, 32, 64, 128]
  sectors : 16 ≤ g.nSector
  room : g.dataSector + g.spc ≤ g.nSector
  entries : 4 * (g.nSector / g.spc) ≤ g.fatBytes
  clusters : 2 < g.nSector / g.spc
  number : g.nSector < 2 ^ 32
  low : g.data < 2 ^ 32

theorem data_eq : g.data = g.dataSector * g.bps := by
  unfold Layout.data Layout.fat2 Layout.fat1 Layout.fatBytes Layout.dataSector
  rw [Nat.add_mul, Nat.two_mul, Nat.add_mul, Nat.add_assoc]

theorem cluster_add {c d : Nat} (hc : 2 ≤ c) : g.cluster (c + d) = g.cluster c + g.bpc * d := by
  unfold Layout.cluster
  rw [show c + d - 2 = (c - 2) + d by omega, Nat.mul_add, Nat.add_assoc]

theorem cluster_mono {c d : Nat} (h : c ≤ d) : g.cluster c ≤ g.cluster d :=
  Nat.add_le_add_left (Nat.mul_le_mul_left _ (by omega)) _

theorem cluster_root : g.cluster 3 = g.data + g.bpc := by
  simp [Layout.cluster]

end Layout

namespace Layout.WF

variable {g : Layout} (hg : g.WF)
include hg

theorem bps_ge : 512 ≤ g.bps := by
  have := hg.bps
  simp only [List.mem_cons, List.not_mem_nil, or_false] at this
  omega

theorem bps_le : g.bps ≤ 4096 := by
  have := hg.bps
  simp only [List.mem_cons, List.not_mem_nil, or_false] at this
  omega

theorem spc_pos : 0 < g.spc := by
  have := hg.spc
  simp only [List.mem_cons, List.not_mem_nil, or_false] at this
  omega

theorem spc_le : g.spc ≤ 128 := by
  have := hg.spc
  simp only [List.mem_cons, List.not_mem_nil, or_false] at this
  omega

theorem bpc_ge : 512 ≤ g.bpc :=
  Nat.le_trans hg.bps_ge (Nat.le_mul_of_pos_left _ hg.spc_pos)

/-- A cluster holds a whole number of directory entries. -/
theorem bpc_entries : 32 * (g.bpc / 32) = g.bpc := by
  apply Nat.mul_div_cancel'
  refine Nat.dvd_mul_left_of_dvd ?_ g.spc
  have := hg.bps
  simp only [List.mem_cons, List.not_mem_nil, or_false] at this
  omega

theorem fatBytes_entries : 4 * (g.fatBytes / 4) = g.fatBytes := by
  apply Nat.mul_div_cancel'
  refine Nat.dvd_mul_left_of_dvd ?_ g.fatSize
  have := hg.bps
  simp only [List.mem_cons, List.not_mem_nil, or_false] at this
  omega

theorem fatBytes_ge : 12 ≤ g.fatBytes := by
  have := hg.entries
  have := hg.clusters
  omega

theorem maxCluster_fit : 4 * g.maxCluster ≤ g.fatBytes := by
  have hle : g.maxCluster ≤ g.nSector / g.spc :=
    Nat.div_le_div_right (Nat.sub_le _ _)
  have := hg.entries
  omega

/-- The clusters below `maxCluster` lie inside the volume. -/
theorem data_fit : g.data + g.bpc * g.maxCluster ≤ g.nSector * g.bps := by
  have hdiv : g.maxCluster * g.spc ≤ g.nSector - g.dataSector := Nat.div_mul_le_self _ _
  have hroom := hg.room
  rw [g.data_eq]
  calc g.dataSector * g.bps + g.bpc * g.maxCluster
      = (g.dataSector + g.maxCluster * g.spc) * g.bps := by
        unfold Layout.bpc
        rw [Nat.add_mul, Nat.mul_comm g.spc g.bps, Nat.mul_assoc, Nat.mul_comm g.spc,
          Nat.mul_comm g.bps]
    _ ≤ g.nSector * g.bps := Nat.mul_le_mul_right _ (by omega)

theorem root_fit : g.data + g.bpc ≤ g.nSector * g.bps := by
  rw [g.data_eq]
  unfold Layout.bpc
  rw [← Nat.add_mul]
  exact Nat.mul_le_mul_right _ hg.room

theorem data_lt : g.data < 2 ^ 32 := hg.low

theorem nSector_lt : g.nSector < 2 ^ 32 := hg.number

theorem fatBytes_lt : g.fatBytes < 2 ^ 32 := by
  have := hg.low
  unfold Layout.data Layout.fat2 at this
  omega

theorem bpc_le : g.bpc ≤ 128 * 4096 :=
  Nat.mul_le_mul hg.spc_le hg.bps_le

/-- Cluster sizes divide `2 ^ 32`, so a number of bytes that wraps stays one of whole clusters. -/
theorem bpc_dvd : g.bpc ∣ 2 ^ 32 := by
  have hs : ∀ k ∈ [1, 2, 4, 8, 16, 32, 64, 128], k ∣ 128 := by decide
  have hb : ∀ k ∈ [512, 1024, 2048, 4096], k ∣ 4096 := by decide
  have h := Nat.mul_dvd_mul (hs _ hg.spc) (hb _ hg.bps)
  exact Nat.dvd_trans h (by decide)

theorem bpc_lt : g.bpc < 2 ^ 32 := Nat.lt_of_le_of_lt hg.bpc_le (by decide)

theorem fatSize_lt : g.fatSize < 2 ^ 31 := by
  have h1 := hg.room
  have h2 := hg.nSector_lt
  unfold Layout.dataSector at h1
  omega

theorem maxCluster_lt : g.maxCluster < 2 ^ 30 := by
  have := hg.maxCluster_fit
  have := hg.fatBytes_lt
  omega

end Layout.WF

/-! ### Files -/

/-- A name that is its own directory entry name: 1 to 8 bytes, no NUL and no dot. -/
structure FileName where
  bytes : List UInt8
  pos : bytes ≠ []
  short : bytes.length ≤ 8
  noNul : 0 ∉ bytes
  noDot : 46 ∉ bytes

/-- A file as the image stores it. -/
structure Stored where
  name : FileName
  attr : UInt32
  bytes : List UInt8

namespace Layout

variable (g : Layout)

/-- `CDIV` of a file size by the cluster size: the clusters its data fills. -/
def dataClusters (size : Nat) : Nat := (size + g.bpc - 1) / g.bpc

/-- The clusters of a file of `size` bytes: an empty one gets a cluster too. -/
def fileClusters (size : Nat) : Nat := max 1 (g.dataClusters size)

def clusters (f : Stored) : Nat := g.fileClusters f.bytes.length

/-- The clusters of a list of files. -/
def used (fs : List Stored) : Nat := (fs.map g.clusters).sum

/-- The first free cluster behind the files `fs`. -/
def next (fs : List Stored) : Nat := 3 + g.used fs

/-- The first cluster of the `j`-th file. -/
def start (fs : List Stored) (j : Nat) : Nat := g.next (fs.take j)

/-- `numFreeFATEntry`, what `createFAT32` stores as the free count. -/
def initialFree : Nat := 2 * g.fatSize * (g.bps / 4) - 3

/-- The clusters `FSInfo.freeCount` has been lowered by. -/
def charged (fs : List Stored) : Nat := (fs.map fun f => g.dataClusters f.bytes.length).sum

/-- Entry `c` of the first table. -/
def entry (m : Mem) (c : Nat) : Nat := load m (g.fat1 + 4 * c) 4

end Layout

variable {g : Layout}

theorem clusters_pos (f : Stored) : 1 ≤ g.clusters f := Nat.le_max_left _ _

theorem next_append (fs : List Stored) (f : Stored) :
    g.next (fs ++ [f]) = g.next fs + g.clusters f := by
  simp [Layout.next, Layout.used, Nat.add_assoc]

theorem charged_append (fs : List Stored) (f : Stored) :
    g.charged (fs ++ [f]) = g.charged fs + g.dataClusters f.bytes.length := by
  simp [Layout.charged]

theorem start_append_lt {fs : List Stored} {f : Stored} {j : Nat} (hj : j ≤ fs.length) :
    g.start (fs ++ [f]) j = g.start fs j := by
  unfold Layout.start
  rw [List.take_append_of_le_length hj]

theorem start_length (fs : List Stored) : g.start fs fs.length = g.next fs := by
  simp [Layout.start]

theorem next_ge (fs : List Stored) : 3 ≤ g.next fs := Nat.le_add_right _ _

theorem start_ge (fs : List Stored) (j : Nat) : 3 ≤ g.start fs j := next_ge _

/-- The clusters of a file lie before those of every later one, and before the free ones. -/
theorem start_add_le (fs : List Stored) {j : Nat} {f : Stored} (hf : fs[j]? = some f) :
    g.start fs j + g.clusters f ≤ g.next fs := by
  have hj : j < fs.length := (List.getElem?_eq_some_iff.mp hf).1
  have hsplit : fs = fs.take j ++ f :: fs.drop (j + 1) := by
    rw [← (List.getElem?_eq_some_iff.mp hf).2, List.getElem_cons_drop, List.take_append_drop]
  unfold Layout.start Layout.next Layout.used
  conv_rhs => rw [hsplit]
  simp only [List.map_append, List.map_cons, List.sum_append, List.sum_cons]
  omega

theorem start_succ (fs : List Stored) {j : Nat} {f : Stored} (hf : fs[j]? = some f) :
    g.start fs (j + 1) = g.start fs j + g.clusters f := by
  have hj : j < fs.length := (List.getElem?_eq_some_iff.mp hf).1
  unfold Layout.start
  rw [List.take_succ_eq_append_getElem hj, next_append, (List.getElem?_eq_some_iff.mp hf).2]

theorem getElem?_append_singleton {fs : List Stored} {f f' : Stored} {j : Nat}
    (h : (fs ++ [f])[j]? = some f') : fs[j]? = some f' ∨ (j = fs.length ∧ f' = f) := by
  rcases Nat.lt_trichotomy j fs.length with hj | hj | hj
  · rw [List.getElem?_append_left hj] at h
    exact Or.inl h
  · subst hj
    rw [List.getElem?_append_right (Nat.le_refl _)] at h
    simp only [Nat.sub_self, List.getElem?_cons_zero, Option.some.injEq] at h
    exact Or.inr ⟨rfl, h.symm⟩
  · rw [List.getElem?_eq_none (by simp; omega)] at h
    simp at h

/-! ### The image -/

/-- The BPB reads back as the geometry. -/
structure Header (g : Layout) (m : Mem) : Prop where
  bytesPerSector : load m 11 2 = g.bps
  secPerCluster : load m 13 1 = g.spc
  reserved : load m 14 2 = 8
  numTables : load m 16 1 = 2
  numSector : load m 32 4 = g.nSector
  fatSize : load m 36 4 = g.fatSize
  rootCluster : load m 44 4 = 2

/-- The directory entry at `e` is that of `f`, whose first cluster is `first`. -/
structure DirEntry (m : Mem) (e : Nat) (f : Stored) (first : Nat) : Prop where
  name : read m e 11 = f.name.bytes ++ List.replicate (11 - f.name.bytes.length) 0
  high : load m (e + 20) 2 = first / 65536
  low : load m (e + 26) 2 = first % 65536
  size : load m (e + 28) 4 = f.bytes.length

/-- The entries of a chain of `n` consecutive clusters that starts with `c`. -/
def ChainAt (g : Layout) (m : Mem) (c n : Nat) : Prop :=
  ∀ i, i < n → g.entry m (c + i) = if i + 1 = n then 0xFFFFFFFF else c + i + 1

/-- `m` is a volume of geometry `g` that stores the files `fs`. -/
structure Image (g : Layout) (m : Mem) (fs : List Stored) : Prop where
  header : Header g m
  nextFree : load m (g.bps + 492) 4 = g.next fs
  freeCount : load m (g.bps + 488) 4 + g.charged fs = g.initialFree
  /-- The clusters handed out are ones the super block admits. -/
  fits : fs ≠ [] → g.next fs ≤ g.maxCluster
  rootFits : 32 * fs.length ≤ g.bpc
  rootChain : g.entry m 2 = 0xFFFFFFFF
  chain : ∀ j f, fs[j]? = some f → ChainAt g m (g.start fs j) (g.clusters f)
  freeEntries : ∀ x, g.fat1 + 4 * g.next fs ≤ x → x < g.fat2 → m x = 0
  mirror : ∀ x, g.fat1 ≤ x → x < g.fat2 → m (x + g.fatBytes) = m x
  dirUsed : ∀ j f, fs[j]? = some f → DirEntry m (g.data + 32 * j) f (g.start fs j)
  dirFree : ∀ x, g.data + 32 * fs.length ≤ x → x < g.data + g.bpc → m x = 0
  contents : ∀ j f, fs[j]? = some f →
    read m (g.cluster (g.start fs j)) f.bytes.length = f.bytes
  bpbCopy : ∀ x, x < 512 → m (6 * g.bps + x) = m x
  fsInfoCopy : ∀ x, x < 512 → m (7 * g.bps + x) = m (g.bps + x)

theorem Header.congr {m m' : Mem} (h : Header g m) (heq : ∀ x, x < 512 → m' x = m x) :
    Header g m' := by
  have hload : ∀ a w, a + w ≤ 512 → load m' a w = load m a w :=
    fun a w hw => load_congr fun x _ _ => heq x (by omega)
  refine ⟨?_, ?_, ?_, ?_, ?_, ?_, ?_⟩
  · rw [hload _ _ (by omega)]; exact h.bytesPerSector
  · rw [hload _ _ (by omega)]; exact h.secPerCluster
  · rw [hload _ _ (by omega)]; exact h.reserved
  · rw [hload _ _ (by omega)]; exact h.numTables
  · rw [hload _ _ (by omega)]; exact h.numSector
  · rw [hload _ _ (by omega)]; exact h.fatSize
  · rw [hload _ _ (by omega)]; exact h.rootCluster

theorem DirEntry.congr {m m' : Mem} {e : Nat} {f : Stored} {first : Nat}
    (h : DirEntry m e f first) (heq : ∀ x, e ≤ x → x < e + 32 → m' x = m x) :
    DirEntry m' e f first := by
  have hload : ∀ k w, k + w ≤ 32 → load m' (e + k) w = load m (e + k) w :=
    fun k w hw => load_congr fun x _ _ => heq x (by omega) (by omega)
  refine ⟨?_, ?_, ?_, ?_⟩
  · rw [read_congr fun x _ _ => heq x (by omega) (by omega)]; exact h.name
  · rw [hload _ _ (by omega)]; exact h.high
  · rw [hload _ _ (by omega)]; exact h.low
  · rw [hload _ _ (by omega)]; exact h.size

theorem entry_congr {m m' : Mem} {c : Nat}
    (h : ∀ x, g.fat1 + 4 * c ≤ x → x < g.fat1 + 4 * c + 4 → m' x = m x) :
    g.entry m' c = g.entry m c :=
  load_congr h

theorem ChainAt.congr {m m' : Mem} {c n : Nat} (h : ChainAt g m c n)
    (heq : ∀ x, g.fat1 + 4 * c ≤ x → x < g.fat1 + 4 * (c + n) → m' x = m x) :
    ChainAt g m' c n := by
  intro i hi
  rw [entry_congr fun x h1 h2 => heq x (by omega) (by omega)]
  exact h i hi

/-- A used directory entry does not look free. -/
theorem DirEntry.head_ne {m : Mem} {e : Nat} {f : Stored} {first : Nat}
    (h : DirEntry m e f first) : m e ≠ 0 := by
  have hname := h.name
  rw [read_succ] at hname
  cases hb : f.name.bytes with
  | nil => exact absurd hb f.name.pos
  | cons b bs =>
      rw [hb, List.cons_append] at hname
      rw [(List.cons.inj hname).1]
      intro hb0
      refine f.name.noNul ?_
      rw [hb, hb0]
      exact List.mem_cons_self

end LinuxUtil.Fat
