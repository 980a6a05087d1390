/-
The allocator of `tlibc/malloc.c`.

Page headers and the `next` pointers of free blocks are bytes of one memory, as in the
code, so that a stray write would show.  Pointers are addresses, and `NULL` is 0.  The
array `caches` is kept apart from the memory; a pointer to `caches[i]` is `i + 1`.

The kernel's part is `owner`: which pages are mapped.  Its values say what a page was
mapped for; the code does not see them.  `freed` lists the calls of `free_page`.  What
`mmap` would return, if it is called, is an argument of each operation.
-/
import LinuxUtil.Fault

namespace LinuxUtil.Malloc

open ByteMem

def PGSIZE : Nat := 4096

def MAGIC : Nat := 0x55aa

abbrev ncaches : Nat := 7

/-- What a page was mapped for: the blocks of an arena, or one block with its address. -/
inductive Owner
  | arena (i : Fin ncaches)
  | block (pt : Nat)
  deriving DecidableEq, Repr

/-- The fields of `struct arena` that change. -/
structure Arena where
  freelist : Nat
  idlepage : Nat

/-- `block_size` of `caches[i]`. -/
def blockSize (i : Fin ncaches) : Nat := [16, 32, 64, 128, 256, 512, 1024].get i

structure Heap where
  mem : Mem
  caches : Fin ncaches → Arena
  owner : Nat → Option Owner
  freed : List (Nat × Nat)

namespace Heap

def setArena (h : Heap) (i : Fin ncaches) (are : Arena) : Heap :=
  { h with caches := fun j => if j = i then are else h.caches j }

/-- The addresses of the pages from `pt` on. -/
def InPages (pt pages p : Nat) : Prop := pt ≤ p ∧ p < pt + pages * PGSIZE ∧ p % PGSIZE = 0

instance (pt pages p : Nat) : Decidable (InPages pt pages p) := by
  unfold InPages
  infer_instance

/-- `alloc_page`: anonymous memory is zero.  The result is `NULL` if `mmap` fails. -/
def allocPage (h : Heap) (pages : Nat) (owner : Nat → Owner) (mmap : Option Nat) : Nat × Heap :=
  match mmap with
  | none => (0, h)
  | some pt =>
      (pt, { h with
        mem := fill h.mem pt (pages * PGSIZE) 0
        owner := fun p => if InPages pt pages p then some (owner pt) else h.owner p })

def freePage (h : Heap) (pt pages : Nat) : Heap :=
  { h with
    owner := fun p => if InPages pt pages p then none else h.owner p
    freed := (pt, pages) :: h.freed }

end Heap

/-! ### Free lists -/

/-- `fl->first = fl->last = NULL`. -/
def freelistInit (m : Mem) (fl : Nat) : Mem := store (store m (fl + 8) 8 0) fl 8 0

def freelistFree (m : Mem) (fl blk : Nat) : Mem :=
  let m := store m blk 8 (load m fl 8)
  let m := if load m fl 8 = 0 then store m (fl + 8) 8 blk else m
  store m fl 8 blk

/-! ### Page headers

`struct page_header` has 32 bytes: `are` at 0, the union of `fl` and `alloc_size` at 8,
`avail` at 24, `magic` at 26 and `total` at 28.
-/

def headerSize : Nat := 32

/-- The first loop of `page_header_init`.  32 rounds are enough, for every round adds to the offset. -/
def skipHeader (bsize : Nat) : Nat → Nat → Nat
  | 0, offset => offset
  | n + 1, offset => if offset < headerSize then skipHeader bsize n (offset + bsize) else offset

/-- One round of the second loop: a block goes to the list of the page. -/
def addBlock (m : Mem) (page b : Nat) : Mem :=
  let m := store m b 8 0
  let m := freelistFree m (page + 8) b
  store m (page + 24) 2 (load m (page + 24) 2 + 1)

/-- The second loop: the blocks of the page go to its list.  As many rounds as the page has bytes are
enough. -/
def addBlocks (bsize page : Nat) : Nat → Nat → Mem → Mem
  | 0, _, m => m
  | n + 1, offset, m =>
      if offset < PGSIZE then
        addBlocks bsize page n (offset + bsize) (addBlock m page (page + offset))
      else m

def pageHeaderInit (m : Mem) (i : Fin ncaches) (page : Nat) : Mem :=
  let offset := skipHeader (blockSize i) headerSize 0
  let m := store m page 8 (i.val + 1)
  let m := store m (page + 26) 2 MAGIC
  let m := store m (page + 24) 2 0
  let m := freelistInit m (page + 8)
  let m := addBlocks (blockSize i) page PGSIZE offset m
  store m (page + 28) 2 (load m (page + 24) 2)

/-! ### Arenas -/

namespace Heap

/-- Seize the blocks of the idle page. -/
def seize (h : Heap) (i : Fin ncaches) : Except Fault Heap :=
  let are := h.caches i
  let ph := are.idlepage
  let m := store h.mem (ph + 24) 2 0
  let last := load m (ph + 16) 8
  if last = 0 then .error .nullPointer
  else
    let m := store m last 8 are.freelist
    let first := load m (ph + 8) 8
    let m := freelistInit m (ph + 8)
    .ok ({ h with mem := m }.setArena i ⟨first, 0⟩)

/-- The end of `arena_alloc`: take the first block. -/
def take (h : Heap) (i : Fin ncaches) : Except Fault (Nat × Heap) :=
  let ret := (h.caches i).freelist
  if ret = 0 then .error .nullPointer
  else .ok (ret, h.setArena i { h.caches i with freelist := load h.mem ret 8 })

def arenaAlloc (h : Heap) (i : Fin ncaches) (mmap : Option Nat) : Except Fault (Nat × Heap) :=
  if (h.caches i).freelist = 0 then
    if (h.caches i).idlepage = 0 then
      let (page, h) := h.allocPage 1 (fun _ => .arena i) mmap
      if page = 0 then .ok (0, h)
      else do
        let h := { h with mem := pageHeaderInit h.mem i page }
        let h := h.setArena i { h.caches i with idlepage := page }
        let h ← h.seize i
        h.take i
    else do
      let h ← h.seize i
      h.take i
  else h.take i

def arenaAddIdle (h : Heap) (i : Fin ncaches) (ph : Nat) : Heap :=
  if (h.caches i).idlepage ≠ 0 then h.freePage ph 1
  else h.setArena i { h.caches i with idlepage := ph }

/-! ### The interface -/

/-- The pages of a large block and its header; `size_t` has 64 bits. -/
def largePages (size : Nat) : Nat := (((size + headerSize) % 2 ^ 64 + PGSIZE - 1) % 2 ^ 64) / PGSIZE

/-- The arena of a small block: the loop over `caches`. -/
def sizeClass (size : Nat) : Option (Fin ncaches) :=
  (List.finRange ncaches).find? fun i => size ≤ blockSize i

def mymalloc (h : Heap) (size : Nat) (mmap : Option Nat) : Except Fault (Nat × Heap) :=
  if size > 1024 then
    let pages := largePages size
    let (ret, h) := h.allocPage pages (fun pt => .block (pt + headerSize)) mmap
    if ret = 0 then .ok (0, h)
    else
      let m := store h.mem ret 8 0
      let m := store m (ret + 8) 8 (pages * PGSIZE)
      let m := store m (ret + 26) 2 MAGIC
      .ok (ret + headerSize, { h with mem := m })
  else
    match sizeClass size with
    | none => .error .outOfBounds
    | some i => h.arenaAlloc i mmap

/-- The pages of a large block of `cpp_alloc`, which has no header. -/
def cppPages (size : Nat) : Nat := ((size + PGSIZE - 1) % 2 ^ 64) / PGSIZE

def cppAlloc (h : Heap) (size : Nat) (mmap : Option Nat) : Except Fault (Nat × Heap) :=
  if size > 1024 then .ok (h.allocPage (cppPages size) (fun pt => .block pt) mmap)
  else h.mymalloc size mmap

def blockToPage (block : Nat) : Nat := block - block % PGSIZE

/-- The arena a header points to. -/
def arenaAt : Nat → Except Fault (Fin ncaches)
  | 0 => .error .nullPointer
  | n + 1 => if h : n < ncaches then .ok ⟨n, h⟩ else .error .outOfBounds

def myfree (h : Heap) (pt : Nat) : Except Fault Heap :=
  if pt = 0 then .ok h
  else
    let ph := blockToPage pt
    if load h.mem (ph + 26) 2 ≠ MAGIC then
      .error (.assertion "Invalid pointer passed to free.\n")
    else if load h.mem ph 8 = 0 then
      .ok (h.freePage ph (load h.mem (ph + 8) 8 / PGSIZE))
    else
      let m := store h.mem (ph + 24) 2 (load h.mem (ph + 24) 2 + 1)
      let m := freelistFree m (ph + 8) pt
      let h := { h with mem := m }
      if load m (ph + 24) 2 = load m (ph + 28) 2 then do
        let i ← arenaAt (load m ph 8)
        return h.arenaAddIdle i ph
      else .ok h

def cppFree (h : Heap) (pt size : Nat) : Except Fault Heap :=
  if size > 1024 then
    if pt ≠ 0 then .ok (h.freePage pt (cppPages size)) else .ok h
  else h.myfree pt

/-- The end of `myrealloc`: a new block, a copy, and the old block is freed.  How much is copied is
looked up after the allocation. -/
def moveBlock (h : Heap) (pt size : Nat) (len : Mem → Nat) (mmap : Option Nat) :
    Except Fault (Nat × Heap) := do
  let (newpt, h) ← h.mymalloc size mmap
  if newpt = 0 then return (0, h)
  else
    let h ← { h with mem := copy h.mem newpt pt (len h.mem) }.myfree pt
    return (newpt, h)

def myrealloc (h : Heap) (pt size : Nat) (mmap : Option Nat) : Except Fault (Nat × Heap) :=
  if pt = 0 then h.mymalloc size mmap
  else
    let ph := blockToPage pt
    if load h.mem ph 8 = 0 then
      let len := fun m => load m (ph + 8) 8 - headerSize
      if size ≤ len h.mem then .ok (pt, h) else h.moveBlock pt size len mmap
    else do
      let i ← arenaAt (load h.mem ph 8)
      if size ≤ blockSize i then return (pt, h)
      else h.moveBlock pt size (fun _ => blockSize i) mmap

/-! ### The hooks -/

/-- A `memset` that runs past the end of the address space does not return. -/
def calloc (h : Heap) (nmemb size : Nat) (mmap : Option Nat) : Except Fault (Nat × Heap) := do
  let total := nmemb * size % 2 ^ 64
  let (ret, h) ← h.mymalloc total mmap
  if ret = 0 then return (0, h)
  else if ret + total > 2 ^ 64 then .error .outOfBounds
  else return (ret, { h with mem := fill h.mem ret total 0 })

def reallocarray (h : Heap) (pt nmemb size : Nat) (mmap : Option Nat) : Except Fault (Nat × Heap) :=
  h.myrealloc pt (nmemb * size % 2 ^ 64) mmap

end Heap

end LinuxUtil.Malloc
