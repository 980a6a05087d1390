/-
A program that uses the allocator of `tlibc/malloc.c`.

The program knows its live blocks: where they are, how long they are and, for those of
`cpp_alloc`, which size it asked for.  It calls the allocator, and it writes into its
live blocks as it likes.  `Legal` is what is asked of it and of `mmap`.
-/
import LinuxUtil.Lib.Runs
import LinuxUtil.Tlibc.Malloc

namespace LinuxUtil.Malloc

open ByteMem

/-- A live block; `cpp` is the size it was asked for with, if by `cpp_alloc`. -/
structure Block where
  addr : Nat
  len : Nat
  cpp : Option Nat
  deriving DecidableEq, Repr

/-- The length of a block of `mymalloc`. -/
def extent (size : Nat) : Nat :=
  if size > 1024 then Heap.largePages size * PGSIZE - headerSize
  else ((Heap.sizeClass size).map blockSize).getD 0

/-- The length of a block of `cpp_alloc`. -/
def cppExtent (size : Nat) : Nat :=
  if size > 1024 then Heap.cppPages size * PGSIZE else extent size

structure System where
  heap : Heap
  live : List Block

namespace System

/-- Before the first call, whatever is in memory. -/
def start (m : Mem) : System := ⟨⟨m, fun _ => ⟨0, 0⟩, fun _ => none, []⟩, []⟩

/-- The calls, with what `mmap` returns in them, and the program's own writes. -/
inductive Event
  | mymalloc (size : Nat) (mmap : Option Nat)
  | myfree (pt : Nat)
  | myrealloc (pt size : Nat) (mmap : Option Nat)
  | cppAlloc (size : Nat) (mmap : Option Nat)
  | cppFree (pt size : Nat)
  | write (a : Nat) (bs : List UInt8)

/-- The live blocks without the one at `pt`. -/
def release (live : List Block) (pt : Nat) : List Block := live.filter (·.addr ≠ pt)

/-- One event. -/
def step (s : System) : Event → Except Fault System
  | .mymalloc size mmap => do
      let (pt, heap) ← s.heap.mymalloc size mmap
      return ⟨heap, if pt = 0 then s.live else ⟨pt, extent size, none⟩ :: s.live⟩
  | .myfree pt => do
      let heap ← s.heap.myfree pt
      return ⟨heap, release s.live pt⟩
  | .myrealloc pt size mmap => do
      let (newpt, heap) ← s.heap.myrealloc pt size mmap
      return ⟨heap, if newpt = 0 ∨ newpt = pt then s.live
        else ⟨newpt, extent size, none⟩ :: release s.live pt⟩
  | .cppAlloc size mmap => do
      let (pt, heap) ← s.heap.cppAlloc size mmap
      return ⟨heap, if pt = 0 then s.live else ⟨pt, cppExtent size, some size⟩ :: s.live⟩
  | .cppFree pt size => do
      let heap ← s.heap.cppFree pt size
      return ⟨heap, release s.live pt⟩
  | .write a bs => .ok { s with heap := { s.heap with mem := ByteMem.write s.heap.mem a bs } }

/-- What `mmap` may return for a number of pages: page-aligned memory none of which is mapped. -/
def Fresh (h : Heap) (pages : Nat) (mmap : Option Nat) : Prop :=
  ∀ pt, mmap = some pt → pt % PGSIZE = 0 ∧ pt ≠ 0 ∧ pt + pages * PGSIZE ≤ 2 ^ 64 ∧
    ∀ p, Heap.InPages pt pages p → h.owner p = none

/-- `pt` is `NULL` or a live block that `myfree` and `myrealloc` may be given: not a large one of
`cpp_alloc`. -/
def Releasable (s : System) (pt : Nat) : Prop :=
  pt = 0 ∨ ∃ b ∈ s.live, b.addr = pt ∧ ∀ size ∈ b.cpp, size ≤ 1024

/-- What is asked of the program and of `mmap`. -/
def Legal (s : System) : Event → Prop
  | .mymalloc size mmap =>
      size < 2 ^ 63 ∧ Fresh s.heap (if size > 1024 then Heap.largePages size else 1) mmap
  | .myfree pt => s.Releasable pt
  | .myrealloc pt size mmap =>
      s.Releasable pt ∧ size < 2 ^ 63 ∧
        Fresh s.heap (if size > 1024 then Heap.largePages size else 1) mmap
  | .cppAlloc size mmap =>
      size < 2 ^ 63 ∧ Fresh s.heap (if size > 1024 then Heap.cppPages size else 1) mmap
  | .cppFree pt size => pt = 0 ∨ ∃ b ∈ s.live, b.addr = pt ∧ b.cpp = some size
  | .write a bs => ∃ b ∈ s.live, b.addr ≤ a ∧ a + bs.length ≤ b.addr + b.len

/-- A legal event happens. -/
def Next (s : System) (e : Event) (s' : System) : Prop := s.Legal e ∧ s.step e = .ok s'

end System

end LinuxUtil.Malloc
