/-
`Node` of `tlibc/node.cc`: a pointer that owns what it points to.

A `Node<T>` is a variable of the program or a member of an object.  Of an object the model has the
members that are nodes, in the order they are declared; what else is in it no function looks
at.  The destructor that `reset` calls is that of the object: `~T` is virtual, or nothing but a `T`
is put into the node.  The allocator is `cpp_alloc` with `cpp_free`, counted as
`allocator_trace` counts.
-/
import LinuxUtil.Tlibc.Calls
import Mathlib.Logic.Function.Basic

namespace LinuxUtil.Malloc

/-- A `Node<T>`: `sizeof(T)`, which its type has, and `value_`. -/
structure Node where
  size : Nat
  value_ : Nat
  deriving DecidableEq, Repr

/-- Where a node is. -/
inductive Place
  | var (i : Nat)
  | member (addr k : Nat)
  deriving DecidableEq, Repr

structure Program where
  sys : System
  /-- The nodes in each object. -/
  objects : Nat → Option (List Node)
  vars : Nat → Option Node
  alloc_size : UInt64
  free_size : UInt64

namespace Program

/-- Before the first statement. -/
def start (m : ByteMem.Mem) : Program := ⟨System.start m, fun _ => none, fun _ => none, 0, 0⟩

/-- The node at a place, unless its object is gone. -/
def node (p : Program) : Place → Option Node
  | .var i => p.vars i
  | .member a k => (p.objects a).bind fun ns => ns[k]?

/-- `value_ = v`. -/
def setValue (p : Program) (v : Nat) : Place → Program
  | .var i => { p with vars := Function.update p.vars i ((p.vars i).map fun n => { n with value_ := v }) }
  | .member a k =>
      let members := (p.objects a).map fun ns => ns.modify k fun n => { n with value_ := v }
      { p with objects := Function.update p.objects a members }

/-- A node that is looked at: it has to be there. -/
def look (p : Program) (q : Place) : Except Fault Node :=
  match p.node q with
  | some n => .ok n
  | none => .error .outOfBounds

/-- `_Alloc().malloc(size)`, where what comes back is used at once. -/
def malloc (p : Program) (size : Nat) (mmap : Option Nat) : Except Fault (Nat × Program) := do
  let (pt, heap) ← p.sys.heap.cppAlloc size mmap
  if pt = 0 then .error .nullPointer
  else .ok (pt, { p with
    sys := ⟨heap, ⟨pt, cppExtent size, some size⟩ :: p.sys.live⟩
    alloc_size := p.alloc_size + UInt64.ofNat size })

/-- `_Alloc().free(pt, size)`; the object there is gone. -/
def free (p : Program) (pt size : Nat) : Except Fault Program := do
  let sys ← p.sys.step (.cppFree pt size)
  return { p with
    sys := sys
    objects := Function.update p.objects pt none
    free_size := p.free_size + UInt64.ofNat size }

/-- The destructors of the first `k` members, the last one first. -/
def resetMembers (reset : Place → Program → Except Fault Program) (a : Nat) :
    Nat → Program → Except Fault Program
  | 0, p => .ok p
  | k + 1, p => do
      let p ← reset (.member a k) p
      resetMembers reset a k p

/-- `reset`, for objects that are nested no deeper than `fuel`. -/
def reset : Nat → Place → Program → Except Fault Program
  | 0, _, _ => .error .diverges
  | fuel + 1, q, p => do
      let n ← p.look q
      if n.value_ = 0 then return p
      else
        match p.objects n.value_ with
        | none => .error .outOfBounds
        | some ns => do
            let p ← resetMembers (reset fuel) n.value_ ns.length p
            let p ← p.free n.value_ n.size
            return p.setValue 0 q

/-- `value_ = other.value_; other.value_ = nullptr`. -/
def take (p : Program) (dst src : Place) : Except Fault Program := do
  let n ← p.look src
  return (p.setValue n.value_ dst).setValue 0 src

/-- The members of a new object, each made from a node that is handed over. -/
def takeAll (a : Nat) : Nat → List Place → Program → Except Fault Program
  | _, [], p => .ok p
  | k, src :: srcs, p => do
      let p ← p.take (.member a k) src
      takeAll a (k + 1) srcs p

/-- What a program does with nodes. -/
inductive Stmt
  /-- `Node<T> i(args...)`: a new object, whose members are made from the arguments. -/
  | make (i size : Nat) (args : List (Nat × Place)) (mmap : Option Nat)
  /-- `Node<T> i(move(src))`, where `src` is of a type with a base `T` or of `T`. -/
  | convert (i size : Nat) (src : Place)
  /-- `dst = move(src)`. -/
  | assign (dst src : Place)
  | drop (q : Place)
  /-- The variable goes out of scope. -/
  | destroy (i : Nat)
  deriving DecidableEq, Repr

/-- A variable, before its constructor has run. -/
def declare (p : Program) (i : Nat) (n : Node) : Program :=
  { p with vars := Function.update p.vars i (some n) }

/-- One statement. -/
def step (fuel : Nat) (p : Program) : Stmt → Except Fault Program
  | .make i size args mmap => do
      let (pt, p) ← p.malloc size mmap
      let p := p.declare i ⟨size, pt⟩
      let p := { p with objects := Function.update p.objects pt (some (args.map fun arg => ⟨arg.1, 0⟩)) }
      takeAll pt 0 (args.map Prod.snd) p
  | .convert i size src => (p.declare i ⟨size, 0⟩).take (.var i) src
  | .assign dst src => do
      let p ← reset fuel dst p
      p.take dst src
  | .drop q => reset fuel q p
  | .destroy i => do
      let p ← reset fuel (.var i) p
      return { p with vars := Function.update p.vars i none }

end Program

end LinuxUtil.Malloc
