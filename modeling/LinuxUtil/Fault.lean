/-
Calls that do not return.

The code stops a call in four ways that are no return: it trips an assertion, it
follows a null pointer, it leaves the bounds of an array, or it loops.  A function that
may do so is modelled with values in `Except Fault`.
-/
import LinuxUtil.Lib.ByteMem

namespace LinuxUtil

inductive Fault
  | assertion (text : String)
  | nullPointer
  | outOfBounds
  | diverges
  deriving DecidableEq, Repr

/-- `assert(cond && text)`. -/
def assert (cond : Bool) (text : String) : Except Fault Unit :=
  if cond then .ok () else .error (.assertion text)

/-- Follow a pointer that may be `NULL`. -/
def deref {α : Type} : Option α → Except Fault α
  | some p => .ok p
  | none => .error .nullPointer

/-- An error number. -/
abbrev Errno := Nat

/-- The characters of a C string literal. -/
def ascii (s : String) : List UInt8 :=
  s.toList.map fun c => UInt8.ofNat c.toNat

end LinuxUtil
