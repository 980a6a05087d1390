/-
Dependency expressions: the trees of `apt/aptlist.h` and their parser `ParseDep` in
`apt/aptlist.cpp`.

A package name, a token and a dependency string are byte strings without the
terminating NUL.  A `std::set` of names is a finite set; its order is that of
`std::string`, byte by byte.
-/
import LinuxUtil.Fault
import Mathlib.Data.List.Lex
import Mathlib.Data.Finset.Basic

namespace LinuxUtil.Apt

/-- The order of `unsigned char`. -/
instance instLinearOrderUInt8 : LinearOrder UInt8 where
  le_refl := UInt8.le_refl
  le_trans _ _ _ := UInt8.le_trans
  lt_iff_le_not_ge a b := by
    rw [UInt8.lt_iff_toNat_lt, UInt8.le_iff_toNat_le, UInt8.le_iff_toNat_le]
    omega
  le_antisymm _ _ := UInt8.le_antisymm
  le_total := UInt8.le_total
  toDecidableLE := inferInstance

/-- A `std::string`. -/
abbrev Name := List UInt8

/-! ### Expression trees -/

/-- `op_` of an `OperatorNode`. -/
inductive Op
  | comma
  | bar
  deriving DecidableEq, Repr

inductive ExprNode
  | value (package : Name)
  | operator (op : Op) (left right : ExprNode)
  deriving DecidableEq, Repr

/-- The text `print` writes: no blank in front of a comma. -/
def ExprNode.print : ExprNode → List UInt8
  | .value package => package
  | .operator .comma left right => left.print ++ [44, 32] ++ right.print
  | .operator .bar left right => left.print ++ [32, 124, 32] ++ right.print

/-- Insert what the tree needs into `packages`.  Returns 0 if it can be satisfied.

The two sides of a `|` are tried on an empty set each, which is dropped if they fail; the
sides of a `,` insert into the caller's. -/
def ExprNode.satisfy (exist : Name → Bool) : ExprNode → Finset Name → Nat × Finset Name
  | .value package, packages =>
      if exist package then (0, insert package packages) else (1, packages)
  | .operator .bar left right, packages =>
      let (ret, tempSet) := left.satisfy exist ∅
      if ret = 0 then (0, packages ∪ tempSet)
      else
        let (ret, tempSet) := right.satisfy exist ∅
        if ret = 0 then (0, packages ∪ tempSet) else (1, packages)
  | .operator .comma left right, packages =>
      let (retL, packages) := left.satisfy exist packages
      let (retR, packages) := right.satisfy exist packages
      (retL ||| retR, packages)

/-! ### Scanner -/

/-- `isblank`. -/
def isblank (ch : UInt8) : Bool := ch == 32 || ch == 9

/-- The characters of a simple token. -/
def simple (ch : UInt8) : Bool := !isblank ch && ch != 44

/-- The scanner loop.  Every round takes at least one character, so as many rounds as there are
characters are enough. -/
def scan : Nat → List UInt8 → List Name
  | 0, _ => []
  | _ + 1, [] => []
  | n + 1, ch :: s =>
      if isblank ch then scan n s
      else if ch = 44 then [44] :: scan n s
      else if ch = 40 then scan n ((s.dropWhile (· ≠ 41)).drop 1)
      else (ch :: s).takeWhile simple :: scan n ((ch :: s).dropWhile simple)

/-! ### Parser -/

def Op.ofToken (token : Name) : Option Op :=
  if token = [44] then some .comma else if token = [124] then some .bar else none

def Op.precedence : Op → Nat
  | .bar => 2
  | .comma => 1

/-- `pop_value`. -/
def popValue : List ExprNode → Except Fault (ExprNode × List ExprNode)
  | [] => .error (.assertion "!values.empty()")
  | v :: values => .ok (v, values)

/-- The loop that reduces the operators of no lower precedence than `pred`. -/
def reduce (pred : Nat) : List Op → List ExprNode → Except Fault (List Op × List ExprNode)
  | [], values => .ok ([], values)
  | op :: ops, values =>
      if op.precedence < pred then .ok (op :: ops, values)
      else do
        let (right, values) ← popValue values
        let (left, values) ← popValue values
        reduce pred ops (.operator op left right :: values)

/-- The parser loop, over the remaining tokens and the two stacks. -/
def parseTokens : List Name → List Op → List ExprNode → Except Fault (List ExprNode)
  | [], _, values => .ok values
  | token :: tokens, ops, values =>
      match Op.ofToken token with
      | some op =>
          match ops with
          | [] => parseTokens tokens [op] values
          | top :: rest =>
              if top.precedence < op.precedence then
                parseTokens tokens (op :: top :: rest) values
              else do
                let (ops, values) ← reduce op.precedence (top :: rest) values
                parseTokens tokens (op :: ops) values
      | none =>
          match ops with
          | [] => parseTokens tokens [] (.value token :: values)
          | op :: ops => do
              let (left, values) ← popValue values
              parseTokens tokens ops (.operator op left (.value token) :: values)

/-- Parse a dependency string; a string without tokens gives `nullptr`. -/
def ParseDep (depstr : List UInt8) : Except Fault (Option ExprNode) := do
  let values ← parseTokens (scan depstr.length depstr) [] []
  return values.head?

end LinuxUtil.Apt
