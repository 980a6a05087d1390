/-
`download-dep` of `apt/apt.cpp`: the packages a list of packages needs.

The list files are those `Apt` has loaded, in its order.
-/
import LinuxUtil.Apt.Sources
import LinuxUtil.Lib.Saturate

namespace LinuxUtil.Apt

def ENOENT : Errno := 2

/-- `unordered_map::find`. -/
def AptListFile.find (file : AptListFile) (package : Name) : Option Details :=
  (file.table.find? fun entry => entry.1 = package).map (·.2)

/-- Find a package in the first file that has it, and call back. -/
def find {σ : Type} (files : List AptListFile) (package : Name)
    (callback : Details → σ → Errno × σ) (st : σ) : Errno × σ :=
  match files with
  | [] => (ENOENT, st)
  | file :: files =>
      match file.find package with
      | some details => callback details st
      | none => find files package callback st

def packageExists (files : List AptListFile) (package : Name) : Bool :=
  (find files package (fun _ _ => (0, ())) ()).1 == 0

/-- What is inserted for one of the two trees, if it is there. -/
def satisfyTree (exist : Name → Bool) (tree : Option ExprNode) (packagesRequired : Finset Name) :
    Finset Name :=
  match tree with
  | some tree => (tree.satisfy exist packagesRequired).2
  | none => packagesRequired

def addDepsCallback (exist : Name → Bool) (details : Details) (packagesRequired : Finset Name) :
    Errno × Finset Name :=
  let packagesRequired := satisfyTree exist details.first.deps packagesRequired
  let packagesRequired := satisfyTree exist details.first.pre_deps packagesRequired
  (0, packagesRequired)

def doSatisfy (files : List AptListFile) (package : Name) (packagesRequired : Finset Name) :
    Finset Name :=
  (find files package (addDepsCallback (packageExists files)) (insert package packagesRequired)).2

/-- `packagesRequired` when the loops of `downloadDeps` end, if they do so within `fuel` rounds.
With no argument `downloadDeps` returns before it comes here. -/
def packagesRequired (files : List AptListFile) (fuel : Nat) (args : List Name) :
    Option (Finset Name) :=
  Saturate.saturate (doSatisfy files) fuel fuel (Saturate.visitAll (doSatisfy files) args ∅)

end LinuxUtil.Apt
