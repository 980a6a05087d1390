/-
Package lists: the record parser `AptParse` of `apt/aptlist.cpp`, and the loops that
fill a table with what it finds.

An `ifstream` is the list of the lines `std::getline` still gives.  A line is a
`std::string`; its `c_str()` ends with a NUL behind the last byte, and there are no
characters behind that.
-/
import LinuxUtil.Apt.Expr
import LinuxUtil.Httpd.Reader

namespace LinuxUtil.Apt

open Httpd (isspace isdigit cstring atol toSize)

/-! ### Files -/

abbrev Ifstream := List (List UInt8)

/-- The lines of a file, without their newlines.  What follows the last newline is a line only if
there is something. -/
def fileLines : List UInt8 → Ifstream
  | [] => []
  | ch :: s =>
      if ch = 10 then [] :: fileLines s
      else
        match fileLines s with
        | [] => [[ch]]
        | line :: lines => (ch :: line) :: lines

/-! ### Tables -/

/-- The details of a package.  A `size` of 0 marks a record that is not valid. -/
structure PackageDetail where
  md5sum : List UInt8 := List.replicate 16 0
  deps : Option ExprNode := none
  pre_deps : Option ExprNode := none
  filename : Name := []
  size : Nat := 0
  deriving DecidableEq, Repr

/-- The value of a table: the parser enters a package with its first detail. -/
structure Details where
  details : List PackageDetail
  nonempty : details ≠ []

/-- `details[0]`. -/
def Details.first (d : Details) : PackageDetail := d.details.head d.nonempty

/-- A map from package names to details. -/
abbrev Table := List (Name × Details)

/-- `table[package].push_back(detail)`, which enters the package if it is not there. -/
def Table.push_back : Table → Name → PackageDetail → Table
  | [], package, detail => [(package, ⟨[detail], List.cons_ne_nil _ _⟩)]
  | (name, d) :: table, package, detail =>
      if name = package then
        (name, ⟨d.details ++ [detail], List.append_ne_nil_of_left_ne_nil d.nonempty _⟩) :: table
      else (name, d) :: Table.push_back table package detail

/-! ### Lines of a record -/

def startswith (cstr line : List UInt8) : Bool := cstr.isPrefixOf line

/-- `line.substr(pos, line.size() - pos)`. -/
def substr (line : List UInt8) (pos : Nat) : Except Fault Name :=
  if pos ≤ line.length then .ok (line.drop pos) else .error .outOfBounds

/-- `line.c_str()[i]`. -/
def charAt (line : List UInt8) (i : Nat) : Except Fault UInt8 :=
  if i ≤ line.length then .ok (line.getD i 0) else .error .outOfBounds

/-- The value of a hexadecimal digit. -/
def hexDigit (ch : UInt8) : Option Nat :=
  if isdigit ch then some (ch.toNat - 48)
  else if 97 ≤ ch && ch ≤ 102 then some (ch.toNat - 87)
  else if 65 ≤ ch && ch ≤ 70 then some (ch.toNat - 55)
  else none

/-- The digits at the front of a string, as a number. -/
def hexadecimal : Nat → List UInt8 → Nat
  | n, [] => n
  | n, ch :: s =>
      match hexDigit ch with
      | some d => hexadecimal (16 * n + d) s
      | none => n

/-- `strtoul(byte_str, nullptr, 16)` cut to a byte: blanks, a sign, digits.  Two characters leave no
room for digits behind a `0x`. -/
def strtoul (byte_str : List UInt8) : UInt8 :=
  let s := (cstring byte_str).dropWhile isspace
  let n := hexadecimal 0 (if s.head? = some 45 ∨ s.head? = some 43 then s.drop 1 else s)
  if s.head? = some 45 then 0 - UInt8.ofNat n else UInt8.ofNat n

/-- The loop that reads an MD5 sum, from `line.c_str() + 8` on. -/
def readMd5sum (line : List UInt8) : Except Fault (List UInt8) :=
  (List.range 16).mapM fun i => do
    let high ← charAt line (8 + i * 2)
    let low ← charAt line (8 + (i * 2 + 1))
    return strtoul [high, low]

/-- One line of a record. -/
def parseField (line : List UInt8) (package : Name) (detail : PackageDetail) :
    Except Fault (Name × PackageDetail) :=
  if startswith (ascii "Package:") line then do
    let package ← substr line 9
    return (package, detail)
  else if startswith (ascii "Size:") line then
    .ok (package, { detail with size := toSize (atol (cstring (line.drop 5))) })
  else if startswith (ascii "Depends:") line then do
    let dep ← ParseDep (cstring (line.drop 8))
    return (package, { detail with deps := dep })
  else if startswith (ascii "Filename:") line then do
    let filename ← substr line 10
    return (package, { detail with filename })
  else if startswith (ascii "Pre-Depends:") line then do
    let predep ← ParseDep (cstring (line.drop 12))
    return (package, { detail with pre_deps := predep })
  else if startswith (ascii "MD5sum:") line then do
    let md5sum ← readMd5sum line
    return (package, { detail with md5sum })
  else .ok (package, detail)

/-! ### Records -/

/-- The loop over the lines of a record; `parse` says that it has begun. -/
def recordLoop : Ifstream → Bool → Name → PackageDetail →
    Except Fault ((Name × PackageDetail) × Ifstream)
  | [], _, package, detail => .ok ((package, detail), [])
  | line :: ifile, parse, package, detail =>
      if line = [] then
        if parse then .ok ((package, detail), ifile) else recordLoop ifile parse package detail
      else do
        let (package, detail) ← parseField line package detail
        recordLoop ifile true package detail

/-- Parse a record. -/
def AptParse (ifile : Ifstream) : Except Fault ((Name × PackageDetail) × Ifstream) :=
  recordLoop ifile false [] {}

/-- The loop over the records, up to one whose size is 0. -/
def tableLoop : Nat → Ifstream → Table → Except Fault (Table × Ifstream)
  | 0, _, _ => .error .diverges
  | n + 1, ifile, table => do
      let (ret, ifile) ← AptParse ifile
      if ret.2.size = 0 then return (table, ifile)
      else tableLoop n ifile (table.push_back ret.1 ret.2)

/-- Parse a package list and append the results to the table.  A record that is entered has at
least one line, so as many rounds as there are lines, and one more, are enough. -/
def AptParseTable (ifile : Ifstream) (table : Table) : Except Fault Table := do
  let (table, _) ← tableLoop (ifile.length + 1) ifile table
  return table

end LinuxUtil.Apt
