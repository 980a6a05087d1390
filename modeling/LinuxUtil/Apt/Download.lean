/-
`download` and `download-dep` of `apt/apt.cpp`.

The packages go to the current directory.  What fetches them and what adds them up are
programs of their own, run through `execlp` and `popen`: they are an argument, `Tools`.  A
child that does not exit by itself counts as one that exits with 0, as in `WEXITSTATUS`.
-/
import LinuxUtil.Apt.Deps
import Mathlib.Data.Finset.Sort

namespace LinuxUtil.Apt

open Httpd (isspace cstring)

/-- The files of the current directory. -/
abbrev Dir := Name → Option (List UInt8)

/-- The programs that are run. -/
structure Tools where
  /-- `wget uri -q -O ofile`: the status of the child, if there is one to wait for. -/
  wget : Name → Name → Dir → Option UInt8 × Dir
  /-- What a command of the shell prints, if it can be run. -/
  popen : List UInt8 → Dir → Option (List UInt8)

/-- A call of `wget`, and its status. -/
structure Call where
  uri : Name
  ofile : Name
  status : Option UInt8
  deriving DecidableEq, Repr

/-- The directory, and the calls of `wget` so far. -/
structure Downloads where
  dir : Dir
  calls : List Call

/-! ### Is it the right file? -/

/-- `ofile`, as `c_str` has it. -/
def debFile (package : Name) : Name := cstring (package ++ ascii ".deb")

/-- Where a package is fetched from. -/
def packageUri (file : AptListFile) (detail : PackageDetail) : Name :=
  let uri := if file.uri.getLast? ≠ some 47 then file.uri ++ [47] else file.uri
  cstring (uri ++ detail.filename)

end LinuxUtil.Apt
