/-
`Apt::Apt` of `apt/apt.cpp`: the sources, and the list files that belong to them.

What is on the file system is an argument: lines of files and entries of directories, in the
order in which `std::getline` and `readdir` give them.  A file that cannot be opened has no
lines.
-/
import LinuxUtil.Apt.Deps

namespace LinuxUtil.Apt

/-- `parse`, for the source at an index. -/
def parseAt (files : List AptListFile) (i : Nat) (ifile : Ifstream) : Except Fault (List AptListFile) := do
  let file ← deref files[i]?
  let table ← AptParseTable ifile file.table
  return files.set i { file with table }

end LinuxUtil.Apt
