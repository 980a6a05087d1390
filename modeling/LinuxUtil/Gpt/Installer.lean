/-
The command line of `gpt/installer.c`.

`argv` is the list of the `argc` arguments, each without its NUL.  Behind them is a null
pointer, and what is behind that may not be looked at.  The index `i` is always odd, so with an `int` as well
`i += 2` does not overflow.
-/
import LinuxUtil.Httpd.Reader

namespace LinuxUtil.Gpt.Installer

/-- `argv[i]`. -/
def argvAt (argv : List (List UInt8)) (i : Nat) : Except Fault (Option (List UInt8)) :=
  match argv[i]? with
  | some arg => .ok (some arg)
  | none => if i = argv.length then .ok none else .error .outOfBounds

/-- The variables that the loop sets; a pointer is `none` if it is null. -/
structure Options where
  path_bzimage : Option (List UInt8)
  path_busybox : Option (List UInt8)
  dst : Option (List UInt8)
  boot_size : Nat
  print_help : Bool
  deriving DecidableEq, Repr

/-- Their initial values. -/
def Options.start : Options := ⟨none, none, none, 64, false⟩

/-- The branches that advance `i`, or nothing if none of them is taken. -/
def readOption (argv : List (List UInt8)) (i : Nat) (o : Options) (cur : List UInt8) :
    Except Fault (Option Options) :=
  if cur = ascii "-k" then do
    let arg ← argvAt argv (i + 1)
    return some { o with path_bzimage := arg }
  else if cur = ascii "-d" then do
    let arg ← argvAt argv (i + 1)
    return some { o with dst := arg }
  else if cur = ascii "-s" then do
    let arg ← argvAt argv (i + 1)
    let s ← deref arg
    return some { o with boot_size := Httpd.toSize (Httpd.atoi s) }
  else if cur = ascii "-busybox" then do
    let arg ← argvAt argv (i + 1)
    return some { o with path_busybox := arg }
  else return none

/-- The loop over the arguments, which stops at `-h` and `--help`. -/
def parseLoop (argv : List (List UInt8)) : Nat → Nat → Options → Except Fault Options
  | 0, _, _ => .error .diverges
  | fuel + 1, i, o =>
      if i < argv.length then do
        let arg ← argvAt argv i
        let cur ← deref arg
        if cur = ascii "-h" ∨ cur = ascii "--help" then return { o with print_help := true }
        else
          let next ← readOption argv i o cur
          match next with
          | some o => parseLoop argv fuel (i + 2) o
          | none => parseLoop argv fuel i o
      else .ok o

end LinuxUtil.Gpt.Installer
