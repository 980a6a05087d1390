/-
`HttpHeadParser::parse` of `apt/libhttpd/httpd.h` with its indexes.

`parse` in `Httpd/Reader.lean` says what the parser computes from a line.  This is the
same code one access at a time: reading `line[i]` needs `i` below the size of the line,
writing `buf[i]` needs it below 64, and a value is built from a range that must not end
before it starts.  An access that does not meet its bound is a fault.

The parser is a template over its reader, and so it is here: `nextLine` is the one
function of the reader that it calls.  Every loop is given as many rounds as it can take.
-/
import LinuxUtil.Httpd.Reader

namespace LinuxUtil.Httpd

/-- The key buffer, `char buf[64]`. -/
abbrev KeyBuffer := Vector UInt8 64

/-- `line[i]`. -/
def charAt (str : List UInt8) (i : Nat) : Except Fault UInt8 :=
  match str[i]? with
  | some ch => .ok ch
  | none => .error .outOfBounds

/-- `buf[i] = ch`. -/
def putChar (buf : KeyBuffer) (i : Nat) (ch : UInt8) : Except Fault KeyBuffer :=
  if h : i < 64 then .ok (buf.set i ch h) else .error .outOfBounds

/-- The loops that skip characters, from position `pos` on. -/
def skipChars (skip : UInt8 → Bool) (line : List UInt8) : Nat → Nat → Except Fault Nat
  | 0, _ => .error .diverges
  | n + 1, pos =>
      if pos < line.length then do
        let ch ← charAt line pos
        if skip ch then skipChars skip line n (pos + 1) else .ok pos
      else .ok pos

/-- The second loop of `appendNextToken`. -/
def pushChars (line : List UInt8) : Nat → Nat → List UInt8 → Except Fault (List UInt8 × Nat)
  | 0, _, _ => .error .diverges
  | n + 1, pos, dest =>
      if pos < line.length then do
        let ch ← charAt line pos
        if !isspace ch then pushChars line n (pos + 1) (dest ++ [ch]) else .ok (dest, pos)
      else .ok (dest, pos)

def appendNextToken (dest line : List UInt8) (pos : Nat) : Except Fault (List UInt8 × Nat) := do
  let pos ← skipChars isspace line (line.length + 1) pos
  pushChars line (line.length + 1) pos dest

/-- The loop that copies the key.  It tests the character before it tests the index. -/
def copyKey (line : List UInt8) : Nat → Nat → KeyBuffer → Except Fault (Nat × KeyBuffer)
  | 0, _, _ => .error .diverges
  | n + 1, i, buf =>
      if i < 63 then do
        let ch ← charAt line i
        if ch ≠ 58 ∧ i < line.length then
          let buf ← putChar buf i ch
          copyKey line n (i + 1) buf
        else .ok (i, buf)
      else .ok (i, buf)

/-- One round of the loop over the header lines. -/
def parseLineAt (buf : KeyBuffer) (table : Table) (line : List UInt8) :
    Except Fault (KeyBuffer × Table) := do
  let (i, buf) ← copyKey line 64 0 buf
  let buf ← putChar buf i 0
  let i ← skipChars (· == 32) line (line.length + 1) (i + 1)
  let key := cstring buf.toList
  match table.get key with
  | none => .ok (buf, table)
  | some _ =>
      if i ≤ line.length then .ok (buf, table.set key (line.drop i)) else .error .outOfBounds

section Parser

variable {ρ : Type} (nextLine : ρ → Except Fault (List UInt8 × ρ))

def parseLinesAt : Nat → ρ → KeyBuffer → Table → Except Fault (Table × ρ)
  | 0, _, _, _ => .error .diverges
  | n + 1, r, buf, table => do
      let (line, r) ← nextLine r
      if line = [] then return (table, r)
      else
        let (buf, table) ← parseLineAt buf table line
        parseLinesAt n r buf table

/-- `parse`; `rounds` is how many header lines the reader can have at most, and one more. -/
def parseAt (rounds : ρ → Nat) (r : ρ) (buf : KeyBuffer) (table : Table) :
    Except Fault (Head × ρ) := do
  let (line, r) ← nextLine r
  let (method, i) ← appendNextToken [] line 0
  let (path, _) ← appendNextToken [] line i
  let (table, r) ← parseLinesAt nextLine (rounds r) r buf table
  return ({ method, path, table }, r)

end Parser

/-- A reader that has these lines, and then the end of the input. -/
def linesNext : List (List UInt8) → Except Fault (List UInt8 × List (List UInt8))
  | [] => .ok ([], [])
  | line :: lines => .ok (line, lines)

/-- The parser over the lines of a peer. -/
def parseGiven (lines : List (List UInt8)) (buf : KeyBuffer) (table : Table) :
    Except Fault (Head × List (List UInt8)) :=
  parseAt linesNext (fun lines => lines.length + 1) lines buf table

end LinuxUtil.Httpd
