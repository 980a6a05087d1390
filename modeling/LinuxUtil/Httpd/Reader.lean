/-
The head reader and head parser of `apt/libhttpd/httpd.h`.

A socket is the list of what is still to arrive on it.  One `read` gives at most one
arrival, and what does not fit into the caller's buffer stays.  When nothing is to
arrive any more, the peer has closed.

`HttpHeadReader` reads into a buffer and hands out characters from `offset` to `end`;
whoever has parsed a head finds the bytes behind it there.  Both loops over the input
take as many rounds as there are bytes to come, and one for the end of file.
-/
import LinuxUtil.Fault
import Mathlib.Algebra.Group.Int.Defs

namespace LinuxUtil.Httpd

open ByteMem

def EINVAL : Errno := 22

/-! ### Sockets -/

inductive Arrival
  | bytes (bs : List UInt8)
  | error (e : Errno)
  deriving DecidableEq, Repr

abbrev Socket := List Arrival

/-- `read(2)`: the bytes read, none of them at the end of file, or the error. -/
def Socket.read (len : Nat) : Socket → Except Errno (List UInt8) × Socket
  | [] => (.ok [], [])
  | .error e :: rest => (.error e, rest)
  | .bytes bs :: rest =>
      if bs.length ≤ len then (.ok bs, rest)
      else (.ok (bs.take len), .bytes (bs.drop len) :: rest)

/-- The bytes still to arrive. -/
def Socket.bytes : Socket → List UInt8
  | [] => []
  | .bytes bs :: rest => bs ++ Socket.bytes rest
  | .error _ :: rest => Socket.bytes rest

/-! ### The head reader -/

structure HttpHeadReader where
  socket : Socket
  buffer : Mem
  size : Nat
  offset : Nat
  end_ : Nat
  error : Errno

namespace HttpHeadReader

def fill (r : HttpHeadReader) : HttpHeadReader :=
  match r.socket.read r.size with
  | (.error e, socket) => { r with socket, offset := 0, end_ := 0, error := e }
  | (.ok bs, socket) =>
      { r with socket, buffer := write r.buffer 0 bs, offset := 0, end_ := bs.length }

/-- The next character as a signed `char`, `-1` at the end of file and on errors. -/
def getch (r : HttpHeadReader) : Int × HttpHeadReader :=
  let r' := if r.offset ≥ r.end_ then r.fill else r
  if r.offset ≥ r.end_ ∧ (r'.error ≠ 0 ∨ r'.offset ≥ r'.end_) then (-1, r')
  else ((r'.buffer r'.offset).toInt8.toInt, { r' with offset := r'.offset + 1 })

def reset (r : HttpHeadReader) (socket : Socket) : HttpHeadReader :=
  { r with socket, offset := 0, end_ := 0, error := 0 }

/-- `getLastError`: the error, which is cleared. -/
def getLastError (r : HttpHeadReader) : Errno × HttpHeadReader :=
  (r.error, { r with error := 0 })

/-- The bytes in the buffer that have not been handed out. -/
def pending (r : HttpHeadReader) : List UInt8 := read r.buffer r.offset (r.end_ - r.offset)

/-- How many characters are to come. -/
def left (r : HttpHeadReader) : Nat := r.pending.length + r.socket.bytes.length

/-- The loop of `nextLine`, with what it has collected. -/
def lineLoop : Nat → HttpHeadReader → List UInt8 → Except Fault (List UInt8 × HttpHeadReader)
  | 0, _, _ => .error .diverges
  | n + 1, r, line =>
      let (ch, r) := r.getch
      if ch < 0 then .ok ([], { r with error := EINVAL })
      else
        let ch := UInt8.ofNat ch.toNat
        if ch = 10 then .ok (line, r)
        else if ch ≠ 13 then lineLoop n r (line ++ [ch])
        else lineLoop n r line

def nextLine (r : HttpHeadReader) : Except Fault (List UInt8 × HttpHeadReader) :=
  lineLoop (r.left + 1) r []

end HttpHeadReader

/-! ### The head parser -/

/-- A table of header fields; the keys are C strings. -/
abbrev Table := List (List UInt8 × List UInt8)

namespace Table

def get (table : Table) (key : List UInt8) : Option (List UInt8) :=
  (table.find? fun entry => entry.1 = key).map (·.2)

/-- Assign to a key that is there. -/
def set (table : Table) (key value : List UInt8) : Table :=
  table.map fun entry => if entry.1 = key then (entry.1, value) else entry

end Table

/-- `isspace`. -/
def isspace (ch : UInt8) : Bool := ch == 32 || (9 ≤ ch && ch ≤ 13)

/-- `appendNextToken` from the start of a line: the token, and what is behind it. -/
def nextToken (line : List UInt8) : List UInt8 × List UInt8 :=
  let line := line.dropWhile isspace
  (line.takeWhile (!isspace ·), line.dropWhile (!isspace ·))

/-- The C string in a buffer: what is in front of the first NUL. -/
def cstring (buf : List UInt8) : List UInt8 := buf.takeWhile (· ≠ 0)

/-- One round of the loop over the header lines: update the table if it has the key. -/
def parseLine (table : Table) (line : List UInt8) : Except Fault Table :=
  let buf := (line.take 63).takeWhile (· ≠ 58)
  let key := cstring buf
  match table.get key with
  | none => .ok table
  | some _ =>
      if buf.length + 1 ≤ line.length then
        .ok (table.set key ((line.drop (buf.length + 1)).dropWhile (· = 32)))
      else .error .outOfBounds

/-- The loop over the header lines, up to the empty one. -/
def parseLines : Nat → HttpHeadReader → Table → Except Fault (Table × HttpHeadReader)
  | 0, _, _ => .error .diverges
  | n + 1, r, table => do
      let (line, r) ← r.nextLine
      if line = [] then return (table, r)
      else
        let table ← parseLine table line
        parseLines n r table

/-- What `HttpHeadParser::parse` leaves in the parser. -/
structure Head where
  method : List UInt8
  path : List UInt8
  table : Table
  deriving DecidableEq, Repr

def Head.isValid (head : Head) : Bool := !head.method.isEmpty && !head.path.isEmpty

def parse (r : HttpHeadReader) (table : Table) : Except Fault (Head × HttpHeadReader) := do
  let (line, r) ← r.nextLine
  let (method, line) := nextToken line
  let (path, _) := nextToken line
  let (table, r) ← parseLines (r.left + 1) r table
  return ({ method, path, table }, r)

/-! ### Values -/

/-- `strcasecmp(a, b) == 0`. -/
def strcaseeq (a b : List UInt8) : Bool :=
  let lower := fun ch : UInt8 => if 65 ≤ ch && ch ≤ 90 then ch + 32 else ch
  a.map lower == b.map lower

inductive HttpConnectionType
  | CLOSE
  | KEEP_ALIVE
  deriving DecidableEq, Repr

def connFromString (s : List UInt8) : HttpConnectionType :=
  if s = [] || strcaseeq s (ascii "close") then .CLOSE else .KEEP_ALIVE

def isdigit (ch : UInt8) : Bool := 48 ≤ ch && ch ≤ 57

/-- The number a run of digits stands for. -/
def decimal (ds : List UInt8) : Nat := ds.foldl (fun n ch => 10 * n + (ch.toNat - 48)) 0

/-- `atol`: blanks, a sign, digits; a number that is too large becomes the largest there is. -/
def atol (s : List UInt8) : Int :=
  let s := s.dropWhile isspace
  let negative := s.head? = some 45
  let s := if s.head? = some 45 ∨ s.head? = some 43 then s.drop 1 else s
  let n := decimal (s.takeWhile isdigit)
  if negative then max (-(n : Int)) (-2 ^ 63) else min (n : Int) (2 ^ 63 - 1)

/-- `atoi`, which is `atol` cut to 32 bits. -/
def atoi (s : List UInt8) : Int := (BitVec.ofInt 32 (atol s)).toInt

/-- The conversion of a `long` to `size_t`. -/
def toSize (n : Int) : Nat := (n % 2 ^ 64).toNat

/-- The table both sides start with. -/
def headTable : Table := [(ascii "Connection", []), (ascii "Content-Length", [])]

/-- `Content-Length` as the code reads it: 0 if it is missing. -/
def Head.contentLength (head : Head) : Nat :=
  match head.table.get (ascii "Content-Length") with
  | none => 0
  | some s => if s = [] then 0 else toSize (atol (cstring s))

end LinuxUtil.Httpd
