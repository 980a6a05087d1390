/-
Package sources: `AptListFile` of `apt/apt.cpp`, the parser of a line of
sources.list(5) and the search for the source a list file belongs to.
-/
import LinuxUtil.Apt.Lists

namespace LinuxUtil.Apt

open Httpd (cstring nextToken)

/-- A source, and the packages that were found in its list files. -/
structure AptListFile where
  table : Table
  uri : Name
  suite : Name
  component : Name

/-! ### Lines of `sources.list` -/

/-- `appendNextToken`: what is behind the token, and `dest` with the token behind it. -/
def appendNextToken (str : List UInt8) (dest : Name) : List UInt8 × Name :=
  let (token, str) := nextToken str
  (str, dest ++ token)

/-- The loop that skips a group of options: tokens are appended to `uri` until it ends with `]`.
At the end of the line there are no more tokens, and the loop does not notice. -/
def skipOptions : Nat → List UInt8 → Name → Except Fault (List UInt8)
  | 0, _, _ => .error .diverges
  | n + 1, ptr, uri =>
      match uri.getLast? with
      | none => .error .outOfBounds
      | some ch =>
          if ch = 93 then .ok ptr
          else
            let (ptr, uri) := appendNextToken ptr uri
            if uri = [] then .ok ptr else skipOptions n ptr uri

/-- The loop over the components behind the first. -/
def componentLoop : Nat → List UInt8 → Name → Name → List AptListFile →
    Except Fault (List AptListFile)
  | 0, _, _, _, _ => .error .diverges
  | n + 1, ptr, uri, suite, files =>
      let (ptr, component) := appendNextToken ptr []
      if component = [] then .ok files
      else componentLoop n ptr uri suite (files ++ [⟨[], uri, suite, component⟩])

/-- The first token, or the one behind the options. -/
def readUri (fuel : Nat) (ptr : List UInt8) : Except Fault (List UInt8 × Name) :=
  let (ptr, uri) := appendNextToken ptr []
  if uri.head? = some 91 then do
    let ptr ← skipOptions fuel ptr uri
    return appendNextToken ptr []
  else .ok (ptr, uri)

/-- What follows the uri: a slash is added to it, and there is a source for every component.
`uri.back()` of an empty string is out of bounds. -/
def readSources (fuel : Nat) (files : List AptListFile) (ptr : List UInt8) (uri : Name) :
    Except Fault (List AptListFile) :=
  match uri.getLast? with
  | none => .error .outOfBounds
  | some ch =>
      let uri := if ch = 47 then uri else uri ++ [47]
      let (ptr, suite) := appendNextToken ptr []
      let (ptr, component) := appendNextToken ptr []
      if uri = [] ∨ suite = [] ∨ component = [] then .ok files
      else componentLoop fuel ptr uri suite (files ++ [⟨[], uri, suite, component⟩])

/-- Add the sources of a line to `files`, with `fuel` rounds for each loop.  The character behind
`deb` is skipped; a line that ends there has none. -/
def AptListFile.fromLine (fuel : Nat) (files : List AptListFile) (line : List UInt8) :
    Except Fault (List AptListFile) :=
  if !startswith (ascii "deb") line then .ok files
  else if startswith (ascii "deb-src") line then .ok files
  else if line.length < 4 then .error .outOfBounds
  else do
    let (ptr, uri) ← readUri fuel (cstring (line.drop 4))
    readSources fuel files ptr uri

/-! ### List files -/

/-- The loop of `match` over the tokens of a file name, from token number `tokens` on.  Gives
`actualUri`, or `none` where the source returns `false`.  Every round takes at least one
character. -/
def matchLoop (suite component : Name) : Nat → List UInt8 → Nat → Name → Option Name
  | 0, _, _, actualUri => some actualUri
  | _ + 1, [], _, actualUri => some actualUri
  | n + 1, ch :: file, tokens, actualUri =>
      let thisToken := (ch :: file).takeWhile (· ≠ 95)
      let rest := (ch :: file).dropWhile (· ≠ 95)
      let actualUri := if tokens < 2 then actualUri ++ thisToken ++ [47] else actualUri
      if tokens = 3 ∧ thisToken ≠ suite then none
      else if tokens = 4 ∧ thisToken ≠ component then none
      else if rest = [] ∨ tokens + 1 > 4 then some actualUri
      else matchLoop suite component n (rest.drop 1) (tokens + 1) actualUri

/-- `match`: whether a list file belongs to this source. -/
def AptListFile.match_ (f : AptListFile) (file : List UInt8) : Bool :=
  match matchLoop f.suite f.component file.length file 0 [] with
  | none => false
  | some actualUri =>
      if f.uri.length < actualUri.length then false
      else f.uri.drop (f.uri.length - actualUri.length) == actualUri

end LinuxUtil.Apt
