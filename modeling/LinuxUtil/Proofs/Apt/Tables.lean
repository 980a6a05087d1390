/-
What a package list brings into the table.

A list is a sequence of stanzas, which are the runs of lines between empty lines.  What a
stanza says is defined here without the parser: of each field the last line counts.  On
well-formed lines `AptParse` finds exactly that (`parseFields_stanza`).

The loop over the records has no other sign for the end of the file than a record of size
0, which is also what a stanza without a `Size` line gives.  So the table gets the stanzas
in front of the first such one, and the list is complete exactly if nothing of value
follows it (`aptParse_complete_iff`).
-/
import LinuxUtil.Lib.Words
import LinuxUtil.Proofs.Apt.Records

namespace LinuxUtil.Apt

open Httpd (cstring atol toSize isspace isdigit)

/-! ### Stanzas -/

/-- The runs of lines between empty lines. -/
def stanzas (lines : Ifstream) : List Ifstream := Words.words (· = []) lines

theorem firstStanza_eq (lines : Ifstream) : firstStanza lines = Words.first (· = []) lines := by
  unfold firstStanza Words.first
  simp only [ne_eq, decide_not]

theorem afterStanza_eq (lines : Ifstream) : afterStanza lines = (Words.rest (· = []) lines).drop 1 := by
  unfold afterStanza Words.rest
  simp only [ne_eq, decide_not]

/-- The parser takes the stanzas one by one. -/
theorem stanzas_eq (lines : Ifstream) :
    stanzas lines = if firstStanza lines = [] then []
      else firstStanza lines :: stanzas (afterStanza lines) := by
  unfold stanzas
  rw [firstStanza_eq, afterStanza_eq, Words.words_rest_drop]
  exact Words.words_eq lines

/-! ### What a stanza says -/

/-- The last line with a field. -/
def lastLine (f : Field) (stanza : Ifstream) : Option (List UInt8) :=
  (stanza.filter (startswith f.key)).getLast?

/-- The bytes that pairs of hexadecimal digits stand for. -/
def hexBytes : List UInt8 → List UInt8
  | high :: low :: digits =>
      UInt8.ofNat (16 * (hexDigit high).getD 0 + (hexDigit low).getD 0) :: hexBytes digits
  | _ => []

/-- The tree of a dependency text. -/
def treeOf (depstr : List UInt8) : Option ExprNode :=
  match ParseDep depstr with
  | .ok tree => tree
  | .error _ => none

def stanzaPackage (stanza : Ifstream) : Name :=
  ((lastLine .package stanza).map (·.drop 9)).getD []

def stanzaDetail (stanza : Ifstream) : PackageDetail where
  md5sum := ((lastLine .md5sum stanza).map fun line => hexBytes (line.drop 8)).getD
    (List.replicate 16 0)
  deps := (lastLine .depends stanza).bind fun line => treeOf (fieldText .depends line)
  pre_deps := (lastLine .preDepends stanza).bind fun line => treeOf (fieldText .preDepends line)
  filename := ((lastLine .filename stanza).map (·.drop 10)).getD []
  size := ((lastLine .size stanza).map fun line => toSize (atol (fieldText .size line))).getD 0

/-- A dependency text: nothing, or names with operators between them. -/
def wellFormedDep (depstr : List UInt8) : Bool :=
  scan depstr.length depstr == [] || alternates (scan depstr.length depstr)

/-- A line whose field has the form it should have, if it has one of these fields. -/
def wellFormed (line : List UInt8) : Bool :=
  (!startswith (ascii "Package:") line || startswith (ascii "Package: ") line)
    && (!startswith (ascii "Filename:") line || startswith (ascii "Filename: ") line)
    && (!startswith (ascii "MD5sum:") line || startswith (ascii "MD5sum: ") line
      && line.length == 40 && (line.drop 8).all fun ch => (hexDigit ch).isSome)
    && (!startswith (ascii "Depends:") line || wellFormedDep (fieldText .depends line))
    && (!startswith (ascii "Pre-Depends:") line || wellFormedDep (fieldText .preDepends line))

/-! ### Hexadecimal digits -/

/-- A digit is no NUL, no blank and no sign. -/
theorem hexDigit_plain {ch : UInt8} (h : (hexDigit ch).isSome = true) :
    ch ≠ 0 ∧ isspace ch = false ∧ ch ≠ 45 ∧ ch ≠ 43 := by
  have hrange : 48 ≤ ch.toNat ∧ ch.toNat ≤ 102 := by
    unfold hexDigit isdigit at h
    simp only [Bool.and_eq_true, decide_eq_true_eq, UInt8.le_iff_toNat_le] at h
    split at h
    · next hd => exact ⟨hd.1, hd.2.trans (by decide)⟩
    · split at h
      · next hd => exact ⟨le_trans (by decide) hd.1, hd.2⟩
      · split at h
        · next hd => exact ⟨le_trans (by decide) hd.1, hd.2.trans (by decide)⟩
        · cases h
  have hne : ∀ c : UInt8, c.toNat < 48 → ch ≠ c := by
    rintro c hc rfl
    omega
  refine ⟨hne 0 (by decide), ?_, hne 45 (by decide), hne 43 (by decide)⟩
  unfold isspace
  have h13 : ¬ ch ≤ 13 := by
    rw [UInt8.le_iff_toNat_le]
    have : (13 : UInt8).toNat = 13 := rfl
    omega
  simp [hne 32 (by decide), h13]

theorem strtoul_digits {high low : UInt8} (hh : (hexDigit high).isSome = true)
    (hl : (hexDigit low).isSome = true) :
    strtoul [high, low] = UInt8.ofNat (16 * (hexDigit high).getD 0 + (hexDigit low).getD 0) := by
  obtain ⟨hh0, hhs, hhm, hhp⟩ := hexDigit_plain hh
  obtain ⟨hl0, -, -, -⟩ := hexDigit_plain hl
  obtain ⟨dh, hdh⟩ := Option.isSome_iff_exists.mp hh
  obtain ⟨dl, hdl⟩ := Option.isSome_iff_exists.mp hl
  simp [strtoul, cstring, hh0, hl0, hhs, hhm, hhp, hexadecimal, hdh, hdl]

theorem md5sum_digits :
    ∀ (n : Nat) (digits : List UInt8), digits.length = n * 2 →
      (∀ ch ∈ digits, (hexDigit ch).isSome = true) →
      (List.range n).map (fun i => strtoul [digits.getD (i * 2) 0, digits.getD (i * 2 + 1) 0])
        = hexBytes digits := by
  intro n
  induction n with
  | zero =>
      intro digits hlen _
      rw [Nat.zero_mul, List.length_eq_zero_iff] at hlen
      rw [hlen]
      rfl
  | succ n ih =>
      intro digits hlen hhex
      match digits with
      | [] => simp at hlen
      | [_] =>
          simp only [List.length_cons, List.length_nil] at hlen
          omega
      | high :: low :: digits =>
          have hrest := ih digits (by simp only [List.length_cons] at hlen; omega)
            fun ch hch => hhex ch (List.mem_cons_of_mem _ (List.mem_cons_of_mem _ hch))
          have hfirst := strtoul_digits (hhex high List.mem_cons_self)
            (hhex low (List.mem_cons_of_mem _ List.mem_cons_self))
          have hshift : ∀ i, (i + 1) * 2 = i * 2 + 1 + 1 := by omega
          rw [List.range_succ_eq_map, List.map_cons, List.map_map, hexBytes, ← hrest, ← hfirst]
          simp [Function.comp_def, hshift]

theorem md5sumOf_digits {line : List UInt8} (hlen : line.length = 40)
    (hhex : ∀ ch ∈ line.drop 8, (hexDigit ch).isSome = true) :
    md5sumOf line = hexBytes (line.drop 8) := by
  rw [← md5sum_digits 16 (line.drop 8) (by rw [List.length_drop]; omega) hhex]
  unfold md5sumOf
  simp [List.getD_eq_getElem?_getD]

/-! ### The record parser finds it -/

theorem lastLine_append (f : Field) (stanza : Ifstream) (line : List UInt8) :
    lastLine f (stanza ++ [line])
      = if startswith f.key line then some line else lastLine f stanza := by
  unfold lastLine
  rw [List.filter_append]
  split
  · next h => rw [List.filter_cons_of_pos h, List.filter_nil, List.getLast?_concat]
  · next h => rw [List.filter_cons_of_neg h, List.filter_nil, List.append_nil]

theorem parseDep_wellFormed {depstr : List UInt8} (h : wellFormedDep depstr = true) :
    ParseDep depstr = .ok (treeOf depstr) := by
  have hdig : ∃ tree, ParseDep depstr = .ok tree := by
    unfold wellFormedDep at h
    rw [Bool.or_eq_true, beq_iff_eq] at h
    rcases h with hnil | halt
    · exact (parseDep_digestible depstr).mpr (.inl (by rw [hnil]; exact List.mem_cons_self))
    · obtain ⟨v, pairs, htokens, hv, hp⟩ := alternates_pairs _ halt
      exact ⟨_, parseDep_pairs htokens hv hp⟩
  obtain ⟨tree, htree⟩ := hdig
  unfold treeOf
  rw [htree]

/-- What a well-formed line does, and how long it is. -/
theorem wellFormed_iff {line : List UInt8} : wellFormed line = true ↔
    (startswith (ascii "Package:") line = true → startswith (ascii "Package: ") line = true)
    ∧ (startswith (ascii "Filename:") line = true → startswith (ascii "Filename: ") line = true)
    ∧ (startswith (ascii "MD5sum:") line = true → startswith (ascii "MD5sum: ") line = true
      ∧ line.length = 40 ∧ ∀ ch ∈ line.drop 8, (hexDigit ch).isSome = true)
    ∧ (startswith (ascii "Depends:") line = true → wellFormedDep (fieldText .depends line) = true)
    ∧ (startswith (ascii "Pre-Depends:") line = true →
      wellFormedDep (fieldText .preDepends line) = true) := by
  have himp : ∀ a b : Bool, (!a || b) = true ↔ (a = true → b = true) := by decide
  unfold wellFormed
  simp only [Bool.and_eq_true, himp, beq_iff_eq, List.all_eq_true, and_assoc]

/-- **One line of a stanza.** -/
theorem parseField_stanza {line : List UInt8} (hwf : wellFormed line = true) (stanza : Ifstream) :
    parseField line (stanzaPackage stanza) (stanzaDetail stanza)
      = .ok (stanzaPackage (stanza ++ [line]), stanzaDetail (stanza ++ [line])) := by
  obtain ⟨hpackage, hfilename, hmd5, hdep, hpre⟩ := wellFormed_iff.mp hwf
  by_cases hf : ∃ f : Field, startswith f.key line = true
  · obtain ⟨f, hf⟩ := hf
    have hlast : ∀ g, lastLine g (stanza ++ [line])
        = if g = f then some line else lastLine g stanza := by
      intro g
      rw [lastLine_append, startswith_key hf]
      simp
    rw [parseField_field hf]
    unfold Field.apply stanzaPackage stanzaDetail
    cases f with
    | package =>
        have hlen := (startswith_iff.mp (hpackage hf)).length_le
        simp only [hlast, reduceCtorEq, if_true, if_false]
        exact (substr_map line 9 _).1 hlen
    | size =>
        simp only [hlast, reduceCtorEq, if_true, if_false]
        rfl
    | depends =>
        simp only [hlast, reduceCtorEq, if_true, if_false]
        exact congrArg (Except.map _) (parseDep_wellFormed (hdep hf))
    | filename =>
        have hlen := (startswith_iff.mp (hfilename hf)).length_le
        simp only [hlast, reduceCtorEq, if_true, if_false]
        exact (substr_map line 10 _).1 hlen
    | preDepends =>
        simp only [hlast, reduceCtorEq, if_true, if_false]
        exact congrArg (Except.map _) (parseDep_wellFormed (hpre hf))
    | md5sum =>
        obtain ⟨_, hlen, hhex⟩ := hmd5 hf
        simp only [hlast, reduceCtorEq, if_true, if_false]
        rw [(readMd5sum_map line _).1 (by omega), md5sumOf_digits hlen hhex]
        rfl
  · have hnone : ∀ f : Field, startswith f.key line = false := by
      intro f
      simpa using fun h => hf ⟨f, h⟩
    have hkeep : ∀ f, lastLine f (stanza ++ [line]) = lastLine f stanza := by
      intro f
      simp [lastLine_append, hnone]
    rw [parseField_other hnone]
    unfold stanzaPackage stanzaDetail
    simp only [hkeep]

theorem parseFields_stanza :
    ∀ (stanza before : Ifstream), (∀ line ∈ stanza, wellFormed line = true) →
      parseFields stanza (stanzaPackage before, stanzaDetail before)
        = .ok (stanzaPackage (before ++ stanza), stanzaDetail (before ++ stanza)) := by
  intro stanza
  induction stanza with
  | nil => intro before _; rw [List.append_nil]; rfl
  | cons line stanza ih =>
      intro before hwf
      have hstep := parseField_stanza (hwf line List.mem_cons_self) before
      rw [parseFields_cons, hstep, List.append_cons before line stanza]
      exact ih _ fun l hl => hwf l (List.mem_cons_of_mem line hl)

/-- **`AptParse` reads the first stanza**, and leaves what is behind it. -/
theorem aptParse_stanza {lines : Ifstream} (hwf : ∀ line ∈ lines, wellFormed line = true) :
    AptParse lines = .ok ((stanzaPackage (firstStanza lines), stanzaDetail (firstStanza lines)),
      afterStanza lines) := by
  have hsub : ∀ line ∈ firstStanza lines, wellFormed line = true := by
    intro line hl
    exact hwf line ((List.dropWhile_sublist _).subset ((List.takeWhile_sublist _).subset hl))
  have hread := parseFields_stanza (firstStanza lines) [] hsub
  rw [aptParse_eq]
  exact congrArg (Except.map _) hread

/-! ### Tables -/

/-- The details the table has for a package. -/
def entries (table : Table) (package : Name) : List PackageDetail :=
  ((table.find? fun entry => entry.1 = package).map fun entry => entry.2.details).getD []

theorem entries_push_back (table : Table) (package : Name) (detail : PackageDetail) (name : Name) :
    entries (table.push_back package detail) name
      = entries table name ++ if package = name then [detail] else [] := by
  induction table with
  | nil => by_cases h : package = name <;> simp [Table.push_back, entries, h]
  | cons entry table ih =>
      obtain ⟨key, d⟩ := entry
      have hcons : ∀ (d : Details) (t : Table),
          entries ((key, d) :: t) name = if key = name then d.details else entries t name := by
        intro d t
        unfold entries
        by_cases h : key = name <;> simp [h]
      unfold Table.push_back
      by_cases hk : key = package
      · rw [if_pos hk, hcons, hcons, ← hk]
        by_cases hn : key = name <;> simp [hn]
      · rw [if_neg hk, hcons, hcons, ih]
        by_cases hn : key = name
        · have hp : package ≠ name := fun hp => hk (hn.trans hp.symm)
          simp [hn, hp]
        · simp [hn]

/-- The stanzas that are entered, one after the other. -/
def enter (table : Table) (ss : List Ifstream) : Table :=
  ss.foldl (fun table s => table.push_back (stanzaPackage s) (stanzaDetail s)) table

theorem entries_enter :
    ∀ (ss : List Ifstream) (table : Table) (name : Name),
      entries (enter table ss) name
        = entries table name ++ (ss.filter fun s => stanzaPackage s = name).map stanzaDetail := by
  intro ss
  induction ss with
  | nil => intro table name; exact (List.append_nil _).symm
  | cons s ss ih =>
      intro table name
      have hstep : enter table (s :: ss)
          = enter (table.push_back (stanzaPackage s) (stanzaDetail s)) ss := rfl
      rw [hstep, ih, entries_push_back, List.append_assoc]
      by_cases h : stanzaPackage s = name <;> simp [h]

/-- The stanza has a `Size`, and it is not 0. -/
def sized (stanza : Ifstream) : Bool := (stanzaDetail stanza).size != 0

theorem afterStanza_lt {lines : Ifstream} (h : firstStanza lines ≠ []) :
    (afterStanza lines).length < lines.length := by
  have hlen := Words.rest_length (· = []) lines
  have hdrop := (List.drop_sublist 1 (Words.rest (· = []) lines)).length_le
  rw [firstStanza_eq] at h
  rw [afterStanza_eq]
  have hpos := List.length_pos_iff.mpr h
  omega

/-- **The loop enters the stanzas in front of the first one that is not sized.** -/
theorem tableLoop_stanzas :
    ∀ (n : Nat) (lines : Ifstream) (table : Table), lines.length < n →
      (∀ line ∈ lines, wellFormed line = true) →
      ∃ rest, tableLoop n lines table = .ok (enter table ((stanzas lines).takeWhile sized), rest) := by
  intro n
  induction n with
  | zero => intro lines table hn; omega
  | succ n ih =>
      intro lines table hn hwf
      unfold tableLoop
      rw [aptParse_stanza hwf, stanzas_eq]
      simp only [bind, Except.bind]
      by_cases hfirst : firstStanza lines = []
      · rw [hfirst, if_pos rfl]
        exact ⟨_, rfl⟩
      · rw [if_neg hfirst]
        by_cases hsize : (stanzaDetail (firstStanza lines)).size = 0
        · rw [if_pos hsize, List.takeWhile_cons_of_neg (by simp [sized, hsize])]
          exact ⟨_, rfl⟩
        · have hlt := afterStanza_lt hfirst
          have hsub : ∀ line ∈ afterStanza lines, wellFormed line = true := by
            intro line hl
            exact hwf line ((List.dropWhile_sublist _).subset
              ((List.dropWhile_sublist _).subset ((List.drop_sublist 1 _).subset hl)))
          rw [if_neg hsize, List.takeWhile_cons_of_pos (by simp [sized, hsize])]
          exact ih _ _ (by omega) hsub

/-- The details the file has for a package. -/
def listed (lines : Ifstream) (package : Name) : List PackageDetail :=
  ((stanzas lines).filter fun s => stanzaPackage s = package && sized s).map stanzaDetail

/-- **The table gets every sized stanza of a well-formed file exactly if none of them is behind
one that is not sized.** -/
theorem aptParse_complete_iff (file : List UInt8) (table : Table)
    (hwf : ∀ line ∈ fileLines file, wellFormed line = true) :
    (∃ table', AptParseTable (fileLines file) table = .ok table'
        ∧ ∀ package, entries table' package
          = entries table package ++ listed (fileLines file) package)
      ↔ ∀ s ∈ (stanzas (fileLines file)).dropWhile sized, sized s = false := by
  obtain ⟨rest, hloop⟩ := tableLoop_stanzas _ (fileLines file) table (Nat.lt_succ_self _) hwf
  have hparse : AptParseTable (fileLines file) table
      = .ok (enter table ((stanzas (fileLines file)).takeWhile sized)) := by
    unfold AptParseTable
    rw [hloop]
    rfl
  have hlisted : ∀ package, listed (fileLines file) package
      = (((stanzas (fileLines file)).takeWhile sized).filter fun s => stanzaPackage s = package).map
          stanzaDetail
        ++ (((stanzas (fileLines file)).dropWhile sized).filter fun s =>
          stanzaPackage s = package && sized s).map stanzaDetail := by
    intro package
    unfold listed
    conv_lhs => rw [← List.takeWhile_append_dropWhile (p := sized) (l := stanzas (fileLines file))]
    rw [List.filter_append, List.map_append]
    congr 2
    refine List.filter_congr fun s hs => ?_
    rw [List.mem_takeWhile_imp hs, Bool.and_true]
  rw [hparse]
  refine ⟨?_, fun h => ⟨_, rfl, fun package => ?_⟩⟩
  · rintro ⟨table', htable, hall⟩ s hs
    obtain rfl := Except.ok.inj htable
    have hs' := hall (stanzaPackage s)
    rw [entries_enter, hlisted, List.append_cancel_left_eq] at hs'
    have hnil := List.self_eq_append_right.mp hs'
    rw [List.map_eq_nil_iff, List.filter_eq_nil_iff] at hnil
    simpa using hnil s hs
  · have hnone : ((stanzas (fileLines file)).dropWhile sized).filter
        (fun s => stanzaPackage s = package && sized s) = [] := by
      rw [List.filter_eq_nil_iff]
      intro s hs
      simp [h s hs]
    rw [entries_enter, hlisted, hnone, List.map_nil, List.append_nil]

/-- Two stanzas with two empty lines between them, and none at the end. -/
def twoStanzas : List UInt8 := ascii "Package: a\nDepends: b, c\nSize: 2\n\n\nSize: 3\nPackage: b"

theorem aptParse_complete_two :
    (∃ table', AptParseTable (fileLines twoStanzas) [] = .ok table'
      ∧ ∀ package, entries table' package = entries [] package ++ listed (fileLines twoStanzas) package)
    ∧ (listed (fileLines twoStanzas) (ascii "b")).length = 1 :=
  ⟨(aptParse_complete_iff twoStanzas [] (by decide)).mpr (by decide), by decide⟩

/-- The stanza of `b` is lost behind one without a size. -/
theorem aptParse_loses :
    ¬ ∀ (file : List UInt8) (table : Table), (∀ line ∈ fileLines file, wellFormed line = true) →
      ∃ table', AptParseTable (fileLines file) table = .ok table'
        ∧ ∀ package, entries table' package
          = entries table package ++ listed (fileLines file) package := by
  intro h
  have hlost : AptParseTable (fileLines (ascii "Package: a\n\nPackage: b\nSize: 1\n")) []
      = .ok [] := rfl
  obtain ⟨table', htable, hall⟩ :=
    h (ascii "Package: a\n\nPackage: b\nSize: 1\n") [] (by decide)
  rw [hlost] at htable
  obtain rfl := Except.ok.inj htable
  have hlen := congrArg List.length (hall (ascii "b"))
  revert hlen
  decide

end LinuxUtil.Apt
