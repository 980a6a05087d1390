/-
When the head parser keeps to its bounds.

A header line is safe if its key ends before the line does: it has a colon among its
first 63 characters, or it is longer than these.  Without a colon the loop that copies
the key reads behind a shorter line.  A line of just 63 characters it leaves alone, but
if these are a key of the table the value starts behind the end: `Bounded`.  Whatever
the index-by-index parser returns, `parse` returns, `parseAt_parse`.
-/
import LinuxUtil.Httpd.Bounds
import LinuxUtil.Proofs.Httpd.Head

namespace LinuxUtil.Httpd

/-! ### Loops -/

theorem charAt_of_lt {str : List UInt8} {i : Nat} (h : i < str.length) :
    charAt str i = .ok str[i] := by
  unfold charAt
  rw [List.getElem?_eq_getElem h]

theorem charAt_of_le {str : List UInt8} {i : Nat} (h : str.length ≤ i) :
    charAt str i = .error .outOfBounds := by
  unfold charAt
  rw [List.getElem?_eq_none h]

/-- A loop that skips ends at the first character to keep. -/
theorem skipChars_eq (skip : UInt8 → Bool) (str : List UInt8) :
    ∀ n pos, str.length ≤ pos + n →
      skipChars skip str (n + 1) pos = .ok (pos + ((str.drop pos).takeWhile skip).length) := by
  intro n
  induction n with
  | zero =>
      intro pos h
      unfold skipChars
      rw [if_neg (by omega), List.drop_of_length_le (by omega)]
      rfl
  | succ n ih =>
      intro pos h
      unfold skipChars
      by_cases hpos : pos < str.length
      · rw [if_pos hpos, charAt_of_lt hpos, List.drop_eq_getElem_cons hpos]
        simp only [bind, Except.bind]
        by_cases hskip : skip str[pos]
        · rw [if_pos hskip, ih (pos + 1) (by omega), List.takeWhile_cons_of_pos hskip,
            List.length_cons, Nat.add_assoc, Nat.add_comm 1]
        · rw [if_neg hskip, List.takeWhile_cons_of_neg hskip]
          rfl
      · rw [if_neg hpos, List.drop_of_length_le (by omega)]
        rfl

theorem pushChars_eq (str : List UInt8) :
    ∀ n pos dest, str.length ≤ pos + n →
      pushChars str (n + 1) pos dest
        = .ok (dest ++ (str.drop pos).takeWhile (!isspace ·),
            pos + ((str.drop pos).takeWhile (!isspace ·)).length) := by
  intro n
  induction n with
  | zero =>
      intro pos dest h
      unfold pushChars
      rw [if_neg (by omega), List.drop_of_length_le (by omega), List.takeWhile_nil,
        List.append_nil]
      rfl
  | succ n ih =>
      intro pos dest h
      unfold pushChars
      by_cases hpos : pos < str.length
      · rw [if_pos hpos, charAt_of_lt hpos, List.drop_eq_getElem_cons hpos]
        simp only [bind, Except.bind]
        by_cases hword : (!isspace str[pos]) = true
        · rw [if_pos hword, ih (pos + 1) _ (by omega), List.takeWhile_cons_of_pos (p := (!isspace ·)) hword,
            List.append_assoc, List.singleton_append, List.length_cons, Nat.add_assoc,
            Nat.add_comm 1]
        · rw [if_neg hword, List.takeWhile_cons_of_neg (p := (!isspace ·)) hword, List.append_nil]
          rfl
      · rw [if_neg hpos, List.drop_of_length_le (by omega), List.takeWhile_nil, List.append_nil]
        rfl

theorem drop_takeWhile_length {α : Type} (p : α → Bool) (l : List α) :
    l.drop (l.takeWhile p).length = l.dropWhile p := by
  calc l.drop (l.takeWhile p).length
      = (l.takeWhile p ++ l.dropWhile p).drop (l.takeWhile p).length := by
        rw [List.takeWhile_append_dropWhile]
    _ = l.dropWhile p := List.drop_left

/-- The next token is read within the line. -/
theorem appendNextToken_eq (line : List UInt8) (pos : Nat) :
    ∃ pos', appendNextToken [] line pos = .ok ((nextToken (line.drop pos)).1, pos')
      ∧ line.drop pos' = (nextToken (line.drop pos)).2 := by
  have hskip := drop_takeWhile_length isspace (line.drop pos)
  rw [List.drop_drop] at hskip
  unfold appendNextToken
  rw [skipChars_eq isspace line _ _ (by omega)]
  simp only [bind, Except.bind]
  rw [pushChars_eq line _ _ _ (by omega), List.nil_append, hskip]
  refine ⟨_, rfl, ?_⟩
  rw [← List.drop_drop, hskip]
  exact drop_takeWhile_length _ _

/-! ### The key -/

theorem take_set (buf : KeyBuffer) {i : Nat} (hi : i < 64) (ch : UInt8) :
    (buf.set i ch hi).toList.take (i + 1) = buf.toList.take i ++ [ch] := by
  have hlen : i < buf.toList.length := by simpa using hi
  have htake : (buf.toList.take i).length = i := List.length_take_of_le (Nat.le_of_lt hlen)
  rw [Vector.toList_set, List.set_eq_take_append_cons_drop, if_pos hlen, List.take_append, htake,
    List.take_take, Nat.min_eq_right (Nat.le_succ i), Nat.add_sub_cancel_left, List.take_succ_cons,
    List.take_zero]

/-- The loop from position `i` on gives the rest of the key, or leaves the line. -/
theorem copyKey_from (str : List UInt8) :
    ∀ n i (buf : KeyBuffer), i + n = 63 → i ≤ str.length →
      (58 ∈ (str.take 63).drop i ∨ 63 ≤ str.length →
        ∃ buf' : KeyBuffer,
          copyKey str (n + 1) i buf
            = .ok (i + (((str.take 63).drop i).takeWhile (· ≠ 58)).length, buf')
          ∧ buf'.toList.take (i + (((str.take 63).drop i).takeWhile (· ≠ 58)).length)
            = buf.toList.take i ++ ((str.take 63).drop i).takeWhile (· ≠ 58))
      ∧ (¬ (58 ∈ (str.take 63).drop i ∨ 63 ≤ str.length) →
        copyKey str (n + 1) i buf = .error .outOfBounds) := by
  intro n
  induction n with
  | zero =>
      intro i buf hi hle
      have hend : (str.take 63).drop i = [] := by
        rw [List.drop_of_length_le]
        rw [List.length_take]
        omega
      refine ⟨fun _ => ⟨buf, ?_, ?_⟩, fun h => absurd (Or.inr (by omega)) h⟩
      · unfold copyKey
        rw [if_neg (by omega), hend]
        rfl
      · simp [hend]
  | succ n ih =>
      intro i buf hi hle
      unfold copyKey
      rw [if_pos (show i < 63 by omega)]
      by_cases hlt : i < str.length
      · have hcons : (str.take 63).drop i = str[i] :: (str.take 63).drop (i + 1) := by
          rw [List.drop_eq_getElem_cons (by rw [List.length_take]; omega), List.getElem_take]
        rw [charAt_of_lt hlt, hcons]
        simp only [bind, Except.bind]
        by_cases hcolon : str[i] = 58
        · rw [hcolon, if_neg (by simp)]
          exact ⟨fun _ => ⟨buf, by simp, by simp⟩, fun h => absurd (Or.inl List.mem_cons_self) h⟩
        · have hput : putChar buf i str[i] = .ok (buf.set i str[i] (by omega)) := by
            unfold putChar
            rw [dif_pos]
          have hnext := ih (i + 1) (buf.set i str[i] (by omega)) (by omega) (by omega)
          have hguard : str[i] ≠ 58 ∧ i < str.length := ⟨hcolon, hlt⟩
          have hmem : 58 ∈ str[i] :: (str.take 63).drop (i + 1)
              ↔ 58 ∈ (str.take 63).drop (i + 1) := by
            rw [List.mem_cons]
            exact or_iff_right fun h => hcolon h.symm
          rw [take_set, List.append_assoc, List.singleton_append, Nat.add_assoc,
            Nat.add_comm 1] at hnext
          rw [if_pos hguard, hput, List.takeWhile_cons_of_pos (by simpa using hcolon),
            List.length_cons, hmem]
          exact hnext
      · have hend : (str.take 63).drop i = [] := by
          rw [List.drop_of_length_le]
          rw [List.length_take]
          omega
        rw [charAt_of_le (by omega), hend]
        refine ⟨?_, fun _ => rfl⟩
        rintro (h | h)
        · simp at h
        · omega

/-- The loop that copies the key stays within the line. -/
def Copyable (line : List UInt8) : Prop := 58 ∈ line.take 63 ∨ 63 ≤ line.length

/-- The key of a line. -/
def keyText (line : List UInt8) : List UInt8 := (line.take 63).takeWhile (· ≠ 58)

theorem copyKey_eq {line : List UInt8} (h : Copyable line) (buf : KeyBuffer) :
    ∃ buf' : KeyBuffer, copyKey line 64 0 buf = .ok ((keyText line).length, buf')
      ∧ buf'.toList.take (keyText line).length = keyText line := by
  have := (copyKey_from line 63 0 buf rfl (Nat.zero_le _)).1 h
  simpa [keyText] using this

theorem copyKey_leaves {line : List UInt8} (h : ¬ Copyable line) (buf : KeyBuffer) :
    copyKey line 64 0 buf = .error .outOfBounds :=
  (copyKey_from line 63 0 buf rfl (Nat.zero_le _)).2 h

theorem length_keyText_le (line : List UInt8) :
    (keyText line).length ≤ 63 ∧ (keyText line).length ≤ line.length := by
  have h := (List.takeWhile_prefix (fun ch : UInt8 => ch ≠ 58) (l := line.take 63)).length_le
  rw [List.length_take] at h
  unfold keyText
  omega

/-- The zero behind it ends the key. -/
theorem cstring_put {buf : KeyBuffer} {key : List UInt8} (hlen : key.length < 64)
    (hkey : buf.toList.take key.length = key) :
    ∃ buf', putChar buf key.length 0 = .ok buf' ∧ cstring buf'.toList = cstring key := by
  refine ⟨buf.set key.length 0 hlen, ?_, ?_⟩
  · unfold putChar
    rw [dif_pos hlen]
  · have htake := take_set buf hlen 0
    rw [hkey] at htake
    unfold cstring
    rw [← List.take_append_drop (key.length + 1) (buf.set key.length 0 hlen).toList, htake,
      List.append_assoc, List.singleton_append, List.takeWhile_append]
    split
    · next hall =>
        rw [List.takeWhile_cons_of_neg (by simp), List.append_nil]
        exact ((List.takeWhile_prefix _).eq_of_length hall).symm
    · rfl

/-! ### One line -/

theorem parseLineAt_eq {line : List UInt8} (h : Copyable line) (buf : KeyBuffer) (table : Table) :
    ∃ buf', parseLineAt buf table line = (parseLine table line).map fun table => (buf', table) := by
  obtain ⟨buf₁, hcopy, hkey⟩ := copyKey_eq h buf
  have hlen := length_keyText_le line
  obtain ⟨buf₂, hput, hstring⟩ := cstring_put (by omega) hkey
  have hdrop := drop_takeWhile_length (· == 32) (line.drop ((keyText line).length + 1))
  rw [List.drop_drop] at hdrop
  refine ⟨buf₂, ?_⟩
  unfold parseLineAt parseLine
  rw [hcopy]
  simp only [bind, Except.bind, hput, skipChars_eq _ line line.length _ (Nat.le_add_left _ _),
    hstring, hdrop]
  have htext : (line.take 63).takeWhile (fun ch => decide (ch ≠ 58)) = keyText line := rfl
  have hskip := (List.takeWhile_prefix (fun ch : UInt8 => ch == 32)
    (l := line.drop ((keyText line).length + 1))).length_le
  rw [List.length_drop] at hskip
  rw [htext]
  cases table.get (cstring (keyText line)) with
  | none => rfl
  | some value =>
      by_cases hfit : (keyText line).length + 1 ≤ line.length
      · simp only [if_pos hfit]
        rw [if_pos (by omega)]
        rfl
      · simp only [if_neg hfit]
        rw [if_neg (by omega)]
        rfl

theorem parseLineAt_leaves {line : List UInt8} (h : ¬ Copyable line) (buf : KeyBuffer)
    (table : Table) : parseLineAt buf table line = .error .outOfBounds := by
  unfold parseLineAt
  rw [copyKey_leaves h]
  rfl

/-- A header line the parser stays within: it has a colon among its first 63 characters, or it is
longer than these, or it is just these and they are no key of the table. -/
def Bounded (table : Table) (line : List UInt8) : Prop :=
  58 ∈ line.take 63 ∨ 63 < line.length
    ∨ (line.length = 63 ∧ table.get (cstring line) = none)

theorem parseLine_cases (table : Table) (line : List UInt8) :
    ((table.get (cstring (keyText line)) = none ∨ (keyText line).length + 1 ≤ line.length)
        ∧ ∃ table', parseLine table line = .ok table')
      ∨ (¬ (table.get (cstring (keyText line)) = none ∨ (keyText line).length + 1 ≤ line.length)
        ∧ parseLine table line = .error .outOfBounds) := by
  have htext : (line.take 63).takeWhile (fun ch => decide (ch ≠ 58)) = keyText line := rfl
  unfold parseLine
  dsimp only
  rw [htext]
  cases hget : table.get (cstring (keyText line)) with
  | none => exact Or.inl ⟨Or.inl rfl, _, rfl⟩
  | some value =>
      by_cases hfit : (keyText line).length + 1 ≤ line.length
      · exact Or.inl ⟨Or.inr hfit, _, if_pos hfit⟩
      · exact Or.inr ⟨by simp [hfit], if_neg hfit⟩

theorem parseLine_ok_iff (table : Table) (line : List UInt8) :
    (∃ table', parseLine table line = .ok table')
      ↔ table.get (cstring (keyText line)) = none ∨ (keyText line).length + 1 ≤ line.length := by
  rcases parseLine_cases table line with ⟨hfit, hok⟩ | ⟨hfit, herr⟩
  · exact iff_of_true hok hfit
  · refine iff_of_false ?_ hfit
    rintro ⟨table', hok⟩
    rw [herr] at hok
    cases hok

/-- A key that a colon ends is shorter than its line. -/
theorem length_keyText_lt {line : List UInt8} (h : 58 ∈ line.take 63) :
    (keyText line).length < line.length := by
  have hpre := List.takeWhile_prefix (fun ch : UInt8 => decide (ch ≠ 58)) (l := line.take 63)
  have hlen := hpre.length_le
  have hne : (keyText line).length ≠ (line.take 63).length := by
    intro heq
    have hall := List.takeWhile_eq_self_iff.mp (hpre.eq_of_length heq) 58 h
    simp at hall
  unfold keyText at hne ⊢
  rw [List.length_take] at hlen hne
  omega

theorem keyText_eq {line : List UInt8} (hlen : line.length = 63) (h : 58 ∉ line.take 63) :
    keyText line = line := by
  unfold keyText
  rw [List.take_of_length_le (Nat.le_of_eq hlen)] at h ⊢
  refine List.takeWhile_eq_self_iff.mpr fun ch hch => ?_
  simpa using fun heq : ch = 58 => h (heq ▸ hch)

theorem bounded_iff (table : Table) (line : List UInt8) :
    Bounded table line ↔ Copyable line ∧ ∃ table', parseLine table line = .ok table' := by
  have hlen := length_keyText_le line
  rw [parseLine_ok_iff]
  unfold Bounded Copyable
  by_cases hcolon : 58 ∈ line.take 63
  · have hlt := length_keyText_lt hcolon
    exact ⟨fun _ => ⟨Or.inl hcolon, Or.inr (by omega)⟩, fun _ => Or.inl hcolon⟩
  · rcases Nat.lt_trichotomy line.length 63 with hshort | heq | hlong
    · refine iff_of_false ?_ fun h => h.1.elim hcolon (by omega)
      rintro (h | h | h)
      · exact hcolon h
      · omega
      · omega
    · rw [keyText_eq heq hcolon, heq]
      simp [hcolon]
    · exact ⟨fun _ => ⟨Or.inr (by omega), Or.inr (by omega)⟩, fun _ => Or.inr (Or.inl hlong)⟩

/-- Which keys a table has does not change. -/
theorem parseLine_get {table table' : Table} {line : List UInt8}
    (h : parseLine table line = .ok table') (key : List UInt8) :
    table'.get key = none ↔ table.get key = none := by
  unfold parseLine at h
  dsimp only at h
  split at h
  · obtain rfl := Except.ok.inj h
    rfl
  · split at h
    · obtain rfl := Except.ok.inj h
      rw [Table.get_set]
      split <;> simp
    · cases h

theorem Bounded.of_parseLine {table table' : Table} {line line' : List UInt8}
    (h : parseLine table line = .ok table') : Bounded table' line' ↔ Bounded table line' := by
  unfold Bounded
  rw [parseLine_get h]

/-! ### All lines -/

/-- The header lines: those behind the first one, up to an empty one. -/
def headerLines (lines : List (List UInt8)) : List (List UInt8) :=
  lines.tail.takeWhile (· ≠ [])

/-- The loop over the header lines ends, unless one of them takes it out of bounds. -/
theorem parseLinesAt_cases :
    ∀ (lines : List (List UInt8)) (n : Nat) (buf : KeyBuffer) (table : Table), lines.length < n →
      ((∀ line ∈ lines.takeWhile (· ≠ []), Bounded table line) ∧
          ∃ result, parseLinesAt linesNext n lines buf table = .ok result)
        ∨ ((∃ line ∈ lines.takeWhile (· ≠ []), ¬ Bounded table line) ∧
          parseLinesAt linesNext n lines buf table = .error .outOfBounds) := by
  intro lines
  induction lines with
  | nil =>
      intro n buf table hn
      obtain ⟨n, rfl⟩ := Nat.exists_eq_succ_of_ne_zero (Nat.ne_of_gt hn)
      exact Or.inl ⟨by simp, _, rfl⟩
  | cons line lines ih =>
      intro n buf table hn
      obtain ⟨n, rfl⟩ := Nat.exists_eq_succ_of_ne_zero (Nat.ne_of_gt (Nat.zero_lt_of_lt hn))
      rw [List.length_cons] at hn
      unfold parseLinesAt
      simp only [linesNext, bind, Except.bind]
      by_cases hnil : line = []
      · subst hnil
        exact Or.inl ⟨by simp, _, rfl⟩
      · rw [if_neg hnil, List.takeWhile_cons_of_pos (by simpa using hnil)]
        by_cases hline : Bounded table line
        · obtain ⟨hcopy, table', hparse⟩ := (bounded_iff table line).mp hline
          obtain ⟨buf', hat⟩ := parseLineAt_eq hcopy buf table
          rw [hat, hparse]
          simp only [Except.map, List.forall_mem_cons, List.exists_mem_cons_iff]
          rcases ih n buf' table' (by omega) with ⟨hall, hok⟩ | ⟨⟨bad, hmem, hbad⟩, herr⟩
          · exact Or.inl ⟨⟨hline, fun l hl => (Bounded.of_parseLine hparse).mp (hall l hl)⟩, hok⟩
          · exact Or.inr ⟨Or.inr ⟨bad, hmem, fun h => hbad ((Bounded.of_parseLine hparse).mpr h)⟩,
              herr⟩
        · right
          refine ⟨⟨line, List.mem_cons_self, hline⟩, ?_⟩
          by_cases hcopy : Copyable line
          · obtain ⟨buf', hat⟩ := parseLineAt_eq hcopy buf table
            rw [hat]
            rcases parseLine_cases table line with ⟨-, hok⟩ | ⟨-, herr⟩
            · exact absurd ((bounded_iff table line).mpr ⟨hcopy, hok⟩) hline
            · rw [herr]
              rfl
          · rw [parseLineAt_leaves hcopy]

theorem parseGiven_cases (lines : List (List UInt8)) (buf : KeyBuffer) (table : Table) :
    ((∀ line ∈ headerLines lines, Bounded table line) ∧
        ∃ result, parseGiven lines buf table = .ok result)
      ∨ ((∃ line ∈ headerLines lines, ¬ Bounded table line) ∧
        parseGiven lines buf table = .error .outOfBounds) := by
  have hnext : linesNext lines = .ok (lines.headD [], lines.tail) := by
    cases lines with
    | nil => rfl
    | cons line lines => rfl
  obtain ⟨i, hmethod, -⟩ := appendNextToken_eq (lines.headD []) 0
  obtain ⟨j, hpath, -⟩ := appendNextToken_eq (lines.headD []) i
  unfold parseGiven parseAt headerLines
  rw [hnext]
  simp only [bind, Except.bind, hmethod, hpath]
  rcases parseLinesAt_cases lines.tail _ buf table (Nat.lt_succ_self _) with
    ⟨hall, result, hok⟩ | ⟨hbad, herr⟩
  · rw [hok]
    exact Or.inl ⟨hall, _, rfl⟩
  · rw [herr]
    exact Or.inr ⟨hbad, rfl⟩

/-- **The parser stays within its bounds exactly on heads whose lines all are.** -/
theorem parse_inBounds_iff (lines : List (List UInt8)) (buf : KeyBuffer) :
    parseGiven lines buf headTable ≠ .error .outOfBounds
      ↔ ∀ line ∈ headerLines lines, Bounded headTable line := by
  rcases parseGiven_cases lines buf headTable with ⟨hall, result, hok⟩ | ⟨⟨bad, hmem, hbad⟩, herr⟩
  · rw [hok]
    exact iff_of_true (by simp) hall
  · exact iff_of_false (fun h => h herr) fun hall => hbad (hall bad hmem)

/-- A request with the line `Connection` in it: the loop reads the character behind the line, and the
value would start behind it too. -/
theorem parse_leaves_bounds :
    parseGiven [ascii "GET / HTTP/1.1", ascii "Connection", []] (Vector.replicate 64 0) headTable
      = .error .outOfBounds := by
  decide +kernel

/-! ### What it returns -/

theorem parseLinesAt_parseLines :
    ∀ (n : Nat) (r r' : HttpHeadReader) (buf : KeyBuffer) (table table' : Table),
      parseLinesAt HttpHeadReader.nextLine n r buf table = .ok (table', r') →
      parseLines n r table = .ok (table', r') := by
  intro n
  induction n with
  | zero => intro r r' buf table table' h; cases h
  | succ n ih =>
      intro r r' buf table table' h
      unfold parseLinesAt at h
      unfold parseLines
      cases hline : r.nextLine with
      | error e => simp [hline, bind, Except.bind] at h
      | ok next =>
          obtain ⟨line, r₁⟩ := next
          rw [hline] at h
          simp only [bind, Except.bind] at h ⊢
          by_cases hnil : line = []
          · rw [if_pos hnil] at h ⊢
            exact h
          · rw [if_neg hnil] at h ⊢
            by_cases hcopy : Copyable line
            · obtain ⟨buf', hat⟩ := parseLineAt_eq hcopy buf table
              rw [hat] at h
              cases hparse : parseLine table line with
              | error e => simp [hparse, Except.map] at h
              | ok table₁ =>
                  rw [hparse] at h
                  exact ih r₁ r' buf' table₁ table' h
            · rw [parseLineAt_leaves hcopy] at h
              cases h

/-- **What the parser returns within its bounds is what `parse` returns.** -/
theorem parseAt_parse {r r' : HttpHeadReader} {buf : KeyBuffer} {table : Table} {head : Head}
    (h : parseAt HttpHeadReader.nextLine (fun r => r.left + 1) r buf table = .ok (head, r')) :
    parse r table = .ok (head, r') := by
  unfold parseAt at h
  unfold parse
  cases hline : r.nextLine with
  | error e => simp [hline, bind, Except.bind] at h
  | ok next =>
      obtain ⟨line, r₁⟩ := next
      obtain ⟨i, hmethod, hrest⟩ := appendNextToken_eq line 0
      obtain ⟨j, hpath, -⟩ := appendNextToken_eq line i
      rw [hline] at h
      simp only [bind, Except.bind, hmethod, hpath] at h ⊢
      cases hlines : parseLinesAt HttpHeadReader.nextLine (r₁.left + 1) r₁ buf table with
      | error e => simp [hlines] at h
      | ok result =>
          rw [hlines] at h
          rw [parseLinesAt_parseLines _ _ _ _ _ _ hlines]
          rw [List.drop_zero] at h hrest
          rw [hrest] at h
          exact h

end LinuxUtil.Httpd
