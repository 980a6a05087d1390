/-
The table after a head.

A header line sets the key in front of its colon, if the table has that key; a later line
sets it again.  So a key maps to what its last line says.  The parser copies a key into 64
bytes and cuts it, which does not matter to a table whose keys are shorter than that: a
key that was cut is none of them.
-/
import LinuxUtil.Lib.Words
import LinuxUtil.Proofs.Httpd.Bounds

namespace LinuxUtil.Httpd

/-! ### Header lines -/

/-- What is in front of the first colon. -/
def lineKey (line : List UInt8) : List UInt8 := line.takeWhile (· ≠ 58)

/-- What is behind the first colon, without leading spaces. -/
def lineValue (line : List UInt8) : List UInt8 :=
  ((line.dropWhile (· ≠ 58)).drop 1).dropWhile (· = 32)

/-- A header line as the parser expects it. -/
structure IsField (line : List UInt8) : Prop where
  colon : 58 ∈ line
  nul : 0 ∉ lineKey line

/-- The last line that sets a key. -/
def lastLine (lines : List (List UInt8)) (key : List UInt8) : Option (List UInt8) :=
  lines.reverse.find? (lineKey · = key)

theorem IsField.ne_nil {line : List UInt8} (h : IsField line) : line ≠ [] := by
  rintro rfl
  exact List.not_mem_nil h.colon

theorem IsField.copyable {line : List UInt8} (h : IsField line) : Copyable line := by
  by_cases hlen : 63 ≤ line.length
  · exact .inr hlen
  · rw [Copyable, List.take_of_length_le (by omega)]
    exact .inl h.colon

theorem IsField.parseLine {line : List UInt8} (h : IsField line) {table : Table} (ht : table.Short) :
    parseLine table line = .ok (table.set (lineKey line) (lineValue line)) := by
  obtain ⟨key, value, rfl, hkey⟩ := List.eq_append_cons_of_mem h.colon
  have hplain : ∀ b ∈ key, decide (b ≠ 58) = true := fun b hb =>
    decide_eq_true fun hc => hkey (hc ▸ hb)
  have hk : lineKey (key ++ 58 :: value) = key := by
    rw [lineKey, List.takeWhile_append_of_pos hplain, List.takeWhile_cons_of_neg (by decide),
      List.append_nil]
  have hv : lineValue (key ++ 58 :: value) = value.dropWhile (· = 32) := by
    rw [lineValue, List.dropWhile_append_of_pos hplain, List.dropWhile_cons_of_neg (by decide)]
    rfl
  rw [hk, hv]
  refine parseLine_colon ht hkey ?_ value
  rw [← hk]
  exact h.nul

/-! ### Tables -/

theorem Table.set_keys (table : Table) (key value : List UInt8) :
    (table.set key value).map (·.1) = table.map (·.1) := by
  rw [Table.set, List.map_map]
  refine List.map_congr_left fun entry _ => ?_
  by_cases h : entry.1 = key
  · simp [h]
  · simp [h]

/-- The table after some lines. -/
def setLines (lines : List (List UInt8)) (table : Table) : Table :=
  lines.foldl (fun table line => table.set (lineKey line) (lineValue line)) table

theorem setLines_keys (lines : List (List UInt8)) (table : Table) :
    (setLines lines table).map (·.1) = table.map (·.1) := by
  induction lines generalizing table with
  | nil => rfl
  | cons line lines ih => exact (ih _).trans (table.set_keys _ _)

/-- The last line that sets a key decides. -/
theorem get_setLines (lines : List (List UInt8)) (table : Table) (key : List UInt8) :
    (setLines lines table).get key =
      (table.get key).map fun initial => ((lastLine lines key).map lineValue).getD initial := by
  induction lines generalizing table with
  | nil => simp [setLines, lastLine]
  | cons line lines ih =>
      have hlast : lastLine (line :: lines) key =
          (lastLine lines key).or (if lineKey line = key then some line else none) := by
        unfold lastLine
        rw [List.reverse_cons, List.find?_append]
        by_cases h : lineKey line = key
        · simp [h]
        · simp [h]
      have hstep : (setLines (line :: lines) table).get key =
          (setLines lines (table.set (lineKey line) (lineValue line))).get key := rfl
      rw [hstep, ih, Table.get_set, hlast]
      by_cases h : lineKey line = key
      · rw [if_pos h, if_pos h, Option.map_map]
        cases lastLine lines key with
        | none => rfl
        | some last => rfl
      · rw [if_neg h, if_neg h, Option.or_none]

/-! ### Heads -/

theorem parseLinesAt_fields :
    ∀ (lines rest : List (List UInt8)) (n : Nat) (buf : KeyBuffer) {table : Table}, table.Short →
      (∀ line ∈ lines, IsField line) → lines.length < n →
      parseLinesAt linesNext n (lines ++ [] :: rest) buf table = .ok (setLines lines table, rest) := by
  intro lines
  induction lines with
  | nil =>
      intro rest n buf table _ _ hn
      obtain ⟨n, rfl⟩ := Nat.exists_eq_succ_of_ne_zero (Nat.ne_of_gt hn)
      rfl
  | cons line lines ih =>
      intro rest n buf table ht hall hn
      obtain ⟨n, rfl⟩ := Nat.exists_eq_succ_of_ne_zero (Nat.ne_of_gt (Nat.zero_lt_of_lt hn))
      have hline := hall line List.mem_cons_self
      obtain ⟨buf', hat⟩ := parseLineAt_eq hline.copyable buf table
      unfold parseLinesAt
      simp only [List.cons_append, linesNext, bind, Except.bind, hline.ne_nil, if_false, hat,
        hline.parseLine ht, Except.map]
      exact ih rest n buf' (Table.set_short ht _ _) (fun l hl => hall l (List.mem_cons_of_mem line hl))
        (Nat.lt_of_succ_lt_succ hn)

theorem nextToken_first (line : List UInt8) : (nextToken line).1 = Words.first isspace line := rfl

/-- The two tokens of the request line. -/
theorem tokens_words (line : List UInt8) :
    (nextToken line).1 = (Words.words isspace line)[0]?.getD [] ∧
      (nextToken (nextToken line).2).1 = (Words.words isspace line)[1]?.getD [] := by
  have hrest : (nextToken line).2 = Words.rest isspace line := rfl
  rw [nextToken_first, nextToken_first, hrest, Words.words_eq]
  by_cases h : Words.first isspace line = []
  · rw [if_pos h, h, Words.rest_eq_nil h]
    exact ⟨rfl, rfl⟩
  · rw [if_neg h, Words.words_eq (Words.rest isspace line)]
    refine ⟨rfl, ?_⟩
    by_cases h' : Words.first isspace (Words.rest isspace line) = []
    · rw [if_pos h', h']
      rfl
    · rw [if_neg h']
      rfl

/-- **What a head means.**  The keys of the table stay; each maps to the value of its last line, or to
what it was; method and path are the first two words of the request line; and the lines up to the
empty one are taken. -/
theorem parseGiven_head (start : List UInt8) {lines : List (List UInt8)}
    (hlines : ∀ line ∈ lines, line ≠ [] ∧ 58 ∈ line ∧ 0 ∉ lineKey line) (rest : List (List UInt8))
    (buf : KeyBuffer) {table : Table} (ht : ∀ entry ∈ table, entry.1.length < 63) :
    ∃ head, parseGiven (start :: (lines ++ [] :: rest)) buf table = .ok (head, rest) ∧
      head.method = (Words.words isspace start)[0]?.getD [] ∧
      head.path = (Words.words isspace start)[1]?.getD [] ∧
      head.table.map (·.1) = table.map (·.1) ∧
      ∀ key, head.table.get key =
        (table.get key).map fun initial => ((lastLine lines key).map lineValue).getD initial := by
  obtain ⟨i, hmethod, hbehind⟩ := appendNextToken_eq start 0
  obtain ⟨j, hpath, -⟩ := appendNextToken_eq start i
  have hloop := parseLinesAt_fields lines rest ((lines ++ [] :: rest).length + 1) buf ht
    (fun line hl => ⟨(hlines line hl).2.1, (hlines line hl).2.2⟩) (by
      rw [List.length_append]
      omega)
  rw [hbehind] at hpath
  rw [List.drop_zero] at hmethod hpath
  obtain ⟨hfirst, hsecond⟩ := tokens_words start
  refine ⟨⟨(nextToken start).1, (nextToken (nextToken start).2).1, setLines lines table⟩, ?_, hfirst,
    hsecond, setLines_keys lines table, get_setLines lines table⟩
  unfold parseGiven parseAt
  simp only [linesNext, bind, Except.bind, hmethod, hpath, hloop]
  rfl

/-- A key that comes twice, one that is not in the table, and an empty value. -/
def twiceLines : List (List UInt8) :=
  [ascii "Host: a", ascii "Connection: close", ascii "Content-Length:", ascii "Connection:   x:y "]

theorem parseGiven_head_twice :
    (∀ line ∈ twiceLines, line ≠ [] ∧ 58 ∈ line ∧ 0 ∉ lineKey line) ∧
    (∀ entry ∈ headTable, entry.1.length < 63) ∧
    ∃ head, parseGiven (ascii " GET  /a" :: (twiceLines ++ [] :: [ascii "body"]))
        (Vector.replicate 64 0) headTable = .ok (head, [ascii "body"]) ∧
      head.path = ascii "/a" ∧ head.table.get (ascii "Connection") = some (ascii "x:y ") := by
  have hlines : ∀ line ∈ twiceLines, line ≠ [] ∧ 58 ∈ line ∧ 0 ∉ lineKey line := by decide
  have ht : ∀ entry ∈ headTable, entry.1.length < 63 := by decide
  obtain ⟨head, hparse, -, hpath, -, hget⟩ :=
    parseGiven_head (ascii " GET  /a") hlines [ascii "body"] (Vector.replicate 64 0) ht
  refine ⟨hlines, ht, head, hparse, hpath, ?_⟩
  rw [hget]
  decide

end LinuxUtil.Httpd
