/-
A head is parsed as it was rendered.

`HeadText` is a head as a peer writes it, and `parse` of it gives back the tokens of the
start line and, for each key of the table, the value of the last line that has it.  The
segments show in one place only: the feed after the head, `f.skip`, has some of what
follows in `ready`.
-/
import LinuxUtil.Lib.Words
import LinuxUtil.Proofs.Httpd.Reader
import Mathlib.Data.List.Induction
import Mathlib.Data.List.TakeWhile

namespace LinuxUtil.Httpd

open ByteMem

/-! ### Heads -/

/-- A header line, `key: value`. -/
structure Field where
  key : List UInt8
  value : List UInt8
  key_printable : ∀ b ∈ key, Printable b
  key_ne_colon : ∀ b ∈ key, b ≠ 58
  value_printable : ∀ b ∈ value, Printable b

namespace Field

def line (h : Field) : List UInt8 := h.key ++ ascii ": " ++ h.value

/-- The value without the blanks in front of it. -/
def content (h : Field) : List UInt8 := h.value.dropWhile (· = 32)

theorem line_printable (h : Field) : ∀ b ∈ h.line, Printable b := by
  intro b hb
  unfold line at hb
  rcases List.mem_append.mp hb with hb | hb
  · rcases List.mem_append.mp hb with hb | hb
    · exact h.key_printable b hb
    · rcases List.mem_cons.mp hb with rfl | hb
      · decide
      · rw [List.mem_singleton.mp hb]
        decide
  · exact h.value_printable b hb

theorem line_ne_nil (h : Field) : h.line ≠ [] := by
  unfold line
  simp [show ascii ": " = [58, 32] from rfl]

end Field

theorem cstring_eq {l : List UInt8} (hl : ∀ b ∈ l, Printable b) : cstring l = l := by
  unfold cstring
  refine List.takeWhile_eq_self_iff.mpr ?_
  intro b hb
  simpa using (hl b hb).2.1

namespace Table

/-- The keys fit into the parser's buffer. -/
def Short (table : Table) : Prop := ∀ entry ∈ table, entry.1.length < 63

theorem set_short {table : Table} (h : table.Short) (key value : List UInt8) :
    (table.set key value).Short := by
  intro entry he
  obtain ⟨entry', hmem, rfl⟩ := List.mem_map.mp he
  by_cases hk : entry'.1 = key
  · rw [if_pos hk]
    exact h entry' hmem
  · rw [if_neg hk]
    exact h entry' hmem

theorem get_eq_none {table : Table} {key : List UInt8} :
    table.get key = none ↔ ∀ entry ∈ table, entry.1 ≠ key := by
  simp [get, List.find?_eq_none]

theorem set_of_get_none {table : Table} {key : List UInt8} (h : table.get key = none)
    (value : List UInt8) : table.set key value = table := by
  unfold set
  refine (List.map_congr_left ?_).trans (List.map_id table)
  intro entry he
  rw [if_neg (get_eq_none.mp h entry he)]
  rfl

theorem get_set (table : Table) (key value key' : List UInt8) :
    (table.set key value).get key' =
      if key = key' then (table.get key').map fun _ => value else table.get key' := by
  induction table with
  | nil => by_cases h : key = key' <;> simp [set, get]
  | cons entry table ih =>
      obtain ⟨k, v⟩ := entry
      unfold set get at ih ⊢
      simp only [List.map_cons, List.find?_cons]
      by_cases hk : k = key
      · subst hk
        by_cases h : k = key'
        · simp [h]
        · simp only [h, if_true, if_false, decide_false] at ih ⊢
          exact ih
      · rw [if_neg hk]
        by_cases h : k = key'
        · subst h
          simp [show ¬ key = k from fun h => hk h.symm]
        · simp only [h, decide_false]
          exact ih

end Table

/-- A line with a colon sets the key in front of it, if the table has it. -/
theorem parseLine_colon {table : Table} (ht : table.Short) {key : List UInt8} (hcolon : 58 ∉ key)
    (hnul : 0 ∉ key) (value : List UInt8) :
    parseLine table (key ++ 58 :: value) = .ok (table.set key (value.dropWhile (· = 32))) := by
  have hkey : ∀ b ∈ key, decide (b ≠ 58) = true := fun b hb =>
    decide_eq_true fun hc => hcolon (hc ▸ hb)
  have hstring : ∀ {l : List UInt8}, l ⊆ key → cstring l = l := fun hl =>
    List.takeWhile_eq_self_iff.mpr fun b hb => decide_eq_true fun hc => hnul (hc ▸ hl hb)
  by_cases hlen : key.length ≤ 63
  · have hbuf : ((key ++ 58 :: value).take 63).takeWhile (· ≠ 58) = key := by
      rw [List.take_append, List.take_of_length_le hlen, List.takeWhile_append_of_pos hkey]
      cases hm : 63 - key.length with
      | zero => rw [List.take_zero, List.takeWhile_nil, List.append_nil]
      | succ m =>
          rw [List.take_succ_cons, List.takeWhile_cons_of_neg (by decide), List.append_nil]
    have hdrop : (key ++ 58 :: value).drop (key.length + 1) = value := by
      rw [← List.drop_drop, List.drop_left, List.drop_succ_cons, List.drop_zero]
    have hfit : key.length + 1 ≤ (key ++ 58 :: value).length := by
      rw [List.length_append, List.length_cons]
      omega
    unfold parseLine
    simp only [hbuf, hstring (List.Subset.refl key), hdrop, hfit, if_true]
    cases hg : table.get key with
    | none => rw [Table.set_of_get_none hg]
    | some v => rfl
  · -- the key is cut, and neither it nor its start is in the table
    have hbuf : ((key ++ 58 :: value).take 63).takeWhile (· ≠ 58) = key.take 63 := by
      rw [List.take_append_of_le_length (by omega)]
      exact List.takeWhile_eq_self_iff.mpr fun b hb => hkey b (List.mem_of_mem_take hb)
    have hnone : ∀ key : List UInt8, 63 ≤ key.length → table.get key = none := by
      intro key hk
      refine Table.get_eq_none.mpr fun entry he hkey => ?_
      have := ht entry he
      rw [hkey] at this
      omega
    unfold parseLine
    simp only [hbuf, hstring (List.take_subset 63 key)]
    rw [hnone (key.take 63) (by rw [List.length_take]; omega),
      Table.set_of_get_none (hnone key (by omega))]

/-- A header line sets its key, if the table has it. -/
theorem parseLine_field {table : Table} (ht : table.Short) (h : Field) :
    parseLine table h.line = .ok (table.set h.key h.content) := by
  have hline : h.line = h.key ++ 58 :: 32 :: h.value := by
    unfold Field.line
    simp [show ascii ": " = [58, 32] from rfl]
  rw [hline, parseLine_colon ht (fun hb => h.key_ne_colon 58 hb rfl)
    (fun hb => (h.key_printable 0 hb).2.1 rfl), List.dropWhile_cons_of_pos (by decide)]
  rfl

/-- The header lines and the empty line. -/
def renderFields (fields : List Field) : List UInt8 :=
  (fields.flatMap fun h => h.line ++ ascii "\r\n") ++ ascii "\r\n"

theorem renderFields_cons (h : Field) (fields : List Field) :
    renderFields (h :: fields) = h.line ++ ascii "\r\n" ++ renderFields fields := by
  simp only [renderFields, List.flatMap_cons, List.append_assoc]

theorem length_le_renderFields (fields : List Field) :
    fields.length ≤ (renderFields fields).length := by
  induction fields with
  | nil => exact Nat.zero_le _
  | cons h fields ih =>
      have hline := List.length_pos_of_ne_nil h.line_ne_nil
      rw [renderFields_cons, List.length_cons, List.length_append, List.length_append]
      omega

/-- What a list of header lines makes of a table. -/
def setFields (fields : List Field) (table : Table) : Table :=
  fields.foldl (fun table h => table.set h.key h.content) table

theorem Views.parseLines :
    ∀ (fields : List Field) {r : HttpHeadReader} {f : Feed UInt8} {rest : List UInt8} {table : Table}
      (n : Nat), Views r f → table.Short → f.stream = renderFields fields ++ rest →
      fields.length < n →
      ∃ r', Httpd.parseLines n r table = .ok (setFields fields table, r') ∧
        Views r' (f.skip r.size (renderFields fields).length) ∧ r'.size = r.size := by
  intro fields
  induction fields with
  | nil =>
      intro r f rest table n h _ hs hn
      obtain ⟨n, rfl⟩ := Nat.exists_eq_succ_of_ne_zero (Nat.ne_of_gt hn)
      obtain ⟨r', hline, hv, hsize⟩ := h.nextLine (l := []) (by simp) hs
      refine ⟨r', ?_, hv, hsize⟩
      unfold Httpd.parseLines
      rw [hline]
      rfl
  | cons field fields ih =>
      intro r f rest table n h ht hs hn
      obtain ⟨n, rfl⟩ := Nat.exists_eq_succ_of_ne_zero (Nat.ne_of_gt (Nat.zero_lt_of_lt hn))
      rw [renderFields_cons, List.append_assoc] at hs
      obtain ⟨r₁, hline, hv, hsize⟩ := h.nextLine field.line_printable hs
      have hstream := Feed.skip_append h.size h.live hs
      obtain ⟨r', hparse, hv', hsize'⟩ := ih n hv (Table.set_short ht field.key field.content)
        hstream (Nat.lt_of_succ_lt_succ hn)
      refine ⟨r', ?_, ?_, hsize'.trans hsize⟩
      · unfold Httpd.parseLines
        rw [hline]
        simp only [bind, Except.bind, field.line_ne_nil, if_false, parseLine_field ht]
        exact hparse
      · rw [renderFields_cons, List.length_append, Feed.skip_add, ← hsize]
        rw [← hsize] at hv'
        exact hv'

/-- A head: its start line and its header lines. -/
structure HeadText where
  start : List UInt8
  fields : List Field
  start_printable : ∀ b ∈ start, Printable b

namespace HeadText

def render (t : HeadText) : List UInt8 := t.start ++ ascii "\r\n" ++ renderFields t.fields

/-- What the parser is to make of it. -/
def head (t : HeadText) : Head where
  method := (nextToken t.start).1
  path := (nextToken (nextToken t.start).2).1
  table := setFields t.fields headTable

/-- The last line with a key decides. -/
def lookup (t : HeadText) (key : List UInt8) : Option (List UInt8) :=
  (t.fields.reverse.find? (·.key = key)).map Field.content

end HeadText

theorem headTable_short : headTable.Short := by
  intro entry he
  rcases List.mem_cons.mp he with rfl | he
  · decide
  · rw [List.mem_singleton.mp he]
    decide

/-- **A head is parsed as it was rendered, however it arrives.** -/
theorem Views.parse {r : HttpHeadReader} {f : Feed UInt8} {rest : List UInt8} (h : Views r f)
    (t : HeadText) (hs : f.stream = t.render ++ rest) :
    ∃ r', Httpd.parse r headTable = .ok (t.head, r') ∧
      Views r' (f.skip r.size t.render.length) ∧ r'.size = r.size := by
  unfold HeadText.render at hs
  rw [List.append_assoc] at hs
  obtain ⟨r₁, hline, hv, hsize⟩ := h.nextLine t.start_printable hs
  have hstream := Feed.skip_append h.size h.live hs
  have hfuel : t.fields.length < r₁.left + 1 := by
    have := length_le_renderFields t.fields
    rw [hv.left, hstream, List.length_append]
    omega
  obtain ⟨r', hparse, hv', hsize'⟩ := hv.parseLines t.fields _ headTable_short hstream hfuel
  refine ⟨r', ?_, ?_, hsize'.trans hsize⟩
  · unfold Httpd.parse
    rw [hline]
    simp only [bind, Except.bind, hparse]
    rfl
  · unfold HeadText.render
    rw [List.length_append, Feed.skip_add]
    rw [hsize] at hv'
    exact hv'

/-- Every key of the table has the value of its last line. -/
theorem get_setFields (t : HeadText) (table : Table) (key : List UInt8) :
    (setFields t.fields table).get key =
      (table.get key).map fun value => (t.lookup key).getD value := by
  unfold setFields HeadText.lookup
  induction t.fields using List.reverseRecOn with
  | nil => simp
  | append_singleton fields h ih =>
      rw [List.foldl_append, List.foldl_cons, List.foldl_nil, Table.get_set, ih,
        List.reverse_append, List.reverse_singleton, List.singleton_append]
      by_cases hk : h.key = key
      · rw [if_pos hk, List.find?_cons_of_pos (by simpa using hk)]
        cases table.get key with
        | none => rfl
        | some v => rfl
      · rw [if_neg hk, List.find?_cons_of_neg (by simpa using hk)]

theorem HeadText.head_get (t : HeadText) {key : List UInt8} (h : headTable.get key = some []) :
    t.head.table.get key = some ((t.lookup key).getD []) := by
  rw [HeadText.head, get_setFields, h]
  rfl

/-! ### Tokens and numbers -/

/-- A word: no blank in it, and not empty. -/
structure Word where
  text : List UInt8
  ne_nil : text ≠ []
  printable : ∀ b ∈ text, Printable b
  no_space : ∀ b ∈ text, isspace b = false

/-- A text that passes the test of a word. -/
def Word.ofText (text : List UInt8)
    (h : text ≠ [] ∧ text.all (fun b => Printable b ∧ isspace b = false) = true) : Word where
  text := text
  ne_nil := h.1
  printable := fun b hb => (forall_of_all h.2 b hb).1
  no_space := fun b hb => (forall_of_all h.2 b hb).2

theorem nextToken_space (l : List UInt8) : nextToken (32 :: l) = nextToken l := by
  unfold nextToken
  rw [List.dropWhile_cons_of_pos (by decide)]

theorem nextToken_word (w : Word) {l : List UInt8} (hl : ∀ b ∈ l.head?, isspace b) :
    nextToken (w.text ++ l) = (w.text, l) := by
  obtain ⟨hfirst, hrest⟩ := Words.first_append w.ne_nil w.no_space hl
  exact Prod.ext hfirst hrest

theorem ne_of_toNat_lt {b c : UInt8} (h : c.toNat < b.toNat) : b ≠ c := by
  rintro rfl
  omega

theorem printable_of_toNat {b : UInt8} (h1 : 32 ≤ b.toNat) (h2 : b.toNat ≤ 126) : Printable b := by
  refine ⟨?_, ne_of_toNat_lt (Nat.lt_of_lt_of_le (by decide) h1),
    ne_of_toNat_lt (Nat.lt_of_lt_of_le (by decide) h1),
    ne_of_toNat_lt (Nat.lt_of_lt_of_le (by decide) h1)⟩
  exact UInt8.lt_iff_toNat_lt.mpr (Nat.lt_of_le_of_lt h2 (by decide))

theorem isspace_of_toNat {b : UInt8} (h : 33 ≤ b.toNat) : isspace b = false := by
  have h32 : b ≠ 32 := ne_of_toNat_lt (Nat.lt_of_lt_of_le (by decide) h)
  have h13 : ¬ b ≤ 13 := fun hle => by
    have : b.toNat ≤ 13 := hle
    omega
  simp [isspace, h32, h13]

/-- A number in decimal, below `2^63`. -/
structure Digits where
  text : List UInt8
  ne_nil : text ≠ []
  digit : ∀ b ∈ text, isdigit b
  lt : decimal text < 2 ^ 63

namespace Digits

def ofText (text : List UInt8)
    (h : text ≠ [] ∧ text.all isdigit = true ∧ decimal text < 2 ^ 63) : Digits where
  text := text
  ne_nil := h.1
  digit := List.all_eq_true.mp h.2.1
  lt := h.2.2

def val (d : Digits) : Nat := decimal d.text

theorem printable_of_digit {b : UInt8} (h : isdigit b) :
    Printable b ∧ isspace b = false ∧ b ≠ 45 ∧ b ≠ 43 ∧ b ≠ 32 := by
  have hb : 48 ≤ b ∧ b ≤ 57 := by simpa [isdigit] using h
  have h1 : 48 ≤ b.toNat := hb.1
  have h2 : b.toNat ≤ 57 := hb.2
  have hne : ∀ c : UInt8, c.toNat < 48 → b ≠ c :=
    fun c hc => ne_of_toNat_lt (Nat.lt_of_lt_of_le hc h1)
  exact ⟨printable_of_toNat (by omega) (by omega), isspace_of_toNat (by omega), hne _ (by decide),
    hne _ (by decide), hne _ (by decide)⟩

theorem printable (d : Digits) : ∀ b ∈ d.text, Printable b :=
  fun b hb => (printable_of_digit (d.digit b hb)).1

/-- `atol` reads a number back. -/
theorem atol_text (d : Digits) : toSize (atol (cstring d.text)) = d.val := by
  have hlt := d.lt
  rw [cstring_eq d.printable]
  have htake : d.text.takeWhile isdigit = d.text := List.takeWhile_eq_self_iff.mpr d.digit
  cases hd : d.text with
  | nil => exact absurd hd d.ne_nil
  | cons b text =>
      have hb := (printable_of_digit (d.digit b (by rw [hd]; exact List.mem_cons_self))).2
      have hdrop : (b :: text).dropWhile isspace = b :: text :=
        List.dropWhile_cons_of_neg (by simp [hb.1])
      rw [hd] at htake
      unfold atol
      simp only [hdrop, List.head?_cons, Option.some.injEq, hb.2.1, hb.2.2.1, or_self, if_false,
        htake]
      rw [← hd]
      unfold toSize val
      rw [Int.min_eq_left (by omega), Int.emod_eq_of_lt (by omega) (by omega), Int.toNat_natCast]

end Digits

end LinuxUtil.Httpd
