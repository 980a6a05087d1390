/-
The lines of a record.

`parseField` looks at the beginning of a line only, and then uses positions behind it that
it has not checked.  For `Package:` and `Filename:` this is one character too far if
nothing follows the colon, and for `MD5sum:` all of the 32 digits may be missing.
`parseField_outcome` lists what can happen on a line.

`AptParse` skips empty lines and applies `parseField` to the lines up to the next empty
one (`aptParse_eq`).  So whether it stays inside its lines is decided by the first stanza
alone, up to a line that aborts (`aptParse_inRange_iff`).
-/
import LinuxUtil.Apt.Lists
import LinuxUtil.Proofs.Apt.Stacks

namespace LinuxUtil.Apt

open Httpd (cstring)

/-! ### Fields -/

/-- The fields the parser knows. -/
inductive Field
  | package
  | size
  | depends
  | filename
  | preDepends
  | md5sum
  deriving DecidableEq, Repr

namespace Field

def key : Field → List UInt8
  | package => ascii "Package:"
  | size => ascii "Size:"
  | depends => ascii "Depends:"
  | filename => ascii "Filename:"
  | preDepends => ascii "Pre-Depends:"
  | md5sum => ascii "MD5sum:"

/-- The last position the parser uses in a line with this field, if it is not stopped by a NUL. -/
def reach : Field → Nat
  | package => 9
  | size => 5
  | depends => 8
  | filename => 10
  | preDepends => 12
  | md5sum => 39

/-- What the parser does with such a line. -/
def apply (line : List UInt8) (name : Name) (detail : PackageDetail) :
    Field → Except Fault (Name × PackageDetail)
  | package => (substr line 9).map fun value => (value, detail)
  | size => .ok (name, { detail with size := Httpd.toSize (Httpd.atol (cstring (line.drop 5))) })
  | depends => (ParseDep (cstring (line.drop 8))).map fun dep => (name, { detail with deps := dep })
  | filename => (substr line 10).map fun value => (name, { detail with filename := value })
  | preDepends =>
      (ParseDep (cstring (line.drop 12))).map fun dep => (name, { detail with pre_deps := dep })
  | md5sum => (readMd5sum line).map fun value => (name, { detail with md5sum := value })

end Field

/-- No key begins with another one. -/
theorem keys_apart (f g : Field) (h : f.key <+: g.key) : f = g := by
  revert h
  cases f <;> cases g <;> decide

theorem startswith_iff {key line : List UInt8} : startswith key line = true ↔ key <+: line := by
  unfold startswith
  exact List.isPrefixOf_iff_prefix

theorem key_unique {f g : Field} {line : List UInt8} (hf : startswith f.key line = true)
    (hg : startswith g.key line = true) : f = g := by
  rw [startswith_iff] at hf hg
  rcases List.prefix_or_prefix_of_prefix hf hg with h | h
  · exact keys_apart f g h
  · exact (keys_apart g f h).symm

/-- A line has one field. -/
theorem startswith_key {f : Field} {line : List UInt8} (hf : startswith f.key line = true)
    (g : Field) : startswith g.key line = decide (g = f) := by
  by_cases h : g = f
  · simp [h, hf]
  · simpa [h] using fun hg => h (key_unique hg hf)

/-- `parseField` looks for the fields in this order. -/
theorem parseField_eq (line : List UInt8) (name : Name) (detail : PackageDetail) :
    parseField line name detail =
      if startswith Field.package.key line then Field.package.apply line name detail
      else if startswith Field.size.key line then Field.size.apply line name detail
      else if startswith Field.depends.key line then Field.depends.apply line name detail
      else if startswith Field.filename.key line then Field.filename.apply line name detail
      else if startswith Field.preDepends.key line then Field.preDepends.apply line name detail
      else if startswith Field.md5sum.key line then Field.md5sum.apply line name detail
      else .ok (name, detail) := rfl

theorem parseField_field {f : Field} {line : List UInt8} (h : startswith f.key line = true)
    (name : Name) (detail : PackageDetail) :
    parseField line name detail = f.apply line name detail := by
  rw [parseField_eq]
  cases f <;> simp [startswith_key h]

theorem parseField_other {line : List UInt8} (h : ∀ f : Field, startswith f.key line = false)
    (name : Name) (detail : PackageDetail) : parseField line name detail = .ok (name, detail) := by
  simp [parseField_eq, h]

/-! ### Dependency lines -/

/-- The only assertion that can fail is that of `pop_value`. -/
def Asserts {α : Type} (r : Except Fault α) : Prop :=
  ∀ e, r = .error e → e = .assertion "!values.empty()"

theorem Asserts.bind {α β : Type} {r : Except Fault α} {k : α → Except Fault β} (hr : Asserts r)
    (hk : ∀ a, Asserts (k a)) : Asserts (r.bind k) := by
  intro e he
  cases r with
  | error e' => exact hr e (congrArg Except.error (Except.error.inj he))
  | ok a => exact hk a e he

theorem asserts_ok {α : Type} (a : α) : Asserts (.ok a) := fun _ he => nomatch he

theorem popValue_asserts (values : List ExprNode) : Asserts (popValue values) := by
  intro e he
  cases values with
  | nil => exact (Except.error.inj he).symm
  | cons v values => cases he

theorem reduce_asserts (pred : Nat) :
    ∀ (ops : List Op) (values : List ExprNode), Asserts (reduce pred ops values) := by
  intro ops
  induction ops with
  | nil => intro values; exact asserts_ok _
  | cons op ops ih =>
      intro values
      unfold reduce
      split
      · exact asserts_ok _
      · refine (popValue_asserts values).bind fun st => ?_
        exact (popValue_asserts st.2).bind fun st' => ih _

theorem parseTokens_asserts :
    ∀ (tokens : List Name) (ops : List Op) (values : List ExprNode),
      Asserts (parseTokens tokens ops values) := by
  intro tokens
  induction tokens with
  | nil => intro ops values; exact asserts_ok _
  | cons token tokens ih =>
      intro ops values
      cases hk : Op.ofToken token with
      | some op =>
          rw [parseTokens_operator hk]
          exact (reduce_asserts op.precedence ops values).bind fun st => ih _ _
      | none =>
          rw [parseTokens.eq_def]
          simp only [hk]
          cases ops with
          | nil => exact ih _ _
          | cons op ops => exact (popValue_asserts values).bind fun st => ih _ _

theorem parseDep_asserts (depstr : List UInt8) : Asserts (ParseDep depstr) :=
  (parseTokens_asserts _ _ _).bind fun values => asserts_ok values.head?

/-! ### The MD5 sum -/

theorem mapM_ok {α β : Type} {f : α → Except Fault β} {g : α → β} :
    ∀ l : List α, (∀ a ∈ l, f a = .ok (g a)) → l.mapM f = .ok (l.map g) := by
  intro l
  induction l with
  | nil => intro _; rfl
  | cons a l ih =>
      intro h
      rw [List.mapM_cons, h a List.mem_cons_self, ih fun b hb => h b (List.mem_cons_of_mem a hb)]
      rfl

theorem mapM_error {α β : Type} {f : α → Except Fault β} {e : Fault} :
    ∀ l : List α, (∀ a ∈ l, f a = .error e ∨ ∃ b, f a = .ok b) → (∃ a ∈ l, f a = .error e) →
      l.mapM f = .error e := by
  intro l
  induction l with
  | nil =>
      rintro _ ⟨a, ha, _⟩
      cases ha
  | cons a l ih =>
      rintro h ⟨x, hx, hfx⟩
      rw [List.mapM_cons]
      rcases h a List.mem_cons_self with hfa | ⟨b, hfa⟩
      · rw [hfa]
        rfl
      · have hxl : x ∈ l := by
          rcases List.mem_cons.mp hx with rfl | hxl
          · rw [hfa] at hfx
            cases hfx
          · exact hxl
        rw [hfa, ih (fun b hb => h b (List.mem_cons_of_mem a hb)) ⟨x, hxl, hfx⟩]
        rfl

/-- The bytes of an MD5 sum, where the line is long enough. -/
def md5sumOf (line : List UInt8) : List UInt8 :=
  (List.range 16).map fun i => strtoul [line.getD (8 + i * 2) 0, line.getD (8 + (i * 2 + 1)) 0]

theorem readMd5sum_eq (line : List UInt8) :
    readMd5sum line = if 39 ≤ line.length then .ok (md5sumOf line) else .error .outOfBounds := by
  have hbyte : ∀ i, (8 + (i * 2 + 1) ≤ line.length →
      (do let high ← charAt line (8 + i * 2)
          let low ← charAt line (8 + (i * 2 + 1))
          return strtoul [high, low] : Except Fault UInt8)
        = .ok (strtoul [line.getD (8 + i * 2) 0, line.getD (8 + (i * 2 + 1)) 0]))
      ∧ (¬ 8 + (i * 2 + 1) ≤ line.length →
      (do let high ← charAt line (8 + i * 2)
          let low ← charAt line (8 + (i * 2 + 1))
          return strtoul [high, low] : Except Fault UInt8) = .error .outOfBounds) := by
    intro i
    unfold charAt
    refine ⟨fun hle => ?_, fun hle => ?_⟩
    · rw [if_pos hle, if_pos (by omega)]
      rfl
    · rw [if_neg hle]
      split
      · rfl
      · rfl
  unfold readMd5sum
  split
  · next hle =>
      refine mapM_ok _ fun i hi => (hbyte i).1 ?_
      have := List.mem_range.mp hi
      omega
  · next hle =>
      refine mapM_error _ (fun i _ => ?_) ⟨15, by decide, (hbyte 15).2 (by omega)⟩
      by_cases h : 8 + (i * 2 + 1) ≤ line.length
      · exact .inr ⟨_, (hbyte i).1 h⟩
      · exact .inl ((hbyte i).2 h)

/-! ### What can happen on a line -/

/-- The line is as long as the parser takes it to be. -/
def InRange (line : List UInt8) : Prop :=
  ∀ f : Field, startswith f.key line = true → f.reach ≤ line.length

/-- The text behind the key, as a C string. -/
def fieldText (f : Field) (line : List UInt8) : List UInt8 := cstring (line.drop f.key.length)

/-- The line has dependencies that `ParseDep` cannot digest. -/
def Aborts (line : List UInt8) : Prop :=
  ∃ f : Field, (f = .depends ∨ f = .preDepends) ∧ startswith f.key line = true
    ∧ ¬ Digestible (scan (fieldText f line).length (fieldText f line))

theorem substr_map {β : Type} (line : List UInt8) (pos : Nat) (k : Name → β) :
    (pos ≤ line.length → (substr line pos).map k = .ok (k (line.drop pos)))
    ∧ (¬ pos ≤ line.length → (substr line pos).map k = .error .outOfBounds) := by
  unfold substr
  refine ⟨fun h => ?_, fun h => ?_⟩
  · rw [if_pos h]
    rfl
  · rw [if_neg h]
    rfl

theorem readMd5sum_map {β : Type} (line : List UInt8) (k : List UInt8 → β) :
    (39 ≤ line.length → (readMd5sum line).map k = .ok (k (md5sumOf line)))
    ∧ (¬ 39 ≤ line.length → (readMd5sum line).map k = .error .outOfBounds) := by
  rw [readMd5sum_eq]
  refine ⟨fun h => ?_, fun h => ?_⟩
  · rw [if_pos h]
    rfl
  · rw [if_neg h]
    rfl

theorem parseDep_map {β : Type} (depstr : List UInt8) (k : Option ExprNode → β) :
    (Digestible (scan depstr.length depstr) → ∃ r, (ParseDep depstr).map k = .ok r)
    ∧ (¬ Digestible (scan depstr.length depstr) →
      (ParseDep depstr).map k = .error (.assertion "!values.empty()")) := by
  rw [← parseDep_digestible]
  have hassert := parseDep_asserts depstr
  cases hp : ParseDep depstr with
  | ok tree => exact ⟨fun _ => ⟨k tree, rfl⟩, fun hn => absurd ⟨tree, rfl⟩ hn⟩
  | error e =>
      rw [hassert e hp]
      refine ⟨?_, fun _ => rfl⟩
      rintro ⟨tree, htree⟩
      cases htree

/-- What the parser does with a field ends in one of three ways. -/
def Outcome (inRange aborts : Prop) (r : Except Fault (Name × PackageDetail)) : Prop :=
  (inRange ∧ ¬ aborts ∧ ∃ st, r = .ok st)
    ∨ (inRange ∧ aborts ∧ r = .error (.assertion "!values.empty()"))
    ∨ (¬ inRange ∧ r = .error .outOfBounds)

/-- `substr` and `readMd5sum` cannot abort. -/
theorem outcome_read {n : Nat} {line : List UInt8} {aborts : Prop}
    {r : Except Fault (Name × PackageDetail)} (hab : ¬ aborts)
    (hok : n ≤ line.length → ∃ st, r = .ok st) (hno : ¬ n ≤ line.length → r = .error .outOfBounds) :
    Outcome (n ≤ line.length) aborts r := by
  by_cases h : n ≤ line.length
  · exact .inl ⟨h, hab, hok h⟩
  · exact .inr (.inr ⟨h, hno h⟩)

/-- `ParseDep` stays inside the line. -/
theorem outcome_parseDep {inRange aborts : Prop} {depstr : List UInt8}
    {k : Option ExprNode → Name × PackageDetail} (hrange : inRange)
    (hab : aborts ↔ ¬ Digestible (scan depstr.length depstr)) :
    Outcome inRange aborts ((ParseDep depstr).map k) := by
  by_cases h : Digestible (scan depstr.length depstr)
  · exact .inl ⟨hrange, fun ha => hab.mp ha h, (parseDep_map depstr k).1 h⟩
  · exact .inr (.inl ⟨hrange, hab.mpr h, (parseDep_map depstr k).2 h⟩)

theorem apply_outcome (f : Field) {line : List UInt8} (hlen : f.key.length ≤ line.length)
    (name : Name) (detail : PackageDetail) :
    Outcome (f.reach ≤ line.length) ((f = .depends ∨ f = .preDepends)
        ∧ ¬ Digestible (scan (fieldText f line).length (fieldText f line)))
      (f.apply line name detail) := by
  cases f with
  | package =>
      exact outcome_read (by simp) (fun h => ⟨_, (substr_map line 9 _).1 h⟩) (substr_map line 9 _).2
  | size => exact .inl ⟨hlen, by simp, _, rfl⟩
  | depends => exact outcome_parseDep hlen (and_iff_right (.inl rfl))
  | filename =>
      exact outcome_read (by simp) (fun h => ⟨_, (substr_map line 10 _).1 h⟩) (substr_map line 10 _).2
  | preDepends => exact outcome_parseDep hlen (and_iff_right (.inr rfl))
  | md5sum =>
      exact outcome_read (by simp) (fun h => ⟨_, (readMd5sum_map line _).1 h⟩)
        (readMd5sum_map line _).2

/-- **One line**: it is parsed, or `ParseDep` aborts, or the parser leaves the line. -/
theorem parseField_outcome (line : List UInt8) (name : Name) (detail : PackageDetail) :
    Outcome (InRange line) (Aborts line) (parseField line name detail) := by
  by_cases hf : ∃ f : Field, startswith f.key line = true
  · obtain ⟨f, hf⟩ := hf
    have hrange : InRange line ↔ f.reach ≤ line.length :=
      ⟨fun h => h f hf, fun h g hg => by rwa [key_unique hg hf]⟩
    have habort : Aborts line ↔ (f = .depends ∨ f = .preDepends)
        ∧ ¬ Digestible (scan (fieldText f line).length (fieldText f line)) := by
      refine ⟨?_, fun h => ⟨f, h.1, hf, h.2⟩⟩
      rintro ⟨g, hdep, hg, hnot⟩
      obtain rfl := key_unique hg hf
      exact ⟨hdep, hnot⟩
    rw [parseField_field hf, hrange, habort]
    exact apply_outcome f (startswith_iff.mp hf).length_le name detail
  · rw [not_exists] at hf
    refine .inl ⟨fun f h => absurd h (hf f), ?_, ?_⟩
    · rintro ⟨f, _, h, _⟩
      exact hf f h
    · exact ⟨_, parseField_other (fun f => by simpa using hf f) name detail⟩

/-! ### Stanzas -/

/-- The lines of the first record: those between empty lines. -/
def firstStanza (lines : Ifstream) : Ifstream :=
  (lines.dropWhile (· = [])).takeWhile (· ≠ [])

/-- What is behind the first record and the empty line that ends it. -/
def afterStanza (lines : Ifstream) : Ifstream :=
  ((lines.dropWhile (· = [])).dropWhile (· ≠ [])).drop 1

/-- The lines of a record, one after the other. -/
def parseFields (stanza : Ifstream) (st : Name × PackageDetail) :
    Except Fault (Name × PackageDetail) :=
  stanza.foldlM (fun st line => parseField line st.1 st.2) st

theorem parseFields_cons (line : List UInt8) (stanza : Ifstream) (st : Name × PackageDetail) :
    parseFields (line :: stanza) st
      = (parseField line st.1 st.2).bind fun st => parseFields stanza st := by
  unfold parseFields
  rw [List.foldlM_cons]
  rfl

/-- Once it has begun, the loop goes on to the next empty line. -/
theorem recordLoop_begun :
    ∀ (lines : Ifstream) (name : Name) (detail : PackageDetail),
      recordLoop lines true name detail
        = (parseFields (lines.takeWhile (· ≠ [])) (name, detail)).map fun st =>
          (st, (lines.dropWhile (· ≠ [])).drop 1) := by
  intro lines
  induction lines with
  | nil => intro name detail; rfl
  | cons line lines ih =>
      intro name detail
      unfold recordLoop
      by_cases hl : line = []
      · rw [if_pos hl]
        simp [hl, parseFields]
        rfl
      · rw [if_neg hl, List.takeWhile_cons_of_pos (by simpa using hl),
          List.dropWhile_cons_of_pos (by simpa using hl), parseFields_cons]
        cases parseField line name detail with
        | error e => rfl
        | ok st => exact ih st.1 st.2

/-- **`AptParse` applies `parseField` to the lines of the first stanza.** -/
theorem aptParse_eq (lines : Ifstream) :
    AptParse lines
      = (parseFields (firstStanza lines) ([], {})).map fun st => (st, afterStanza lines) := by
  unfold AptParse firstStanza afterStanza
  induction lines with
  | nil => rfl
  | cons line lines ih =>
      unfold recordLoop
      by_cases hl : line = []
      · rw [if_pos hl, List.dropWhile_cons_of_pos (by simpa using hl)]
        exact ih
      · rw [if_neg hl, List.dropWhile_cons_of_neg (by simpa using hl),
          List.takeWhile_cons_of_pos (by simpa using hl),
          List.dropWhile_cons_of_pos (by simpa using hl), parseFields_cons]
        cases parseField line [] {} with
        | error e => rfl
        | ok st => exact recordLoop_begun lines st.1 st.2

/-! ### Records stay in range -/

/-- Every line up to the first that aborts is long enough. -/
def ReadsInRange (stanza : Ifstream) : Prop :=
  ∀ before line rest, stanza = before ++ line :: rest → (∀ l ∈ before, ¬ Aborts l) → InRange line

theorem readsInRange_cons (line : List UInt8) (stanza : Ifstream) :
    ReadsInRange (line :: stanza) ↔ InRange line ∧ (¬ Aborts line → ReadsInRange stanza) := by
  refine ⟨fun h => ⟨?_, ?_⟩, ?_⟩
  · exact h [] line stanza rfl fun l hl => nomatch hl
  · intro hab before l rest heq hbefore
    refine h (line :: before) l rest (by rw [heq]; rfl) ?_
    intro l' hl'
    rcases List.mem_cons.mp hl' with rfl | hl'
    · exact hab
    · exact hbefore l' hl'
  · rintro ⟨hline, hrest⟩ before l rest heq hbefore
    cases before with
    | nil =>
        obtain ⟨rfl, -⟩ := List.cons.inj heq
        exact hline
    | cons b before =>
        obtain ⟨rfl, htail⟩ := List.cons.inj heq
        exact hrest (hbefore line List.mem_cons_self) before l rest htail
          fun l' hl' => hbefore l' (List.mem_cons_of_mem line hl')

theorem parseFields_inRange :
    ∀ (stanza : Ifstream) (st : Name × PackageDetail),
      parseFields stanza st ≠ .error .outOfBounds ↔ ReadsInRange stanza := by
  intro stanza
  induction stanza with
  | nil =>
      intro st
      refine ⟨fun _ before line rest h => by simp at h, fun _ h => ?_⟩
      cases h
  | cons line stanza ih =>
      intro st
      rw [readsInRange_cons, parseFields_cons]
      rcases parseField_outcome line st.1 st.2 with ⟨hr, hab, st', heq⟩ | ⟨hr, hab, heq⟩ | ⟨hr, heq⟩
      · rw [heq]
        exact (ih st').trans ⟨fun h => ⟨hr, fun _ => h⟩, fun h => h.2 hab⟩
      · rw [heq]
        exact ⟨fun _ => ⟨hr, fun hn => absurd hab hn⟩, fun _ h => nomatch h⟩
      · rw [heq]
        exact ⟨fun h => absurd rfl h, fun h => absurd h.1 hr⟩

/-- **`AptParse` stays inside its lines exactly if those of the first stanza, up to one that aborts,
are long enough.** -/
theorem aptParse_inRange_iff (lines : Ifstream) :
    AptParse lines ≠ .error .outOfBounds ↔ ReadsInRange (firstStanza lines) := by
  rw [aptParse_eq, ← parseFields_inRange (firstStanza lines) ([], {})]
  cases parseFields (firstStanza lines) ([], {}) with
  | error e =>
      have herr : ∀ e' : Fault, (Except.error e : Except Fault (Name × PackageDetail)) = .error e'
          ↔ (Except.error e : Except Fault ((Name × PackageDetail) × Ifstream)) = .error e' := by
        intro e'
        rw [Except.error.injEq, Except.error.injEq]
      exact not_congr (herr .outOfBounds).symm
  | ok st =>
      refine ⟨fun _ h => ?_, fun _ h => ?_⟩
      · cases h
      · cases h

/-- A field without a value. -/
theorem aptParse_leaves_line :
    AptParse [ascii "Package:"] = .error .outOfBounds
    ∧ AptParse [ascii "MD5sum:"] = .error .outOfBounds
    ∧ ¬ ∀ lines : Ifstream, (∀ line ∈ lines, 0 ∉ line) → AptParse lines ≠ .error .outOfBounds := by
  have hpackage : AptParse [ascii "Package:"] = .error .outOfBounds := by decide
  refine ⟨hpackage, by decide, fun h => ?_⟩
  exact h [ascii "Package:"] (by decide) hpackage

end LinuxUtil.Apt
