/-
What `ParseDep` makes of a dependency string.

`DepText` is a dependency string of the usual form: groups of alternatives, the groups
separated by commas and the alternatives by bars, with a version in parentheses after
any name and blanks in between.  The scanner finds the names and the operators
(`scan_depText`).  The parser has an operator stack, but every value that follows an
operator is combined with it at once, so the stack never holds more than one: the tree
leans to the left, whatever the operators are (`parseDep_eq`).
-/
import LinuxUtil.Apt.Expr
import LinuxUtil.Lib.Words

namespace LinuxUtil.Apt

/-! ### Dependency strings -/

/-- A run of blanks. -/
def Blanks (s : List UInt8) : Prop := ∀ ch ∈ s, isblank ch = true

/-- A package name: the scanner can tell it from everything else. -/
structure PackageName where
  bytes : Name
  nonempty : bytes ≠ []
  plain : ∀ ch ∈ bytes, simple ch = true
  noParen : bytes.head? ≠ some 40
  noBar : bytes ≠ [124]

/-- A version in parentheses, and the blanks in front of it. -/
structure VersionText where
  gap : List UInt8
  text : List UInt8
  gap_ne : gap ≠ []
  gap_blank : Blanks gap
  noClose : 41 ∉ text

/-- One alternative, with blanks around it. -/
structure AltText where
  lead : List UInt8
  name : PackageName
  version : Option VersionText
  trail : List UInt8
  lead_blank : Blanks lead
  trail_blank : Blanks trail

structure GroupText where
  first : AltText
  rest : List AltText

structure DepText where
  first : GroupText
  rest : List GroupText

def VersionText.render (v : VersionText) : List UInt8 := v.gap ++ 40 :: (v.text ++ [41])

def AltText.render (a : AltText) : List UInt8 :=
  a.lead ++ (a.name.bytes ++ ((a.version.map VersionText.render).getD [] ++ a.trail))

/-- Alternatives are separated by ` | `. -/
def GroupText.render (g : GroupText) : List UInt8 :=
  g.first.render ++ g.rest.flatMap fun a => [32, 124, 32] ++ a.render

def DepText.render (d : DepText) : List UInt8 :=
  d.first.render ++ d.rest.flatMap fun g => 44 :: g.render

/-- The operators and names behind the first name. -/
def GroupText.pairs (g : GroupText) : List (Op × Name) := g.rest.map fun a => (.bar, a.name.bytes)

def DepText.pairs (d : DepText) : List (Op × Name) :=
  d.first.pairs ++ d.rest.flatMap fun g => (.comma, g.first.name.bytes) :: g.pairs

/-! ### The scanner -/

/-- The scanner makes the tokens `ts` of `s`. -/
def Scans (s : List UInt8) (ts : List Name) : Prop := ∀ n, s.length ≤ n → scan n s = ts

/-- A simple token ends here. -/
def Stops (s : List UInt8) : Prop := ∀ ch ∈ s.head?, simple ch = false

theorem scans_nil : Scans [] [] := by
  intro n _
  cases n with
  | zero => rfl
  | succ n => rfl

theorem scans_blanks {b s : List UInt8} {ts : List Name} (hb : Blanks b) (h : Scans s ts) :
    Scans (b ++ s) ts := by
  induction b with
  | nil => exact h
  | cons ch b ih =>
      intro n hn
      cases n with
      | zero => simp at hn
      | succ n =>
          have hch := hb ch List.mem_cons_self
          rw [List.cons_append]
          unfold scan
          rw [if_pos hch]
          refine ih (fun c hc => hb c (List.mem_cons_of_mem ch hc)) n ?_
          simp only [List.cons_append, List.length_cons] at hn
          omega

theorem scans_comma {s : List UInt8} {ts : List Name} (h : Scans s ts) :
    Scans (44 :: s) ([44] :: ts) := by
  intro n hn
  cases n with
  | zero => simp at hn
  | succ n =>
      unfold scan
      rw [if_neg (by decide), if_pos rfl, h n (by simp only [List.length_cons] at hn; omega)]

theorem scans_paren {text s : List UInt8} {ts : List Name} (ht : 41 ∉ text) (h : Scans s ts) :
    Scans (40 :: (text ++ 41 :: s)) ts := by
  have hdrop : (text ++ 41 :: s).dropWhile (· ≠ 41) = 41 :: s := by
    rw [List.dropWhile_append_of_pos]
    · simp
    · intro ch hch
      simp only [decide_eq_true_eq]
      rintro rfl
      exact ht hch
  intro n hn
  cases n with
  | zero => simp at hn
  | succ n =>
      unfold scan
      rw [if_neg (by decide), if_neg (by decide), if_pos rfl, hdrop]
      refine h n ?_
      simp only [List.length_cons, List.length_append] at hn
      omega

/-- A run of plain characters is one token. -/
theorem scans_token {t s : List UInt8} {ts : List Name} (hne : t ≠ []) (ht : ∀ ch ∈ t, simple ch = true)
    (hp : t.head? ≠ some 40) (hs : Stops s) (h : Scans s ts) : Scans (t ++ s) (t :: ts) := by
  obtain ⟨htake, hdrop⟩ := Words.run_append ht hs
  cases t with
  | nil => exact absurd rfl hne
  | cons ch t =>
      intro n hn
      have hch := ht ch List.mem_cons_self
      unfold simple at hch
      simp only [Bool.and_eq_true, Bool.not_eq_true', bne_iff_ne] at hch
      have h40 : ch ≠ 40 := fun hc => hp (by rw [hc]; rfl)
      cases n with
      | zero => simp at hn
      | succ n =>
          rw [List.cons_append]
          unfold scan
          rw [if_neg (by simp [hch.1]), if_neg hch.2, if_neg h40, ← List.cons_append, htake, hdrop]
          rw [h n]
          simp only [List.cons_append, List.length_cons, List.length_append] at hn
          omega

theorem stops_blank {b s : List UInt8} (hne : b ≠ []) (hb : Blanks b) : Stops (b ++ s) := by
  cases b with
  | nil => exact absurd rfl hne
  | cons ch b =>
      intro c hc
      obtain rfl := Option.some.inj hc
      unfold simple
      rw [hb ch List.mem_cons_self]
      rfl

theorem stops_append {b s : List UInt8} (hb : Blanks b) (hs : Stops s) : Stops (b ++ s) := by
  by_cases hne : b = []
  · rw [hne]
    exact hs
  · exact stops_blank hne hb

theorem scans_alt (a : AltText) {s : List UInt8} {ts : List Name} (hs : Stops s) (h : Scans s ts) :
    Scans (a.render ++ s) (a.name.bytes :: ts) := by
  have htail := scans_blanks a.trail_blank h
  have hstop := stops_append a.trail_blank hs
  unfold AltText.render
  rw [List.append_assoc, List.append_assoc, List.append_assoc]
  refine scans_blanks a.lead_blank ?_
  cases hv : a.version with
  | none => exact scans_token a.name.nonempty a.name.plain a.name.noParen hstop htail
  | some v =>
      have heq : v.render ++ (a.trail ++ s) = v.gap ++ (40 :: (v.text ++ 41 :: (a.trail ++ s))) := by
        unfold VersionText.render
        rw [List.append_assoc, List.cons_append, List.append_assoc, List.singleton_append]
      show Scans (a.name.bytes ++ (v.render ++ (a.trail ++ s))) _
      rw [heq]
      refine scans_token a.name.nonempty a.name.plain a.name.noParen
        (stops_blank v.gap_ne v.gap_blank) ?_
      exact scans_blanks v.gap_blank (scans_paren v.noClose htail)

/-- The tokens of operators and names. -/
def pairTokens (pairs : List (Op × Name)) : List Name :=
  pairs.flatMap fun p => [match p.1 with | .comma => [44] | .bar => [124], p.2]

theorem pairTokens_append (ps qs : List (Op × Name)) :
    pairTokens (ps ++ qs) = pairTokens ps ++ pairTokens qs := by
  unfold pairTokens
  rw [List.flatMap_append]

/-- The alternatives behind the first one of a group. -/
theorem scans_bars :
    ∀ (rest : List AltText) {s : List UInt8} {ts : List Name}, Stops s → Scans s ts →
      Stops ((rest.flatMap fun a => [32, 124, 32] ++ a.render) ++ s)
      ∧ Scans ((rest.flatMap fun a => [32, 124, 32] ++ a.render) ++ s)
        (pairTokens (rest.map fun a => (.bar, a.name.bytes)) ++ ts) := by
  intro rest
  induction rest with
  | nil => intro s ts hs h; exact ⟨hs, h⟩
  | cons a rest ih =>
      intro s ts hs h
      obtain ⟨hs', h'⟩ := ih hs h
      have hblank : Blanks [32] := by
        intro ch hch
        rw [List.mem_singleton.mp hch]
        rfl
      have heq : ((a :: rest).flatMap fun a => [32, 124, 32] ++ a.render) ++ s
          = [32] ++ ([124] ++ ([32] ++ (a.render
              ++ ((rest.flatMap fun a => [32, 124, 32] ++ a.render) ++ s)))) := by
        simp [List.flatMap_cons]
      rw [heq]
      refine ⟨stops_blank (by decide) hblank, scans_blanks hblank ?_⟩
      exact scans_token (by decide) (List.all_eq_true.mp (by decide)) (by decide) (stops_blank (by decide) hblank)
        (scans_blanks hblank (scans_alt a hs' h'))

theorem scans_group (g : GroupText) {s : List UInt8} {ts : List Name} (hs : Stops s)
    (h : Scans s ts) : Scans (g.render ++ s) (g.first.name.bytes :: (pairTokens g.pairs ++ ts)) := by
  obtain ⟨hs', h'⟩ := scans_bars g.rest hs h
  unfold GroupText.render
  rw [List.append_assoc]
  exact scans_alt g.first hs' h'

theorem scans_commas :
    ∀ (rest : List GroupText),
      Stops (rest.flatMap fun g => 44 :: g.render)
      ∧ Scans (rest.flatMap fun g => 44 :: g.render)
        (pairTokens (rest.flatMap fun g => (.comma, g.first.name.bytes) :: g.pairs)) := by
  intro rest
  induction rest with
  | nil => exact ⟨(fun ch hch => nomatch hch), scans_nil⟩
  | cons g rest ih =>
      rw [List.flatMap_cons, List.flatMap_cons, List.cons_append, List.cons_append]
      refine ⟨?_, ?_⟩
      · intro ch hch
        obtain rfl := Option.some.inj hch
        rfl
      · have := scans_comma (scans_group g ih.1 ih.2)
        rwa [← pairTokens_append] at this

/-- **The scanner finds the names and the operators.** -/
theorem scan_depText (d : DepText) :
    scan d.render.length d.render = d.first.first.name.bytes :: pairTokens d.pairs := by
  obtain ⟨hs, h⟩ := scans_commas d.rest
  have := scans_group d.first hs h
  rw [← pairTokens_append] at this
  exact this _ (Nat.le_refl _)

/-! ### The parser -/

/-- The tree that leans to the left. -/
def leftTree (t : ExprNode) (pairs : List (Op × Name)) : ExprNode :=
  pairs.foldl (fun t p => .operator p.1 t (.value p.2)) t

theorem ofToken_op (op : Op) :
    Op.ofToken (match op with | .comma => [44] | .bar => [124]) = some op := by
  cases op with
  | comma => rfl
  | bar => rfl

/-- Between two values there is one operator on the stack, and before the next one none. -/
theorem parseTokens_pairs :
    ∀ (pairs : List (Op × Name)) (t : ExprNode), (∀ p ∈ pairs, Op.ofToken p.2 = none) →
      parseTokens (pairTokens pairs) [] [t] = .ok [leftTree t pairs] := by
  intro pairs
  induction pairs with
  | nil => intro t _; rfl
  | cons p pairs ih =>
      intro t hp
      have hname := hp p List.mem_cons_self
      have htokens : pairTokens (p :: pairs)
          = (match p.1 with | .comma => [44] | .bar => [124]) :: p.2 :: pairTokens pairs := rfl
      rw [htokens]
      unfold parseTokens
      simp only [ofToken_op]
      unfold parseTokens
      simp only [hname, popValue, bind, Except.bind]
      exact ih _ fun q hq => hp q (List.mem_cons_of_mem p hq)

theorem PackageName.ofToken (name : PackageName) : Op.ofToken name.bytes = none := by
  have hcomma : name.bytes ≠ [44] := by
    intro hc
    have := name.plain 44 (by rw [hc]; exact List.mem_cons_self)
    revert this
    decide
  unfold Op.ofToken
  rw [if_neg hcomma, if_neg name.noBar]

theorem DepText.pairs_names (d : DepText) : ∀ p ∈ d.pairs, Op.ofToken p.2 = none := by
  intro p hp
  have hgroup : ∀ g : GroupText, ∀ p ∈ g.pairs, Op.ofToken p.2 = none := by
    intro g p hp
    obtain ⟨a, _, rfl⟩ := List.mem_map.mp hp
    exact a.name.ofToken
  rcases List.mem_append.mp hp with hp | hp
  · exact hgroup d.first p hp
  · obtain ⟨g, _, hg⟩ := List.mem_flatMap.mp hp
    rcases List.mem_cons.mp hg with rfl | hg
    · exact g.first.name.ofToken
    · exact hgroup g p hg

/-- **`ParseDep` combines from left to right**, without regard to precedence. -/
theorem parseDep_eq (d : DepText) :
    ParseDep d.render = .ok (some (leftTree (.value d.first.first.name.bytes) d.pairs)) := by
  unfold ParseDep
  rw [scan_depText]
  unfold parseTokens
  simp only [d.first.first.name.ofToken]
  rw [parseTokens_pairs _ _ d.pairs_names]
  rfl

end LinuxUtil.Apt
