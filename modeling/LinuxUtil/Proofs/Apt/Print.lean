/-
Dependency trees and their text.

A string whose tokens are names with one operator between any two gives a tree that
holds all of them: read in order, the tree is the token list again.  Printed and parsed
once more it is the same tree (`parseDep_print`).  The scanner forgets blanks and
versions, so the printed text is not the string the tree came from; what carries the
argument is that the scanner finds in it the tokens it found there.
-/
import LinuxUtil.Proofs.Apt.Parse
import Mathlib.Data.List.TakeWhile

namespace LinuxUtil.Apt

/-! ### What the tokens are -/

/-- A token that is no operator. -/
def isValue (token : Name) : Bool := (Op.ofToken token).isNone

/-- Names, with one operator between any two of them. -/
def alternates : List Name → Bool
  | [] => false
  | [v] => isValue v
  | v :: op :: tokens => isValue v && !isValue op && alternates tokens

/-- The names in a tree, from left to right. -/
def ExprNode.values : ExprNode → List Name
  | .value package => [package]
  | .operator _ left right => left.values ++ right.values

def Op.token : Op → Name
  | .comma => [44]
  | .bar => [124]

/-- The operators of a tree, each between those of its left and its right side. -/
def ExprNode.operators : ExprNode → List Op
  | .value _ => []
  | .operator op left right => left.operators ++ op :: right.operators

/-- Names and operators together. -/
def ExprNode.inorder : ExprNode → List Name
  | .value package => [package]
  | .operator op left right => left.inorder ++ op.token :: right.inorder

theorem ofToken_token (op : Op) : Op.ofToken op.token = some op := by
  cases op with
  | comma => rfl
  | bar => rfl

theorem eq_token {token : Name} {op : Op} (h : Op.ofToken token = some op) : token = op.token := by
  unfold Op.ofToken at h
  split at h
  · next hcomma =>
      obtain rfl := Option.some.inj h
      exact hcomma
  · split at h
    · next hbar =>
        obtain rfl := Option.some.inj h
        exact hbar
    · cases h

theorem pairTokens_cons (p : Op × Name) (pairs : List (Op × Name)) :
    pairTokens (p :: pairs) = p.1.token :: p.2 :: pairTokens pairs := by
  obtain ⟨op, name⟩ := p
  cases op with
  | comma => rfl
  | bar => rfl

/-- Alternating tokens are a name and pairs of an operator and a name. -/
theorem alternates_pairs :
    ∀ tokens, alternates tokens = true →
      ∃ v pairs, tokens = v :: pairTokens pairs ∧ Op.ofToken v = none
        ∧ ∀ p ∈ pairs, Op.ofToken p.2 = none := by
  intro tokens
  induction tokens using alternates.induct with
  | case1 => intro h; cases h
  | case2 v =>
      intro h
      exact ⟨v, [], rfl, Option.isNone_iff_eq_none.mp h, fun p hp => nomatch hp⟩
  | case3 v token tokens ih =>
      intro h
      simp only [alternates, Bool.and_eq_true, Bool.not_eq_true'] at h
      obtain ⟨⟨hv, hop⟩, hrest⟩ := h
      obtain ⟨w, pairs, rfl, hw, hpairs⟩ := ih hrest
      obtain ⟨op, hof⟩ : ∃ op, Op.ofToken token = some op := by
        rw [← Option.isSome_iff_exists]
        simpa [isValue] using hop
      refine ⟨v, (op, w) :: pairs, ?_, Option.isNone_iff_eq_none.mp hv, ?_⟩
      · rw [pairTokens_cons, ← eq_token hof]
      · intro p hp
        rcases List.mem_cons.mp hp with rfl | hp
        · exact hw
        · exact hpairs p hp

/-! ### The scanner makes printable tokens -/

/-- What a simple token looks like. -/
structure Word (t : Name) : Prop where
  nonempty : t ≠ []
  plain : ∀ ch ∈ t, simple ch = true
  noParen : t.head? ≠ some 40

theorem scan_words :
    ∀ (n : Nat) (s : List UInt8), ∀ t ∈ scan n s, t = [44] ∨ Word t := by
  intro n
  induction n with
  | zero => intro s t ht; cases ht
  | succ n ih =>
      intro s t ht
      cases s with
      | nil => cases ht
      | cons ch s =>
          unfold scan at ht
          split at ht
          · exact ih _ t ht
          · next hblank =>
              split at ht
              · rcases List.mem_cons.mp ht with rfl | ht
                · exact .inl rfl
                · exact ih _ t ht
              · next hcomma =>
                  split at ht
                  · exact ih _ t ht
                  · next hparen =>
                      rcases List.mem_cons.mp ht with rfl | ht
                      · have hch : simple ch = true := by simp [simple, hblank, hcomma]
                        refine .inr ⟨?_, fun c hc => ?_, ?_⟩
                        · simp [hch]
                        · exact List.mem_takeWhile_imp hc
                        · simpa [List.takeWhile_cons, hch] using hparen
                      · exact ih _ t ht

theorem Word.of_value {t : Name} {n : Nat} {s : List UInt8} (ht : t ∈ scan n s)
    (hv : Op.ofToken t = none) : Word t := by
  rcases scan_words n s t ht with rfl | hw
  · cases hv
  · exact hw

/-! ### The printed text -/

/-- What `print` writes for an operator. -/
def Op.sep : Op → List UInt8
  | .comma => [44, 32]
  | .bar => [32, 124, 32]

theorem print_operator (op : Op) (left right : ExprNode) :
    (ExprNode.operator op left right).print = left.print ++ (op.sep ++ right.print) := by
  cases op with
  | comma => exact List.append_assoc _ _ _
  | bar => exact List.append_assoc _ _ _

theorem print_leftTree :
    ∀ (pairs : List (Op × Name)) (t : ExprNode),
      (leftTree t pairs).print = t.print ++ pairs.flatMap fun p => p.1.sep ++ p.2 := by
  intro pairs
  induction pairs with
  | nil => intro t; exact (List.append_nil _).symm
  | cons p pairs ih =>
      intro t
      have hstep : leftTree t (p :: pairs) = leftTree (.operator p.1 t (.value p.2)) pairs := rfl
      rw [hstep, ih, print_operator, List.flatMap_cons]
      simp only [ExprNode.print, List.append_assoc]

/-- The separator of an operator is scanned as its token. -/
theorem scans_sep (op : Op) {s : List UInt8} {ts : List Name} (h : Scans s ts) :
    Stops (op.sep ++ s) ∧ Scans (op.sep ++ s) (op.token :: ts) := by
  have hblank : Blanks [32] := by
    intro ch hch
    rw [List.mem_singleton.mp hch]
    rfl
  have hs := scans_blanks hblank h
  cases op with
  | comma =>
      refine ⟨?_, scans_comma hs⟩
      intro ch hch
      obtain rfl := Option.some.inj hch
      rfl
  | bar =>
      have hbar : Scans ([124] ++ ([32] ++ s)) ([124] :: ts) :=
        scans_token (by decide) (List.all_eq_true.mp (by decide)) (by decide)
          (stops_blank (by decide) hblank) hs
      show Stops ([32] ++ ([124] ++ ([32] ++ s))) ∧ Scans ([32] ++ ([124] ++ ([32] ++ s))) _
      exact ⟨stops_blank (by decide) hblank, scans_blanks hblank hbar⟩

theorem scans_pairs :
    ∀ pairs : List (Op × Name), (∀ p ∈ pairs, Word p.2) →
      Stops (pairs.flatMap fun p => p.1.sep ++ p.2)
      ∧ Scans (pairs.flatMap fun p => p.1.sep ++ p.2) (pairTokens pairs) := by
  intro pairs
  induction pairs with
  | nil => intro _; exact ⟨(fun ch hch => nomatch hch), scans_nil⟩
  | cons p pairs ih =>
      intro hp
      obtain ⟨hstop, hscan⟩ := ih fun q hq => hp q (List.mem_cons_of_mem p hq)
      have hword := hp p List.mem_cons_self
      rw [List.flatMap_cons, List.append_assoc, pairTokens_cons]
      exact scans_sep p.1 (scans_token hword.nonempty hword.plain hword.noParen hstop hscan)

/-! ### The tree read in order -/

theorem inorder_leftTree :
    ∀ (pairs : List (Op × Name)) (t : ExprNode),
      (leftTree t pairs).values = t.values ++ pairs.map (·.2)
      ∧ (leftTree t pairs).operators = t.operators ++ pairs.map (·.1)
      ∧ (leftTree t pairs).inorder = t.inorder ++ pairTokens pairs := by
  intro pairs
  induction pairs with
  | nil => intro t; simp [leftTree, pairTokens]
  | cons p pairs ih =>
      intro t
      have hstep : leftTree t (p :: pairs) = leftTree (.operator p.1 t (.value p.2)) pairs := rfl
      obtain ⟨hnames, hops, hin⟩ := ih (.operator p.1 t (.value p.2))
      rw [hstep, hnames, hops, hin, pairTokens_cons]
      simp [ExprNode.values, ExprNode.operators, ExprNode.inorder]

/-- The names and the operators among alternating tokens. -/
theorem filter_pairTokens :
    ∀ pairs : List (Op × Name), (∀ p ∈ pairs, Op.ofToken p.2 = none) →
      (pairTokens pairs).filter isValue = pairs.map (·.2)
      ∧ (pairTokens pairs).filterMap Op.ofToken = pairs.map (·.1) := by
  intro pairs
  induction pairs with
  | nil => intro _; exact ⟨rfl, rfl⟩
  | cons p pairs ih =>
      intro hp
      obtain ⟨hvalues, hops⟩ := ih fun q hq => hp q (List.mem_cons_of_mem p hq)
      have hname := hp p List.mem_cons_self
      rw [pairTokens_cons]
      simp [isValue, ofToken_token, hname, hops, ← hvalues]

/-! ### The main result -/

theorem parseDep_pairs {s : List UInt8} {v : Name} {pairs : List (Op × Name)}
    (hs : scan s.length s = v :: pairTokens pairs) (hv : Op.ofToken v = none)
    (hp : ∀ p ∈ pairs, Op.ofToken p.2 = none) :
    ParseDep s = .ok (some (leftTree (.value v) pairs)) := by
  unfold ParseDep
  rw [hs]
  unfold parseTokens
  simp only [hv]
  rw [parseTokens_pairs _ _ hp]
  rfl

/-- **`ParseDep` keeps every token of a well-formed string**, and printing its tree and parsing
again gives the same tree. -/
theorem parseDep_print (depstr : List UInt8)
    (h : alternates (scan depstr.length depstr) = true) :
    ∃ tree, ParseDep depstr = .ok (some tree)
      ∧ tree.values = (scan depstr.length depstr).filter isValue
      ∧ tree.operators = (scan depstr.length depstr).filterMap Op.ofToken
      ∧ tree.inorder = scan depstr.length depstr
      ∧ ParseDep tree.print = .ok (some tree) := by
  obtain ⟨v, pairs, htokens, hv, hp⟩ := alternates_pairs _ h
  obtain ⟨hnames, hops, hin⟩ := inorder_leftTree pairs (.value v)
  obtain ⟨hvalues, hopers⟩ := filter_pairTokens pairs hp
  have hword : ∀ t ∈ v :: pairTokens pairs, Op.ofToken t = none → Word t := by
    intro t ht hn
    rw [← htokens] at ht
    exact Word.of_value ht hn
  have hwv := hword v List.mem_cons_self hv
  have hwp : ∀ p ∈ pairs, Word p.2 := by
    intro p hmem
    refine hword p.2 (List.mem_cons_of_mem v ?_) (hp p hmem)
    exact List.mem_flatMap.mpr ⟨p, hmem, by simp⟩
  -- the printed text has the tokens of `depstr`
  obtain ⟨hstop, hscan⟩ := scans_pairs pairs hwp
  have hprint : (leftTree (.value v) pairs).print
      = v ++ pairs.flatMap fun p => p.1.sep ++ p.2 := print_leftTree pairs (.value v)
  have hagain : scan (leftTree (.value v) pairs).print.length (leftTree (.value v) pairs).print
      = v :: pairTokens pairs := by
    rw [hprint]
    exact scans_token hwv.nonempty hwv.plain hwv.noParen hstop hscan _ (Nat.le_refl _)
  refine ⟨_, parseDep_pairs htokens hv hp, ?_, ?_, ?_, parseDep_pairs hagain hv hp⟩
  · rw [hnames, htokens, List.filter_cons_of_pos (by simp [isValue, hv]), hvalues]
    rfl
  · rw [hops, htokens, List.filterMap_cons_none hv, hopers]
    rfl
  · rw [hin, htokens]
    rfl

/-- The string `foo (>= 1), bar|x | baz`: the bar inside `bar|x` belongs to the name. -/
theorem parseDep_print_versions :
    ∃ tree, ParseDep (ascii "foo (>= 1), bar|x | baz") = .ok (some tree)
      ∧ tree.values = [ascii "foo", ascii "bar|x", ascii "baz"]
      ∧ tree.operators = [.comma, .bar]
      ∧ ParseDep tree.print = .ok (some tree) := by
  obtain ⟨tree, hok, hnames, hops, _, hagain⟩ :=
    parseDep_print (ascii "foo (>= 1), bar|x | baz") (by decide)
  exact ⟨tree, hok, by rw [hnames]; decide, by rw [hops]; decide, hagain⟩

end LinuxUtil.Apt
