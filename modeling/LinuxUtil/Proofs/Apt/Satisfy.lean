/-
`satisfy` decides the dependency formula, and picks a model of it.

A tree is a formula over package names without negation, `ExprNode.Holds`.  `satisfy`
says whether it holds of the packages that exist; the names it inserts are packages that
exist, and when it says yes they already make the formula true by themselves.  It is not
so when it says no: a failing `,` keeps what its sides have inserted, a failing `|` does
not.
-/
import LinuxUtil.Proofs.Apt.Closure

namespace LinuxUtil.Apt

/-! ### The formula -/

/-- The formula of a tree, each name read as `holds`. -/
def ExprNode.Holds (holds : Name → Prop) : ExprNode → Prop
  | .value package => holds package
  | .operator .bar left right => left.Holds holds ∨ right.Holds holds
  | .operator .comma left right => left.Holds holds ∧ right.Holds holds

/-- The names at the leaves. -/
def ExprNode.leaves : ExprNode → Finset Name
  | .value package => {package}
  | .operator _ left right => left.leaves ∪ right.leaves

/-- Nothing is negated. -/
theorem ExprNode.Holds.mono {p q : Name → Prop} (hpq : ∀ name, p name → q name) {tree : ExprNode}
    (h : tree.Holds p) : tree.Holds q := by
  induction tree with
  | value package => exact hpq package h
  | operator op left right ihl ihr =>
      cases op with
      | bar => exact h.imp ihl ihr
      | comma => exact h.imp ihl ihr

/-! ### What `satisfy` returns -/

variable {exist : Name → Bool}

/-- The result of a `|`: the first side that can be satisfied gives the names. -/
theorem satisfy_bar (left right : ExprNode) (s : Finset Name) :
    (ExprNode.operator .bar left right).satisfy exist s
      = if (left.satisfy exist ∅).1 = 0 then (0, s ∪ left.inserts exist)
        else if (right.satisfy exist ∅).1 = 0 then (0, s ∪ right.inserts exist) else (1, s) := rfl

/-- The result of a `,`: both sides give their names, satisfied or not. -/
theorem satisfy_comma (left right : ExprNode) (s : Finset Name) :
    (ExprNode.operator .comma left right).satisfy exist s
      = ((left.satisfy exist ∅).1 ||| (right.satisfy exist ∅).1,
          s ∪ left.inserts exist ∪ right.inserts exist) := by
  show ((left.satisfy exist s).1 ||| (right.satisfy exist (left.satisfy exist s).2).1,
    (right.satisfy exist (left.satisfy exist s).2).2) = _
  rw [satisfy_eq left s, satisfy_eq right (s ∪ left.inserts exist)]

/-- A tree can be satisfied if its formula holds of the packages that exist. -/
theorem satisfy_zero_iff (tree : ExprNode) :
    (tree.satisfy exist ∅).1 = 0 ↔ tree.Holds fun name => exist name = true := by
  induction tree with
  | value package =>
      unfold ExprNode.satisfy ExprNode.Holds
      by_cases h : exist package
      · simp [h]
      · simp [h]
  | operator op left right ihl ihr =>
      cases op with
      | bar =>
          rw [satisfy_bar, ExprNode.Holds, ← ihl, ← ihr]
          by_cases hl : (left.satisfy exist ∅).1 = 0
          · simp [hl]
          · by_cases hr : (right.satisfy exist ∅).1 = 0
            · simp [hl, hr]
            · simp [hl, hr]
      | comma =>
          rw [satisfy_comma, ExprNode.Holds, ← ihl, ← ihr]
          exact Nat.or_eq_zero_iff

theorem inserts_bar_left {left : ExprNode} (right : ExprNode) (hl : (left.satisfy exist ∅).1 = 0) :
    (ExprNode.operator .bar left right).inserts exist = left.inserts exist := by
  unfold ExprNode.inserts
  rw [satisfy_bar, if_pos hl, Finset.empty_union]
  rfl

theorem inserts_bar_right {left right : ExprNode} (hl : (left.satisfy exist ∅).1 ≠ 0)
    (hr : (right.satisfy exist ∅).1 = 0) :
    (ExprNode.operator .bar left right).inserts exist = right.inserts exist := by
  unfold ExprNode.inserts
  rw [satisfy_bar, if_neg hl, if_pos hr, Finset.empty_union]
  rfl

theorem inserts_comma (left right : ExprNode) :
    (ExprNode.operator .comma left right).inserts exist
      = left.inserts exist ∪ right.inserts exist := by
  unfold ExprNode.inserts
  rw [satisfy_comma, Finset.empty_union]
  rfl

/-- Nothing is inserted by a `|` that fails. -/
theorem inserts_bar_failed {left right : ExprNode}
    (h : ((ExprNode.operator .bar left right).satisfy exist ∅).1 ≠ 0) :
    (ExprNode.operator .bar left right).inserts exist = ∅ := by
  rw [Ne, satisfy_zero_iff, ExprNode.Holds, not_or, ← satisfy_zero_iff, ← satisfy_zero_iff] at h
  unfold ExprNode.inserts
  rw [satisfy_bar, if_neg h.1, if_neg h.2]

/-! ### The names it picks -/

/-- A tree inserts names of its leaves. -/
theorem inserts_leaves (tree : ExprNode) : tree.inserts exist ⊆ tree.leaves := by
  induction tree with
  | value package =>
      unfold ExprNode.inserts ExprNode.satisfy ExprNode.leaves
      by_cases h : exist package
      · simp [h]
      · simp [h]
  | operator op left right ihl ihr =>
      unfold ExprNode.leaves
      cases op with
      | bar =>
          by_cases hl : (left.satisfy exist ∅).1 = 0
          · rw [inserts_bar_left right hl]
            exact ihl.trans Finset.subset_union_left
          · by_cases hr : (right.satisfy exist ∅).1 = 0
            · rw [inserts_bar_right hl hr]
              exact ihr.trans Finset.subset_union_right
            · rw [inserts_bar_failed]
              · exact Finset.empty_subset _
              · rw [satisfy_bar, if_neg hl, if_neg hr]
                exact Nat.one_ne_zero
      | comma =>
          rw [inserts_comma]
          exact Finset.union_subset_union ihl ihr

/-- The names a satisfied tree inserts satisfy it. -/
theorem inserts_model (tree : ExprNode) (h : (tree.satisfy exist ∅).1 = 0) :
    tree.Holds fun name => name ∈ tree.inserts exist := by
  induction tree with
  | value package =>
      have hexist : exist package = true := (satisfy_zero_iff (.value package)).mp h
      unfold ExprNode.Holds ExprNode.inserts ExprNode.satisfy
      simp [hexist]
  | operator op left right ihl ihr =>
      cases op with
      | bar =>
          by_cases hl : (left.satisfy exist ∅).1 = 0
          · rw [inserts_bar_left right hl]
            exact Or.inl (ihl hl)
          · have hr : (right.satisfy exist ∅).1 = 0 := by
              rw [satisfy_zero_iff] at h hl ⊢
              exact h.resolve_left hl
            rw [inserts_bar_right hl hr]
            exact Or.inr (ihr hr)
      | comma =>
          rw [satisfy_zero_iff] at h
          rw [inserts_comma]
          refine ⟨(ihl ?_).mono fun name => Finset.mem_union_left _,
            (ihr ?_).mono fun name => Finset.mem_union_right _⟩
          · exact (satisfy_zero_iff left).mpr h.1
          · exact (satisfy_zero_iff right).mpr h.2

/-- **`satisfy` decides the formula and selects a model of it.**  It returns 0 if and only if the
formula holds of the packages that exist.  What it adds to the set is a set of its own: leaves that
exist, which satisfy the formula if it returned 0, and none for a `|` that failed. -/
theorem satisfy_decides (exist : Name → Bool) (tree : ExprNode) :
    ∃ added : Finset Name,
      (∀ packages : Finset Name,
        ((tree.satisfy exist packages).1 = 0 ↔ tree.Holds fun name => exist name = true)
          ∧ (tree.satisfy exist packages).2 = packages ∪ added)
      ∧ (∀ name ∈ added, name ∈ tree.leaves ∧ exist name = true)
      ∧ (∀ packages, (tree.satisfy exist packages).1 = 0 → tree.Holds fun name => name ∈ added)
      ∧ ∀ packages left right, tree = .operator .bar left right →
          (tree.satisfy exist packages).1 ≠ 0 → added = ∅ := by
  have hret : ∀ packages, (tree.satisfy exist packages).1 = (tree.satisfy exist ∅).1 := by
    intro packages
    rw [satisfy_eq]
  refine ⟨tree.inserts exist, fun packages => ⟨?_, ?_⟩, fun name hname => ?_, ?_, ?_⟩
  · rw [hret, satisfy_zero_iff]
  · rw [satisfy_eq]
  · exact ⟨inserts_leaves tree hname, inserts_exist tree name hname⟩
  · intro packages h
    rw [hret] at h
    exact inserts_model tree h
  · rintro packages left right rfl h
    rw [hret] at h
    exact inserts_bar_failed h

end LinuxUtil.Apt
