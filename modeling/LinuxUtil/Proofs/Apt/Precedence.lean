/-
When the parser gets the precedence right.

A dependency string is meant as a list of groups that must all be satisfied, each by
one of its alternatives.  The tree that leans to the left reads it differently: a bar
offers its right side as an alternative to everything before it, the groups in front
included.  `verdict_leftTree` follows `satisfy` along such a tree, and
`precedence_iff` says for which groups and which existing packages the answer is still
the one that was meant.

The last group whose leading alternative is missing decides.  From the bar that repairs
it on, whatever the groups before it needed is forgotten.
-/
import LinuxUtil.Proofs.Apt.Closure
import LinuxUtil.Proofs.Apt.Parse

namespace LinuxUtil.Apt

/-! ### What was meant -/

/-- The alternatives of a group, in order. -/
structure Group where
  lead : Name
  rest : List Name
  deriving DecidableEq, Repr

def GroupText.group (g : GroupText) : Group :=
  ⟨g.first.name.bytes, g.rest.map fun a => a.name.bytes⟩

def DepText.groups (d : DepText) : List Group := d.first.group :: d.rest.map GroupText.group

variable (exist : Name → Bool)

/-- The first existing alternative. -/
def Group.choice (g : Group) : Option Name := (g.lead :: g.rest).find? exist

/-- Every group has an existing alternative. -/
def AllMet (gs : List Group) : Prop := ∀ g ∈ gs, ∃ p, g.choice exist = some p

def choices (gs : List Group) : Finset Name := (gs.filterMap (Group.choice exist)).toFinset

/-- `satisfy` reports whether all groups can be met, and then inserts their choices. -/
def Respects (gs : List Group) (tree : ExprNode) : Prop :=
  ∀ s, ((tree.satisfy exist s).1 = 0 ↔ AllMet exist gs)
    ∧ (AllMet exist gs → (tree.satisfy exist s).2 = s ∪ choices exist gs)

/-- The groups from the last one on whose leading alternative is missing. -/
def lastBroken : List Group → Option (List Group)
  | [] => none
  | g :: gs =>
      match lastBroken gs with
      | some tail => some tail
      | none => if exist g.lead then none else some (g :: gs)

/-- The condition: if all groups can be met, then the choices from the last broken group on are
all of them; if not, then no alternative from there on, but for the leading ones, exists. -/
def Separable (gs : List Group) : Prop :=
  ∀ tail, lastBroken exist gs = some tail →
    (AllMet exist gs → ∀ g ∈ gs, ∀ p, g.choice exist = some p → p ∈ choices exist tail)
    ∧ (¬ AllMet exist gs → ∀ g ∈ tail, ∀ p ∈ g.rest, exist p = false)

/-! ### Following the tree -/

/-- Whether a tree is satisfied, and what it inserts. -/
def verdict (tree : ExprNode) : Bool × Finset Name :=
  ((tree.satisfy exist ∅).1 == 0, tree.inserts exist)

/-- One more value on the right. -/
def extend (st : Bool × Finset Name) : Op × Name → Bool × Finset Name
  | (.bar, p) => if st.1 then st else if exist p then (true, {p}) else (false, ∅)
  | (.comma, p) => (st.1 && exist p, if exist p then insert p st.2 else st.2)

theorem verdict_operator (op : Op) (t : ExprNode) (p : Name) :
    verdict exist (.operator op t (.value p)) = extend exist (verdict exist t) (op, p) := by
  cases op with
  | bar =>
      by_cases ht : (t.satisfy exist ∅).1 = 0
      · simp [verdict, extend, ExprNode.inserts, ExprNode.satisfy, ht]
      · by_cases hp : exist p
        · simp [verdict, extend, ExprNode.inserts, ExprNode.satisfy, ht, hp]
        · simp [verdict, extend, ExprNode.inserts, ExprNode.satisfy, ht, hp]
  | comma =>
      by_cases hp : exist p
      · simp [verdict, extend, ExprNode.inserts, ExprNode.satisfy, hp]
      · simp [verdict, extend, ExprNode.inserts, ExprNode.satisfy, hp]

theorem verdict_leftTree :
    ∀ (pairs : List (Op × Name)) (t : ExprNode),
      verdict exist (leftTree t pairs) = pairs.foldl (extend exist) (verdict exist t) := by
  intro pairs
  induction pairs with
  | nil => intro t; rfl
  | cons p pairs ih =>
      intro t
      rw [List.foldl_cons, ← verdict_operator]
      exact ih _

/-- One more group on the right. -/
def meet (st : Bool × Finset Name) (g : Group) : Bool × Finset Name :=
  (g.rest.map fun p => (Op.bar, p)).foldl (extend exist) (extend exist st (.comma, g.lead))

theorem verdict_depText (d : DepText) :
    verdict exist (leftTree (.value d.first.first.name.bytes) d.pairs)
      = d.groups.foldl (meet exist) (true, ∅) := by
  have hvalue : ∀ p, verdict exist (.value p) = extend exist (true, ∅) (.comma, p) := by
    intro p
    by_cases hp : exist p
    · simp [verdict, extend, ExprNode.inserts, ExprNode.satisfy, hp]
    · simp [verdict, extend, ExprNode.inserts, ExprNode.satisfy, hp]
  have hgroup : ∀ (g : GroupText) (st : Bool × Finset Name),
      g.pairs.foldl (extend exist) (extend exist st (.comma, g.first.name.bytes))
        = meet exist st g.group := by
    intro g st
    unfold meet GroupText.pairs GroupText.group
    rw [List.map_map]
    rfl
  have hrest : ∀ (gs : List GroupText) (st : Bool × Finset Name),
      (gs.flatMap fun g => (Op.comma, g.first.name.bytes) :: g.pairs).foldl (extend exist) st
        = (gs.map GroupText.group).foldl (meet exist) st := by
    intro gs
    induction gs with
    | nil => intro st; rfl
    | cons g gs ih =>
        intro st
        rw [List.flatMap_cons, List.foldl_append, List.foldl_cons, hgroup, ih, List.map_cons,
          List.foldl_cons]
  rw [verdict_leftTree, hvalue]
  unfold DepText.pairs DepText.groups
  rw [List.foldl_append, hgroup, hrest, List.foldl_cons]

/-! ### One group -/

variable {exist}

/-- Bars do nothing to a satisfied tree; otherwise the first that exists replaces everything. -/
theorem foldl_bars_true (rest : List Name) (d : Finset Name) :
    (rest.map fun p => (Op.bar, p)).foldl (extend exist) (true, d) = (true, d) := by
  induction rest with
  | nil => rfl
  | cons p rest ih => exact ih

theorem foldl_bars_false :
    ∀ (rest : List Name) (d : Finset Name),
      (∀ p, rest.find? exist = some p →
        (rest.map fun p => (Op.bar, p)).foldl (extend exist) (false, d) = (true, {p}))
      ∧ (rest.find? exist = none →
        ((rest.map fun p => (Op.bar, p)).foldl (extend exist) (false, d)).1 = false) := by
  intro rest
  induction rest with
  | nil =>
      intro d
      exact ⟨fun p hp => by simp at hp, fun _ => rfl⟩
  | cons q rest ih =>
      intro d
      rw [List.map_cons, List.foldl_cons]
      by_cases hq : exist q
      · have hstep : extend exist (false, d) (.bar, q) = (true, {q}) := by simp [extend, hq]
        rw [hstep, foldl_bars_true, List.find?_cons_of_pos hq]
        refine ⟨?_, ?_⟩
        · intro p hp
          rw [Option.some.inj hp]
        · intro hn
          cases hn
      · have hstep : extend exist (false, d) (.bar, q) = (false, ∅) := by simp [extend, hq]
        rw [hstep, List.find?_cons_of_neg hq]
        exact ih ∅

theorem meet_lead {g : Group} (hg : exist g.lead = true) (d : Finset Name) :
    meet exist (true, d) g = (true, insert g.lead d) := by
  have hstep : extend exist (true, d) (.comma, g.lead) = (true, insert g.lead d) := by
    simp [extend, hg]
  unfold meet
  rw [hstep, foldl_bars_true]

theorem meet_broken {g : Group} (hg : exist g.lead = false) (st : Bool × Finset Name) :
    meet exist st g
      = (g.rest.map fun p => (Op.bar, p)).foldl (extend exist) (false, st.2) := by
  have hstep : extend exist st (.comma, g.lead) = (false, st.2) := by
    simp [extend, hg]
  unfold meet
  rw [hstep]

/-- Whether the groups so far are satisfied. -/
theorem meet_ok (st : Bool × Finset Name) (g : Group) :
    (meet exist st g).1 = (st.1 && exist g.lead || g.rest.any exist) := by
  obtain ⟨ok, d⟩ := st
  have hbars : ∀ d, ((g.rest.map fun p => (Op.bar, p)).foldl (extend exist) (false, d)).1
      = g.rest.any exist := by
    intro d
    cases hf : g.rest.find? exist with
    | none =>
        rw [(foldl_bars_false g.rest d).2 hf]
        rw [List.find?_eq_none] at hf
        exact (List.any_eq_false.mpr hf).symm
    | some p =>
        rw [(foldl_bars_false g.rest d).1 p hf]
        exact (List.any_eq_true.mpr ⟨p, List.mem_of_find?_eq_some hf, List.find?_some hf⟩).symm
  by_cases hg : exist g.lead = true
  · cases ok with
    | true =>
        rw [meet_lead hg]
        simp [hg]
    | false =>
        unfold meet
        have hstep : extend exist (false, d) (.comma, g.lead) = (false, insert g.lead d) := by
          simp [extend, hg]
        rw [hstep, hbars]
        simp
  · rw [meet_broken (by simpa using hg), hbars]
    simp [hg]

theorem choice_lead {g : Group} (hg : exist g.lead = true) : g.choice exist = some g.lead :=
  List.find?_cons_of_pos hg

theorem choice_broken {g : Group} (hg : exist g.lead = false) :
    g.choice exist = g.rest.find? exist :=
  List.find?_cons_of_neg (by simpa using hg)

theorem choices_cons {g : Group} {p : Name} (hg : g.choice exist = some p) (gs : List Group) :
    choices exist (g :: gs) = insert p (choices exist gs) := by
  unfold choices
  rw [List.filterMap_cons_some hg, List.toFinset_cons]

/-! ### All groups -/

theorem lastBroken_cons (g : Group) (gs : List Group) :
    lastBroken exist (g :: gs) = match lastBroken exist gs with
      | some tail => some tail
      | none => if exist g.lead then none else some (g :: gs) := rfl

/-- If every group can be met, the result is the choices from the last broken group on. -/
theorem foldl_meet_met :
    ∀ (gs : List Group) (d : Finset Name), AllMet exist gs →
      gs.foldl (meet exist) (true, d) = (true, match lastBroken exist gs with
        | some tail => choices exist tail
        | none => d ∪ choices exist gs) := by
  intro gs
  induction gs with
  | nil =>
      intro d _
      simp [lastBroken, choices]
  | cons g gs ih =>
      intro d hall
      obtain ⟨p, hp⟩ := hall g List.mem_cons_self
      have hrest : AllMet exist gs := fun g' h => hall g' (List.mem_cons_of_mem g h)
      rw [List.foldl_cons, lastBroken_cons]
      by_cases hg : exist g.lead = true
      · rw [meet_lead hg, ih _ hrest]
        cases lastBroken exist gs with
        | some tail => rfl
        | none =>
            simp only [hg, if_true]
            rw [choices_cons (choice_lead hg), Finset.insert_union, Finset.union_insert]
      · have hg : exist g.lead = false := by simpa using hg
        have hfind : g.rest.find? exist = some p := by rw [← choice_broken hg, hp]
        rw [meet_broken hg, (foldl_bars_false g.rest d).1 p hfind, ih _ hrest]
        cases lastBroken exist gs with
        | some tail => rfl
        | none =>
            simp only [hg, Bool.false_eq_true, if_false]
            rw [choices_cons hp, Finset.insert_eq]

/-- Some alternative from `gs` on, but for the leading ones, exists. -/
def repaired (exist : Name → Bool) (gs : List Group) : Bool := gs.any fun g => g.rest.any exist

theorem foldl_meet_ok :
    ∀ (gs : List Group) (st : Bool × Finset Name),
      (gs.foldl (meet exist) st).1 = match lastBroken exist gs with
        | some tail => repaired exist tail
        | none => st.1 || repaired exist gs := by
  intro gs
  induction gs with
  | nil =>
      intro st
      simp [lastBroken, repaired]
  | cons g gs ih =>
      intro st
      rw [List.foldl_cons, ih, lastBroken_cons]
      cases lastBroken exist gs with
      | some tail => rfl
      | none =>
          simp only [meet_ok]
          by_cases hg : exist g.lead = true
          · simp [hg, repaired, Bool.or_assoc]
          · simp [hg, repaired]

theorem exists_broken {gs : List Group} (h : ¬ AllMet exist gs) :
    ∃ tail, lastBroken exist gs = some tail := by
  induction gs with
  | nil => exact absurd (fun g hg => by cases hg) h
  | cons g gs ih =>
      rw [lastBroken_cons]
      cases hb : lastBroken exist gs with
      | some tail => exact ⟨tail, rfl⟩
      | none =>
          by_cases hg : exist g.lead = true
          · exfalso
            refine h fun g' hg' => ?_
            rcases List.mem_cons.mp hg' with rfl | hg'
            · exact ⟨_, choice_lead hg⟩
            · by_contra hc
              obtain ⟨tail, ht⟩ := ih fun hall => hc (hall g' hg')
              rw [hb] at ht
              cases ht
          · exact ⟨g :: gs, by simp [hg]⟩

/-! ### The condition is exact -/

variable (exist)

theorem respects_iff (gs : List Group) (tree : ExprNode) :
    Respects exist gs tree ↔ (((verdict exist tree).1 = true ↔ AllMet exist gs)
      ∧ (AllMet exist gs → (verdict exist tree).2 = choices exist gs)) := by
  have hret : (verdict exist tree).1 = true ↔ (tree.satisfy exist ∅).1 = 0 := by
    simp [verdict]
  refine ⟨?_, ?_⟩
  · intro h
    obtain ⟨h1, h2⟩ := h ∅
    refine ⟨hret.trans h1, fun hall => ?_⟩
    have := h2 hall
    rwa [Finset.empty_union] at this
  · rintro ⟨h1, h2⟩ s
    rw [satisfy_eq]
    refine ⟨hret.symm.trans h1, fun hall => ?_⟩
    have : tree.inserts exist = choices exist gs := h2 hall
    rw [this]

theorem choices_subset {gs : List Group} {u : Finset Name} :
    choices exist gs ⊆ u ↔ ∀ g ∈ gs, ∀ p, g.choice exist = some p → p ∈ u := by
  unfold choices
  refine ⟨?_, ?_⟩
  · intro h g hg p hp
    exact h (List.mem_toFinset.mpr (List.mem_filterMap.mpr ⟨g, hg, hp⟩))
  · intro h p hp
    obtain ⟨g, hg, hgp⟩ := List.mem_filterMap.mp (List.mem_toFinset.mp hp)
    exact h g hg p hgp

theorem lastBroken_suffix {gs tail : List Group} (h : lastBroken exist gs = some tail) :
    tail <:+ gs := by
  induction gs with
  | nil => cases h
  | cons g gs ih =>
      rw [lastBroken_cons] at h
      cases hb : lastBroken exist gs with
      | some t =>
          rw [hb] at h
          obtain rfl := Option.some.inj h
          exact (ih hb).trans (List.suffix_cons g gs)
      | none =>
          rw [hb] at h
          by_cases hg : exist g.lead = true
          · simp [hg] at h
          · simp only [hg, Bool.false_eq_true, if_false, Option.some.injEq] at h
            rw [← h]

theorem respects_separable (gs : List Group) {tree : ExprNode}
    (hv : verdict exist tree = gs.foldl (meet exist) (true, ∅)) :
    Respects exist gs tree ↔ Separable exist gs := by
  rw [respects_iff, hv]
  by_cases hall : AllMet exist gs
  · rw [foldl_meet_met gs ∅ hall]
    unfold Separable
    cases hb : lastBroken exist gs with
    | none => simp [hall]
    | some tail =>
        have hsub : choices exist tail ⊆ choices exist gs := by
          rw [choices_subset]
          intro g hg p hp
          exact (choices_subset exist).mp (Finset.Subset.refl _) g
            ((lastBroken_suffix exist hb).subset hg) p hp
        refine ⟨?_, ?_⟩
        · rintro ⟨_, h⟩ tail' ht
          obtain rfl := Option.some.inj ht
          refine ⟨fun _ => ?_, fun hn => absurd hall hn⟩
          rw [← choices_subset, ← h hall]
        · intro h
          refine ⟨by simp [hall], fun _ => ?_⟩
          exact Finset.Subset.antisymm hsub ((choices_subset exist).mpr ((h tail rfl).1 hall))
  · obtain ⟨tail, ht⟩ := exists_broken hall
    have hok : (gs.foldl (meet exist) (true, ∅)).1 = repaired exist tail := by
      rw [foldl_meet_ok, ht]
    rw [hok]
    unfold Separable repaired
    refine ⟨?_, ?_⟩
    · rintro ⟨h, _⟩ tail' ht'
      rw [ht] at ht'
      obtain rfl := Option.some.inj ht'
      refine ⟨fun h' => absurd h' hall, fun _ g hg p hp => ?_⟩
      by_contra hc
      refine hall (h.mp (List.any_eq_true.mpr ⟨g, hg, List.any_eq_true.mpr ⟨p, hp, ?_⟩⟩))
      simpa using hc
    · intro h
      refine ⟨⟨fun hrep => ?_, fun h' => absurd h' hall⟩, fun h' => absurd h' hall⟩
      obtain ⟨g, hg, hrest⟩ := List.any_eq_true.mp hrep
      obtain ⟨p, hp, hep⟩ := List.any_eq_true.mp hrest
      rw [(h tail ht).2 hall g hg p hp] at hep
      cases hep

/-- **`ParseDep` gets the precedence of a dependency string right exactly when the groups are
separable.** -/
theorem precedence_iff (d : DepText) :
    ∃ tree, ParseDep d.render = .ok (some tree)
      ∧ (Respects exist d.groups tree ↔ Separable exist d.groups) :=
  ⟨_, parseDep_eq d, respects_separable exist d.groups (verdict_depText exist d)⟩

/-- The string `a, b | c`. -/
def sampleAlt (lead : List UInt8) (name : UInt8) (hlead : Blanks lead) (hname : simple name = true)
    (hparen : name ≠ 40) (hbar : name ≠ 124) : AltText where
  lead := lead
  name := ⟨[name], by simp, by simpa using hname, by simpa using hparen, by simpa using hbar⟩
  version := none
  trail := []
  lead_blank := hlead
  trail_blank := fun _ h => nomatch h

def sampleDep : DepText where
  first := ⟨sampleAlt [] 97 (fun _ h => nomatch h) rfl (by decide) (by decide), []⟩
  rest := [⟨sampleAlt [32] 98 (List.all_eq_true.mp (by decide)) rfl (by decide) (by decide),
    [sampleAlt [] 99 (fun _ h => nomatch h) rfl (by decide) (by decide)]⟩]

/-- With `c` alone, the first group of `a, b | c` cannot be met, and `satisfy` returns 0. -/
theorem precedence_fails : sampleDep.render = ascii "a, b | c"
    ∧ ∃ tree, ParseDep sampleDep.render = .ok (some tree)
      ∧ ¬ AllMet (· == ascii "c") sampleDep.groups
      ∧ (tree.satisfy (· == ascii "c") ∅).1 = 0
      ∧ ¬ Respects (· == ascii "c") sampleDep.groups tree := by
  have hnot : ¬ AllMet (· == ascii "c") sampleDep.groups := by
    intro hall
    have hnone : sampleDep.first.group.choice (· == ascii "c") = none := by decide
    obtain ⟨p, hp⟩ := hall _ List.mem_cons_self
    rw [hnone] at hp
    cases hp
  refine ⟨by decide, _, parseDep_eq sampleDep, hnot, by decide, fun h => ?_⟩
  exact hnot ((h ∅).1.mp (by decide))

end LinuxUtil.Apt
