/-
The packages `downloadDeps` ends with are the least dependency closure.

What a tree inserts depends on the tree and on which packages exist, not on the set
it is inserted into (`satisfy_eq`).  So a visit of a package adds the package and
`needs`, a fixed set, and the loop is the saturation of `Lib/Saturate.lean`.  The names
in the list files bound it, cycles or not.
-/
import LinuxUtil.Apt.Deps

namespace LinuxUtil.Apt

open Saturate

/-! ### What a tree inserts -/

variable {exist : Name → Bool}

/-- What a tree inserts into an empty set. -/
def ExprNode.inserts (exist : Name → Bool) (tree : ExprNode) : Finset Name :=
  (tree.satisfy exist ∅).2

/-- Whether a tree can be satisfied, and what it inserts, do not depend on the set. -/
theorem satisfy_eq (tree : ExprNode) :
    ∀ s : Finset Name,
      tree.satisfy exist s = ((tree.satisfy exist ∅).1, s ∪ tree.inserts exist) := by
  induction tree with
  | value package =>
      intro s
      unfold ExprNode.inserts ExprNode.satisfy
      by_cases h : exist package
      · simp only [h, if_true, insert_empty_eq, Finset.union_singleton]
      · simp [h]
  | operator op left right ihl ihr =>
      intro s
      cases op with
      | bar =>
          unfold ExprNode.inserts ExprNode.satisfy
          by_cases hl : (left.satisfy exist ∅).1 = 0
          · simp [hl]
          · by_cases hr : (right.satisfy exist ∅).1 = 0
            · simp [hl, hr]
            · simp [hl, hr]
      | comma =>
          unfold ExprNode.inserts ExprNode.satisfy
          simp only [ihl s, ihr (s ∪ left.inserts exist)]
          have hr := ihr (left.inserts exist)
          unfold ExprNode.inserts at hr ⊢
          rw [hr, Finset.union_assoc]

/-- A tree inserts packages that exist. -/
theorem inserts_exist (tree : ExprNode) : ∀ p ∈ tree.inserts exist, exist p = true := by
  induction tree with
  | value package =>
      intro p hp
      unfold ExprNode.inserts ExprNode.satisfy at hp
      by_cases h : exist package
      · simp [h] at hp
        exact hp ▸ h
      · simp [h] at hp
  | operator op left right ihl ihr =>
      intro p hp
      cases op with
      | bar =>
          unfold ExprNode.inserts ExprNode.satisfy at hp
          by_cases hl : (left.satisfy exist ∅).1 = 0
          · simp only [hl, if_true, Finset.empty_union] at hp
            exact ihl p hp
          · by_cases hr : (right.satisfy exist ∅).1 = 0
            · simp only [hl, hr, if_true, if_false, Finset.empty_union] at hp
              exact ihr p hp
            · simp [hl, hr] at hp
      | comma =>
          unfold ExprNode.inserts ExprNode.satisfy at hp
          simp only at hp
          rw [satisfy_eq right] at hp
          rcases Finset.mem_union.mp hp with hp | hp
          · exact ihl p hp
          · exact ihr p hp

theorem satisfyTree_eq (tree : Option ExprNode) (s : Finset Name) :
    satisfyTree exist tree s = s ∪ satisfyTree exist tree ∅ := by
  cases tree with
  | none => simp [satisfyTree]
  | some tree =>
      show (tree.satisfy exist s).2 = s ∪ (tree.satisfy exist ∅).2
      rw [satisfy_eq tree s]
      rfl

theorem satisfyTree_exist (tree : Option ExprNode) :
    ∀ p ∈ satisfyTree exist tree ∅, exist p = true := by
  intro p hp
  cases tree with
  | none => simp [satisfyTree] at hp
  | some tree => exact inserts_exist tree p hp

/-! ### What a package needs -/

/-- What `Apt::find` finds. -/
def lookup (files : List AptListFile) (package : Name) : Option Details :=
  (find files package (fun details _ => (0, some details)) none).2

theorem find_eq {σ : Type} (files : List AptListFile) (package : Name)
    (callback : Details → σ → Errno × σ) (st : σ) :
    find files package callback st = match lookup files package with
      | some details => callback details st
      | none => (ENOENT, st) := by
  induction files with
  | nil => rfl
  | cons file files ih =>
      unfold lookup find
      cases file.find package with
      | some details => rfl
      | none => exact ih

/-- Everything `satisfy` inserts for the two trees of `details[0]`, for a package that is found. -/
def needs (files : List AptListFile) (package : Name) : Finset Name :=
  match lookup files package with
  | some details =>
      satisfyTree (packageExists files) details.first.deps ∅
        ∪ satisfyTree (packageExists files) details.first.pre_deps ∅
  | none => ∅

theorem packageExists_iff (files : List AptListFile) (package : Name) :
    packageExists files package = true ↔ (lookup files package).isSome := by
  unfold packageExists
  rw [find_eq]
  cases lookup files package with
  | some details => simp
  | none => simp [ENOENT]

theorem needs_exist (files : List AptListFile) (package : Name) :
    ∀ p ∈ needs files package, packageExists files p = true := by
  intro p hp
  unfold needs at hp
  cases h : lookup files package with
  | none => simp [h] at hp
  | some details =>
      simp only [h] at hp
      rcases Finset.mem_union.mp hp with hp | hp
      · exact satisfyTree_exist _ p hp
      · exact satisfyTree_exist _ p hp

theorem doSatisfy_grows (files : List AptListFile) : Grows (doSatisfy files) (needs files) := by
  intro package s
  unfold doSatisfy needs
  rw [find_eq]
  cases lookup files package with
  | none => simp
  | some details =>
      unfold addDepsCallback
      simp only
      rw [satisfyTree_eq details.first.pre_deps, satisfyTree_eq details.first.deps, Finset.union_assoc]

/-! ### The closure -/

/-- The names the list files have. -/
def names (files : List AptListFile) : Finset Name :=
  (files.flatMap fun file => file.table.map (·.1)).toFinset

theorem mem_names {files : List AptListFile} {package : Name}
    (h : packageExists files package = true) : package ∈ names files := by
  rw [packageExists_iff] at h
  induction files with
  | nil => simp [lookup, find] at h
  | cons file files ih =>
      unfold names
      rw [List.flatMap_cons, List.toFinset_append, Finset.mem_union]
      unfold lookup find at h
      cases hf : file.find package with
      | some details =>
          left
          unfold AptListFile.find at hf
          cases he : file.table.find? (fun entry => entry.1 = package) with
          | none => simp [he] at hf
          | some entry =>
              have hname : entry.1 = package := by simpa using List.find?_some he
              rw [← hname, List.mem_toFinset]
              exact List.mem_map_of_mem (List.mem_of_find?_eq_some he)
      | none =>
          right
          rw [hf] at h
          exact ih h

theorem closed_universe (files : List AptListFile) (args : List Name) :
    Closed (needs files) (args.toFinset ∪ names files) := by
  intro p _ q hq
  exact Finset.mem_union_right _ (mem_names (needs_exist files p q hq))

/-- The loop ends, with the least closed set. -/
theorem packagesRequired_total (files : List AptListFile) (args : List Name) :
    ∃ rounds required, (∀ fuel, rounds ≤ fuel → packagesRequired files fuel args = some required)
      ∧ LeastClosed (needs files) args.toFinset required := by
  have hv := doSatisfy_grows files
  have hu := closed_universe files args
  have hstart : visitAll (doSatisfy files) args ∅ ⊆ args.toFinset ∪ names files :=
    visitAll_bound hv hu args ∅ (Finset.empty_subset _)
      fun p hp => Finset.mem_union_left _ (List.mem_toFinset.mpr hp)
  have hres : ∀ fuel, (args.toFinset ∪ names files).card + 1 ≤ fuel →
      ∃ t, packagesRequired files fuel args = some t ∧ LeastClosed (needs files) args.toFinset t := by
    intro fuel hfuel
    obtain ⟨t, ht⟩ := saturate_total hv hu (n := fuel) (by omega) fuel _ hstart (by omega)
    exact ⟨t, ht, (saturate_least hv fuel _ t ht).of_visitAll hv⟩
  obtain ⟨required, _, hleast⟩ := hres _ (Nat.le_refl _)
  refine ⟨(args.toFinset ∪ names files).card + 1, required, ?_, hleast⟩
  intro fuel hfuel
  obtain ⟨t, ht, hleast'⟩ := hres fuel hfuel
  rw [ht, hleast.unique hleast']

/-- **`downloadDeps` computes the least dependency closure of its arguments.**  It ends, every
member that is no argument exists, and no order or repetition of the arguments matters. -/
theorem packagesRequired_closure (files : List AptListFile) (args : List Name) :
    ∃ rounds required,
      (∀ fuel, rounds ≤ fuel → packagesRequired files fuel args = some required)
      ∧ LeastClosed (needs files) args.toFinset required
      ∧ (∀ p ∈ required, p ∉ args → packageExists files p = true)
      ∧ ∀ args', (∀ p, p ∈ args' ↔ p ∈ args) →
          ∃ rounds', ∀ fuel, rounds' ≤ fuel → packagesRequired files fuel args' = some required := by
  obtain ⟨rounds, required, hrun, hleast⟩ := packagesRequired_total files args
  refine ⟨rounds, required, hrun, hleast, ?_, ?_⟩
  · -- The members that exist and the arguments are a closed set, so there are no others.
    have hclosed : Closed (needs files) (args.toFinset ∪ required.filter (packageExists files ·)) := by
      intro p hp q hq
      refine Finset.mem_union_right _ (Finset.mem_filter.mpr ⟨?_, needs_exist files p q hq⟩)
      rcases Finset.mem_union.mp hp with hp | hp
      · exact hleast.closed p (hleast.base hp) hq
      · exact hleast.closed p (Finset.mem_of_mem_filter p hp) hq
    intro p hp hnot
    have hmem := hleast.least _ Finset.subset_union_left hclosed hp
    rcases Finset.mem_union.mp hmem with h | h
    · exact absurd (List.mem_toFinset.mp h) hnot
    · exact (Finset.mem_filter.mp h).2
  · intro args' hsame
    obtain ⟨rounds', required', hrun', hleast'⟩ := packagesRequired_total files args'
    have hset : args'.toFinset = args.toFinset := by
      ext p
      rw [List.mem_toFinset, List.mem_toFinset, hsame p]
    rw [hset] at hleast'
    rw [hleast.unique hleast']
    exact ⟨rounds', hrun'⟩

end LinuxUtil.Apt
