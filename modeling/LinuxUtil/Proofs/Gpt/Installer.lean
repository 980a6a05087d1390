/-
When the installer's argument loop ends.

The loop reads the arguments in pairs, and an argument in the first place of a pair has to be
an option: nothing advances the index over any other, so the loop stays there for ever
(`parseLoop_stuck`).  The second place of the last pair may be the null pointer behind the
arguments; only `-s` looks at what it points to.
-/
import LinuxUtil.Gpt.Installer

namespace LinuxUtil.Gpt.Installer

abbrev Arg := List UInt8

/-- The arguments that end the loop. -/
def IsHelp (cur : Arg) : Prop := cur = ascii "-h" ∨ cur = ascii "--help"

/-- The arguments that have a branch of their own. -/
def IsOption (cur : Arg) : Prop :=
  cur = ascii "-k" ∨ cur = ascii "-d" ∨ cur = ascii "-s" ∨ cur = ascii "-busybox"

variable (argv : List Arg)

/-- No pair from index `i` to the `k`-th behind it begins with a request for help. -/
def NoHelp (i k : Nat) : Prop := ∀ j, j ≤ k → ∀ cur, argv[i + 2 * j]? = some cur → ¬ IsHelp cur

/-- From index `i` on every pair in front of help begins with an option. -/
def Understood (i : Nat) : Prop :=
  ∀ k cur, argv[i + 2 * k]? = some cur → NoHelp argv i k → IsOption cur

/-- The last argument is a `-s`, and the loop comes to it. -/
def SizeMissing (i : Nat) : Prop :=
  ∃ k, argv[i + 2 * k]? = some (ascii "-s") ∧ i + 2 * k + 1 = argv.length ∧ NoHelp argv i k

variable {argv}

/-! ### Pairs -/

theorem index_succ (i k : Nat) : i + 2 * (k + 1) = i + 2 + 2 * k := by omega

theorem noHelp_succ {i k : Nat} :
    NoHelp argv i (k + 1) ↔ (∀ cur, argv[i]? = some cur → ¬ IsHelp cur) ∧ NoHelp argv (i + 2) k := by
  constructor
  · intro h
    refine ⟨h 0 (Nat.zero_le _), fun j hj => ?_⟩
    rw [← index_succ]
    exact h (j + 1) (Nat.succ_le_succ hj)
  · rintro ⟨hfirst, hrest⟩ j hj
    cases j with
    | zero => exact hfirst
    | succ j =>
        rw [index_succ]
        exact hrest j (Nat.le_of_succ_le_succ hj)

theorem not_help {i : Nat} {cur : Arg} (hcur : argv[i]? = some cur) (hhelp : ¬ IsHelp cur)
    (cur' : Arg) (h : argv[i]? = some cur') : ¬ IsHelp cur' := by
  rw [hcur] at h
  exact Option.some.inj h ▸ hhelp

theorem noHelp_zero {i : Nat} {cur : Arg} (hcur : argv[i]? = some cur) (hhelp : ¬ IsHelp cur) :
    NoHelp argv i 0 := by
  intro j hj
  rw [Nat.le_zero.mp hj]
  exact not_help hcur hhelp

theorem Understood.next {i : Nat} {cur : Arg} (hcur : argv[i]? = some cur) (hhelp : ¬ IsHelp cur) :
    Understood argv i ↔ IsOption cur ∧ Understood argv (i + 2) := by
  have hfirst := not_help hcur hhelp
  constructor
  · intro h
    refine ⟨h 0 cur hcur (noHelp_zero hcur hhelp), fun k cur' hk hno => ?_⟩
    refine h (k + 1) cur' ?_ (noHelp_succ.mpr ⟨hfirst, hno⟩)
    rw [index_succ]
    exact hk
  · rintro ⟨hoption, hrest⟩ k cur' hk hno
    cases k with
    | zero =>
        have hsame : some cur = some cur' := hcur.symm.trans hk
        exact Option.some.inj hsame ▸ hoption
    | succ k =>
        rw [index_succ] at hk
        exact hrest k cur' hk (noHelp_succ.mp hno).2

theorem SizeMissing.next {i : Nat} {cur : Arg} (hcur : argv[i]? = some cur) (hhelp : ¬ IsHelp cur) :
    SizeMissing argv i ↔ cur = ascii "-s" ∧ i + 1 = argv.length ∨ SizeMissing argv (i + 2) := by
  have hfirst := not_help hcur hhelp
  constructor
  · rintro ⟨k, hk, hlast, hno⟩
    cases k with
    | zero =>
        have hsame : some cur = some (ascii "-s") := hcur.symm.trans hk
        exact .inl ⟨Option.some.inj hsame, hlast⟩
    | succ k =>
        rw [index_succ] at hk hlast
        exact .inr ⟨k, hk, hlast, (noHelp_succ.mp hno).2⟩
  · rintro (⟨rfl, hlast⟩ | ⟨k, hk, hlast, hno⟩)
    · exact ⟨0, hcur, hlast, noHelp_zero hcur hhelp⟩
    · refine ⟨k + 1, ?_, ?_, noHelp_succ.mpr ⟨hfirst, hno⟩⟩
      · rw [index_succ]
        exact hk
      · rw [index_succ]
        exact hlast

/-- At help the loop ends. -/
theorem understood_help {i : Nat} {cur : Arg} (hcur : argv[i]? = some cur) (hhelp : IsHelp cur) :
    Understood argv i ∧ ¬ SizeMissing argv i := by
  constructor
  · intro k cur' _ hno
    exact absurd hhelp (hno 0 (Nat.zero_le _) cur hcur)
  · rintro ⟨k, _, _, hno⟩
    exact hno 0 (Nat.zero_le _) cur hcur hhelp

/-- Behind the last argument there is nothing to be understood. -/
theorem understood_end {i : Nat} (hi : argv.length ≤ i) :
    Understood argv i ∧ ¬ SizeMissing argv i := by
  have hnone : ∀ k, argv[i + 2 * k]? = none := by
    intro k
    exact List.getElem?_eq_none (Nat.le_trans hi (Nat.le_add_right _ _))
  constructor
  · intro k cur hk
    rw [hnone] at hk
    cases hk
  · rintro ⟨k, hk, _⟩
    rw [hnone] at hk
    cases hk

/-! ### One argument -/

theorem argvAt_eq {i : Nat} (hi : i ≤ argv.length) : argvAt argv i = .ok argv[i]? := by
  unfold argvAt
  cases h : argv[i]? with
  | some arg => rfl
  | none =>
      have hlast : i = argv.length := Nat.le_antisymm hi (List.getElem?_eq_none_iff.mp h)
      exact if_pos hlast

theorem readOption_unknown {i : Nat} {o : Options} {cur : Arg} (h : ¬ IsOption cur) :
    readOption argv i o cur = .ok none := by
  simp only [IsOption, not_or] at h
  obtain ⟨hk, hd, hs, hb⟩ := h
  unfold readOption
  rw [if_neg hk, if_neg hd, if_neg hs, if_neg hb]
  rfl

/-- Behind a `-s` at the end there is only the null pointer. -/
theorem readOption_last {i : Nat} {o : Options} (hi : i + 1 = argv.length) :
    readOption argv i o (ascii "-s") = .error .nullPointer := by
  have harg : argvAt argv (i + 1) = .ok none := by
    rw [argvAt_eq (Nat.le_of_eq hi), List.getElem?_eq_none (Nat.le_of_eq hi.symm)]
  unfold readOption
  rw [if_neg (by decide), if_neg (by decide), if_pos rfl, harg]
  rfl

theorem readOption_option {i : Nat} {o : Options} {cur : Arg} (h : IsOption cur)
    (hi : i < argv.length) (hsize : ¬ (cur = ascii "-s" ∧ i + 1 = argv.length)) :
    ∃ o', readOption argv i o cur = .ok (some o') := by
  have harg := argvAt_eq (Nat.succ_le_of_lt hi)
  unfold readOption
  rw [harg]
  by_cases hk : cur = ascii "-k"
  · exact ⟨_, if_pos hk⟩
  by_cases hd : cur = ascii "-d"
  · exact ⟨_, (if_neg hk).trans (if_pos hd)⟩
  by_cases hs : cur = ascii "-s"
  · have hnext : i + 1 < argv.length := Nat.lt_of_le_of_ne hi fun hlast => hsize ⟨hs, hlast⟩
    rw [if_neg hk, if_neg hd, if_pos hs, List.getElem?_eq_getElem hnext]
    exact ⟨_, rfl⟩
  · have hb : cur = ascii "-busybox" := by
      rcases h with h | h | h | h
      · exact absurd h hk
      · exact absurd h hd
      · exact absurd h hs
      · exact h
    rw [if_neg hk, if_neg hd, if_neg hs, if_pos hb]
    exact ⟨_, rfl⟩

/-! ### The loop -/

section

variable {fuel i : Nat} {o : Options} {cur : Arg}

theorem parseLoop_end (hi : argv.length ≤ i) : parseLoop argv (fuel + 1) i o = .ok o := by
  unfold parseLoop
  exact if_neg (Nat.not_lt.mpr hi)

theorem parseLoop_help (hcur : argv[i]? = some cur) (hhelp : IsHelp cur) :
    parseLoop argv (fuel + 1) i o = .ok { o with print_help := true } := by
  have hi : i < argv.length := (List.getElem?_eq_some_iff.mp hcur).1
  unfold parseLoop
  rw [if_pos hi, argvAt_eq (Nat.le_of_lt hi), hcur]
  exact if_pos hhelp

theorem parseLoop_read (hcur : argv[i]? = some cur) (hhelp : ¬ IsHelp cur) :
    parseLoop argv (fuel + 1) i o = readOption argv i o cur >>= fun next =>
      next.elim (parseLoop argv fuel i o) (parseLoop argv fuel (i + 2)) := by
  have hi : i < argv.length := (List.getElem?_eq_some_iff.mp hcur).1
  conv_lhs => unfold parseLoop
  rw [if_pos hi, argvAt_eq (Nat.le_of_lt hi), hcur]
  refine (if_neg hhelp).trans (bind_congr fun next => ?_)
  cases next <;> rfl

/-- If an argument is not understood, no number of rounds is enough. -/
theorem parseLoop_stuck (h : ¬ Understood argv i) : parseLoop argv fuel i o = .error .diverges := by
  induction fuel generalizing i o with
  | zero => rfl
  | succ fuel ih =>
      cases hcur : argv[i]? with
      | none => exact absurd (understood_end (List.getElem?_eq_none_iff.mp hcur)).1 h
      | some cur =>
          have hi : i < argv.length := (List.getElem?_eq_some_iff.mp hcur).1
          by_cases hhelp : IsHelp cur
          · exact absurd (understood_help hcur hhelp).1 h
          rw [parseLoop_read hcur hhelp]
          by_cases hoption : IsOption cur
          · have hrest : ¬ Understood argv (i + 2) := fun hrest =>
              h ((Understood.next hcur hhelp).mpr ⟨hoption, hrest⟩)
            have hmore : ¬ (cur = ascii "-s" ∧ i + 1 = argv.length) := by
              rintro ⟨_, hlast⟩
              exact hrest (understood_end (by omega)).1
            obtain ⟨o', hread⟩ := readOption_option (o := o) hoption hi hmore
            rw [hread]
            exact ih hrest
          · -- The index stays where it is.
            rw [readOption_unknown hoption]
            exact ih h

/-- Otherwise a round for each argument and one more suffice, and what the loop ends with depends on
`-s` alone. -/
theorem parseLoop_understood (h : Understood argv i) :
    (parseLoop argv fuel i o = .error .diverges ∧ fuel ≤ argv.length - i)
    ∨ (SizeMissing argv i ∧ parseLoop argv fuel i o = .error .nullPointer)
    ∨ (¬ SizeMissing argv i ∧ ∃ o', parseLoop argv fuel i o = .ok o') := by
  induction fuel generalizing i o with
  | zero => exact .inl ⟨rfl, Nat.zero_le _⟩
  | succ fuel ih =>
      cases hcur : argv[i]? with
      | none =>
          have hi := List.getElem?_eq_none_iff.mp hcur
          exact .inr (.inr ⟨(understood_end hi).2, o, parseLoop_end hi⟩)
      | some cur =>
          have hi : i < argv.length := (List.getElem?_eq_some_iff.mp hcur).1
          by_cases hhelp : IsHelp cur
          · exact .inr (.inr ⟨(understood_help hcur hhelp).2, _, parseLoop_help hcur hhelp⟩)
          obtain ⟨hoption, hrest⟩ := (Understood.next hcur hhelp).mp h
          rw [parseLoop_read hcur hhelp, SizeMissing.next hcur hhelp]
          by_cases hmissing : cur = ascii "-s" ∧ i + 1 = argv.length
          · refine .inr (.inl ⟨.inl hmissing, ?_⟩)
            rw [hmissing.1, readOption_last hmissing.2]
            rfl
          · obtain ⟨o', hread⟩ := readOption_option (o := o) hoption hi hmissing
            rw [hread, or_iff_right hmissing]
            refine (ih (o := o') hrest).imp_left fun hends => ⟨hends.1, ?_⟩
            have hless := hends.2
            omega

end

/-- **The argument loop ends exactly if every argument in the first place of a pair is understood**,
without a fault if in addition the last one is not a `-s`.  It never looks behind the null
pointer that follows the arguments. -/
theorem parseLoop_ends_iff (argv : List Arg) :
    ((∃ fuel o, parseLoop argv fuel 1 .start = .ok o)
      ↔ Understood argv 1 ∧ ¬ SizeMissing argv 1)
    ∧ ((∃ fuel, parseLoop argv fuel 1 .start ≠ .error .diverges) ↔ Understood argv 1)
    ∧ ∀ fuel, parseLoop argv fuel 1 .start ≠ .error .outOfBounds := by
  by_cases h : Understood argv 1
  · have hrun := fun fuel => @parseLoop_understood argv fuel 1 .start h
    have hmany : ¬ argv.length + 1 ≤ argv.length - 1 := by omega
    have hends := (hrun (argv.length + 1)).resolve_left fun hlate => hmany hlate.2
    refine ⟨⟨?_, ?_⟩, ⟨fun _ => h, fun _ => ⟨argv.length + 1, ?_⟩⟩, fun fuel => ?_⟩
    · rintro ⟨fuel, o, hok⟩
      refine ⟨h, fun hmissing => ?_⟩
      rcases hrun fuel with ⟨hlate, _⟩ | ⟨_, hnull⟩ | ⟨hgood, _⟩
      · rw [hlate] at hok
        cases hok
      · rw [hnull] at hok
        cases hok
      · exact hgood hmissing
    · rintro ⟨_, hgood⟩
      exact ⟨_, (hends.resolve_left fun hnull => hgood hnull.1).2⟩
    · rcases hends with ⟨_, hnull⟩ | ⟨_, o, hok⟩
      · simp [hnull]
      · simp [hok]
    · rcases hrun fuel with ⟨hlate, _⟩ | ⟨_, hnull⟩ | ⟨_, o, hok⟩
      · simp [hlate]
      · simp [hnull]
      · simp [hok]
  · have hrun : ∀ fuel, parseLoop argv fuel 1 .start = .error .diverges :=
      fun _ => parseLoop_stuck h
    refine ⟨⟨?_, fun hends => absurd hends.1 h⟩, ⟨?_, fun hends => absurd hends h⟩, fun fuel => ?_⟩
    · rintro ⟨fuel, o, hends⟩
      rw [hrun] at hends
      cases hends
    · rintro ⟨fuel, hends⟩
      exact absurd (hrun fuel) hends
    · simp [hrun fuel]

/-- `installer -v` does not end. -/
theorem parseLoop_hangs :
    (∀ fuel, parseLoop [ascii "installer", ascii "-v"] fuel 1 .start = .error .diverges)
    ∧ ¬ ∀ argv : List Arg, (∃ fuel, parseLoop argv fuel 1 .start ≠ .error .diverges)
      ∧ ∀ fuel, parseLoop argv fuel 1 .start ≠ .error .outOfBounds := by
  have hangs : ∀ fuel,
      parseLoop [ascii "installer", ascii "-v"] fuel 1 .start = .error .diverges := by
    refine fun _ => parseLoop_stuck fun h => ?_
    have hhelp : ¬ IsHelp (ascii "-v") := by
      unfold IsHelp
      decide
    have hoption : ¬ IsOption (ascii "-v") := by
      unfold IsOption
      decide
    exact hoption (h 0 (ascii "-v") rfl (noHelp_zero rfl hhelp))
  refine ⟨hangs, fun hall => ?_⟩
  obtain ⟨fuel, hends⟩ := (hall [ascii "installer", ascii "-v"]).1
  exact hends (hangs fuel)

end LinuxUtil.Gpt.Installer
