/-
Owners.

There are objects, and places that may hold one.  A place is in an object, its home, or in none.
`Forest` says that every object is held by one place and that no object is held by something
inside of it: along the homes a rank goes up.  What can be done to a forest is to release an object
that holds nothing, to let a new one in, and to move one to another place, as long as that is
not inside the object.
-/
import Mathlib.Data.Set.Finite.Lemmas
import Mathlib.Logic.Function.Basic
import Mathlib.Logic.Relation

namespace Ownership

variable {Q A : Type*} (home : Q → Option A)

/-- A place in `a` holds `b`. -/
def Owns (holds : Q → Option A) (a b : A) : Prop := ∃ q, home q = some a ∧ holds q = some b

/-- `b` is `a` or inside of it. -/
def Within (holds : Q → Option A) : A → A → Prop := Relation.ReflTransGen (Owns home holds)

/-- The place is inside of `a`. -/
def Inside (holds : Q → Option A) (a : A) (q : Q) : Prop := ∃ b, home q = some b ∧ Within home holds a b

/-- Every object is held, by one place and by nothing inside of it. -/
structure Forest (objects : A → Prop) (holds : Q → Option A) (rank : A → Nat) : Prop where
  unique : ∀ {q q' a}, holds q = some a → holds q' = some a → q = q'
  lower : ∀ {q a b}, home q = some a → holds q = some b → rank b < rank a
  held : ∀ a, objects a ↔ ∃ q, holds q = some a

variable {home} {objects objects' : A → Prop} {holds holds' : Q → Option A} {rank rank' : A → Nat}

theorem Inside.mono (hsub : ∀ {q a}, holds' q = some a → holds q = some a) {a : A} {q : Q}
    (h : Inside home holds' a q) : Inside home holds a q := by
  obtain ⟨b, hhome, hab⟩ := h
  refine ⟨b, hhome, ?_⟩
  clear hhome
  induction hab with
  | refl => exact .refl
  | tail _ hstep ih =>
      obtain ⟨k, hk, hb⟩ := hstep
      exact ih.tail ⟨k, hk, hsub hb⟩

namespace Forest

variable (h : Forest home objects holds rank)
include h

theorem rank_le {a b : A} (hab : Within home holds a b) : rank b ≤ rank a := by
  induction hab with
  | refl => exact Nat.le_refl _
  | tail _ hstep ih =>
      obtain ⟨q, hhome, hholds⟩ := hstep
      exact Nat.le_trans (Nat.le_of_lt (h.lower hhome hholds)) ih

/-- A place that holds something is not inside of it. -/
theorem not_inside {q : Q} {a : A} (hq : holds q = some a) : ¬ Inside home holds a q := by
  rintro ⟨b, hhome, hab⟩
  have hle := h.rank_le hab
  have hlt := h.lower hhome hq
  omega

/-- An object that a place in no object holds is within no other that is held. -/
theorem not_within {q k : Q} {a b : A} (hq : holds q = some a) (hhome : home q = none) (hk : holds k = some b)
    (hne : k ≠ q) : ¬ Within home holds b a := by
  intro hba
  cases hba with
  | refl => exact hne (h.unique hk hq)
  | tail _ hstep =>
      obtain ⟨k', hk', ha⟩ := hstep
      rw [h.unique ha hq, hhome] at hk'
      cases hk'

/-- Every object is within one that a place in no object holds. -/
theorem rooted (hfinite : {a | objects a}.Finite)
    (hin : ∀ {q a}, home q = some a → holds q ≠ none → objects a) {a : A} (ha : objects a) : ∃ q v, home q = none ∧ holds q = some v ∧ Within home holds v a := by
  by_contra hnone
  obtain ⟨top, ⟨htop, hroot⟩, hmax⟩ := Set.exists_max_image
    {a | objects a ∧ ¬ ∃ q v, home q = none ∧ holds q = some v ∧ Within home holds v a} rank
    (hfinite.subset fun a ha => ha.1) ⟨a, ha, hnone⟩
  obtain ⟨q, hq⟩ := (h.held top).mp htop
  cases hhome : home q with
  | none => exact hroot ⟨q, top, hhome, hq, .refl⟩
  | some b =>
      have hlt := h.lower hhome hq
      have hb := hin hhome (by rw [hq]; exact Option.some_ne_none top)
      by_cases hbroot : ∃ q v, home q = none ∧ holds q = some v ∧ Within home holds v b
      · obtain ⟨q', v, hq', hv, hvb⟩ := hbroot
        exact hroot ⟨q', v, hq', hv, hvb.tail ⟨q, hhome, hq⟩⟩
      · exact absurd hlt (Nat.not_lt.mpr (hmax b ⟨hb, hbroot⟩))

/-- What was within an object that is not held any more is gone. -/
theorem gone (h' : Forest home objects' holds' rank') (hsub : ∀ {q a}, holds' q = some a → holds q = some a)
    {q : Q} {v : A} (hq : holds q = some v) (hnone : holds' q = none)
    (hin : ∀ {q a}, home q = some a → holds' q ≠ none → objects' a) {a : A}
    (ha : Within home holds v a) : ¬ objects' a := by
  induction ha with
  | refl =>
      intro hv
      obtain ⟨q', hq'⟩ := (h'.held v).mp hv
      rw [h.unique (hsub hq') hq, hnone] at hq'
      cases hq'
  | tail _ hstep ih =>
      obtain ⟨k, hhome, hk⟩ := hstep
      intro ha
      obtain ⟨q', hq'⟩ := (h'.held _).mp ha
      obtain rfl := h.unique (hsub hq') hk
      exact ih (hin hhome (by rw [hq']; exact Option.some_ne_none _))

variable [DecidableEq Q]

/-- An object that holds nothing is released. -/
theorem release {q : Q} {v : A} (hq : holds q = some v) (hleaf : ∀ {k}, home k = some v → holds k = none) :
    Forest home (fun a => objects a ∧ a ≠ v) (Function.update holds q none) rank := by
  have hsub : ∀ {k a}, Function.update holds q none k = some a → k ≠ q ∧ holds k = some a := by
    intro k a hk
    by_cases hkq : k = q
    · rw [hkq, Function.update_self] at hk
      cases hk
    · rw [Function.update_of_ne hkq] at hk
      exact ⟨hkq, hk⟩
  refine ⟨fun h₁ h₂ => h.unique (hsub h₁).2 (hsub h₂).2, fun hhome hk => h.lower hhome (hsub hk).2,
    fun a => ⟨fun ⟨ha, hne⟩ => ?_, fun ⟨k, hk⟩ => ?_⟩⟩
  · obtain ⟨k, hk⟩ := (h.held a).mp ha
    have hkq : k ≠ q := by
      rintro rfl
      exact hne (Option.some.inj (hk.symm.trans hq))
    exact ⟨k, by rw [Function.update_of_ne hkq]; exact hk⟩
  · obtain ⟨hkq, hk⟩ := hsub hk
    refine ⟨(h.held a).mpr ⟨k, hk⟩, ?_⟩
    rintro rfl
    exact hkq (h.unique hk hq)

/-- A new object, in a place that is in no object. -/
theorem enter {q : Q} {v : A} (hv : ¬ objects v) (hhome : home q = none) (hq : holds q = none) :
    Forest home (fun a => objects a ∨ a = v) (Function.update holds q (some v)) rank := by
  have hsub : ∀ {k a}, Function.update holds q (some v) k = some a →
      k = q ∧ a = v ∨ k ≠ q ∧ holds k = some a := by
    intro k a hk
    by_cases hkq : k = q
    · rw [hkq, Function.update_self] at hk
      exact Or.inl ⟨hkq, (Option.some.inj hk).symm⟩
    · rw [Function.update_of_ne hkq] at hk
      exact Or.inr ⟨hkq, hk⟩
  have hnew : ∀ {k}, holds k ≠ some v := fun {k} hk => hv ((h.held v).mpr ⟨k, hk⟩)
  refine ⟨fun {k k' a} h₁ h₂ => ?_, fun {k a b} hk hb => ?_, fun a => ⟨?_, fun ⟨k, hk⟩ => ?_⟩⟩
  · rcases hsub h₁ with ⟨rfl, rfl⟩ | ⟨-, hk⟩ <;> rcases hsub h₂ with ⟨rfl, hv'⟩ | ⟨-, hk'⟩
    · rfl
    · exact absurd hk' hnew
    · exact absurd (hv' ▸ hk) hnew
    · exact h.unique hk hk'
  · rcases hsub hb with ⟨rfl, -⟩ | ⟨-, hb⟩
    · rw [hhome] at hk
      cases hk
    · exact h.lower hk hb
  · rintro (ha | rfl)
    · obtain ⟨k, hk⟩ := (h.held a).mp ha
      have hkq : k ≠ q := by
        rintro rfl
        rw [hq] at hk
        cases hk
      exact ⟨k, by rw [Function.update_of_ne hkq]; exact hk⟩
    · exact ⟨q, Function.update_self ..⟩
  · rcases hsub hk with ⟨-, rfl⟩ | ⟨-, hk⟩
    · exact Or.inr rfl
    · exact Or.inl ((h.held a).mpr ⟨k, hk⟩)

open Classical in
/-- What is in one place moves to another that is not inside of it. -/
theorem move {src dst : Q} {v : A} (hsrc : holds src = some v) (hdst : holds dst = none)
    (hout : ¬ Inside home holds v dst) :
    ∃ rank', Forest home objects (Function.update (Function.update holds dst (some v)) src none) rank' := by
  have hne : dst ≠ src := by
    rintro rfl
    rw [hsrc] at hdst
    cases hdst
  have hsub : ∀ {k a}, Function.update (Function.update holds dst (some v)) src none k = some a →
      k = dst ∧ a = v ∨ k ≠ dst ∧ k ≠ src ∧ holds k = some a := by
    intro k a hk
    by_cases hks : k = src
    · rw [hks, Function.update_self] at hk
      cases hk
    · rw [Function.update_of_ne hks] at hk
      by_cases hkd : k = dst
      · rw [hkd, Function.update_self] at hk
        exact Or.inl ⟨hkd, (Option.some.inj hk).symm⟩
      · rw [Function.update_of_ne hkd] at hk
        exact Or.inr ⟨hkd, hks, hk⟩
  -- what is not within the object goes above it
  refine ⟨fun a => if Within home holds v a then rank a else rank a + rank v + 1, ?_, ?_, ?_⟩
  · intro k k' a h₁ h₂
    rcases hsub h₁ with ⟨rfl, rfl⟩ | ⟨-, hks, hk⟩ <;> rcases hsub h₂ with ⟨rfl, hv⟩ | ⟨-, hks', hk'⟩
    · rfl
    · exact absurd (h.unique hk' hsrc) hks'
    · exact absurd (h.unique (hv ▸ hk) hsrc) hks
    · exact h.unique hk hk'
  · intro k a b hhome hb
    rcases hsub hb with ⟨rfl, rfl⟩ | ⟨-, -, hb⟩
    · have ha : ¬ Within home holds b a := fun hin => hout ⟨a, hhome, hin⟩
      rw [if_pos (show Within home holds b b from Relation.ReflTransGen.refl), if_neg ha]
      omega
    · have hlt := h.lower hhome hb
      by_cases ha : Within home holds v a
      · have hb : Within home holds v b := ha.tail ⟨k, hhome, hb⟩
        rw [if_pos ha, if_pos hb]
        exact hlt
      · rw [if_neg ha]
        split <;> omega
  · intro a
    refine (h.held a).trans ⟨fun ⟨k, hk⟩ => ?_, fun ⟨k, hk⟩ => ?_⟩
    · by_cases hks : k = src
      · rw [hks, hsrc] at hk
        refine ⟨dst, ?_⟩
        rw [Function.update_of_ne hne, Function.update_self]
        exact hk
      · refine ⟨k, ?_⟩
        have hkd : k ≠ dst := by
          rintro rfl
          rw [hdst] at hk
          cases hk
        rw [Function.update_of_ne hks, Function.update_of_ne hkd]
        exact hk
    · rcases hsub hk with ⟨-, rfl⟩ | ⟨-, -, hk⟩
      · exact ⟨src, hsrc⟩
      · exact ⟨k, hk⟩

end Forest

end Ownership
