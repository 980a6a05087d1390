/-
Patches laid over a function, one after the other.

A patch has values at some places and none at others.  Where several have one the last
counts (`lay_of_last`), whatever was below; and where none has one, what was there before is
there still (`lay_of_none`).
-/
import Mathlib.Data.List.Basic

namespace Overlay

variable {α β : Type*}

/-- The function with a patch on it. -/
def patched (f : α → β) (p : α → Option β) : α → β := fun x => (p x).getD (f x)

/-- The function with some patches on it, the last one on top. -/
def lay (ps : List (α → Option β)) (f : α → β) : α → β := ps.foldl patched f

theorem patched_of_some {f : α → β} {p : α → Option β} {x : α} {v : β} (h : p x = some v) :
    patched f p x = v := by
  rw [patched, h, Option.getD_some]

theorem patched_of_none {f : α → β} {p : α → Option β} {x : α} (h : p x = none) :
    patched f p x = f x := by
  rw [patched, h, Option.getD_none]

theorem lay_cons (p : α → Option β) (ps : List (α → Option β)) (f : α → β) :
    lay (p :: ps) f = lay ps (patched f p) := rfl

/-- A place is on its own. -/
theorem lay_congr {ps : List (α → Option β)} {x : α} :
    ∀ {f g : α → β}, f x = g x → lay ps f x = lay ps g x := by
  induction ps with
  | nil => exact fun h => h
  | cons p ps ih =>
      intro f g h
      rw [lay_cons, lay_cons]
      refine ih ?_
      rw [patched, patched, h]

theorem lay_of_none {ps : List (α → Option β)} {x : α} (h : ∀ p ∈ ps, p x = none) (f : α → β) :
    lay ps f x = f x := by
  induction ps generalizing f with
  | nil => rfl
  | cons p ps ih =>
      obtain ⟨hp, hps⟩ := List.forall_mem_cons.mp h
      rw [lay_cons, ih hps, patched_of_none hp]

/-- The last patch that has a value at a place decides it. -/
theorem lay_of_last {ps qs : List (α → Option β)} {p : α → Option β} {x : α} {v : β} (hp : p x = some v)
    (hlast : ∀ q ∈ qs, q x = none) (f : α → β) : lay (ps ++ p :: qs) f x = v := by
  induction ps generalizing f with
  | nil =>
      rw [List.nil_append, lay_cons, lay_of_none hlast]
      exact patched_of_some hp
  | cons q ps ih => exact ih (patched f q)

/-- Where an element of a list has a value, there is a last one that has. -/
theorem exists_last {ι : Type*} (effect : ι → α → Option β) {l : List ι} {x : α}
    (h : ∃ i ∈ l, effect i x ≠ none) :
    ∃ l₁ i l₂ v, l = l₁ ++ i :: l₂ ∧ effect i x = some v ∧ ∀ j ∈ l₂, effect j x = none := by
  induction l with
  | nil =>
      obtain ⟨i, hi, -⟩ := h
      exact absurd hi List.not_mem_nil
  | cons i l ih =>
      by_cases hlater : ∃ j ∈ l, effect j x ≠ none
      · obtain ⟨l₁, j, l₂, v, rfl, hv, hnone⟩ := ih hlater
        exact ⟨i :: l₁, j, l₂, v, rfl, hv, hnone⟩
      · have hnone : ∀ j ∈ l, effect j x = none := by
          intro j hj
          by_contra hne
          exact hlater ⟨j, hj, hne⟩
        obtain ⟨j, hj, hne⟩ := h
        rcases List.mem_cons.mp hj with rfl | hj
        · obtain ⟨v, hv⟩ := Option.ne_none_iff_exists'.mp hne
          exact ⟨[], j, l, v, rfl, hv, hnone⟩
        · exact absurd (hnone j hj) hne

end Overlay
