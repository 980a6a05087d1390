/-
Walks in a tree.

A walk starts somewhere in a tree and takes one move at a time: it stays, it goes up, or
it goes down to a child.  The position is the way down from the start, the last name
first; `walk` fails where a move would leave the start upwards.  It does not exactly if
in no part of the walk from its beginning there are more moves up than moves down
(`walk_isSome_iff`).
-/
import Mathlib.Data.List.Infix

namespace Walk

variable {α : Type*}

inductive Move (α : Type*)
  | stay
  | up
  | down (name : α)

def Move.isUp : Move α → Bool
  | .up => true
  | _ => false

def Move.isDown : Move α → Bool
  | .down _ => true
  | _ => false

/-- Take the moves from a position. -/
def walk : List (Move α) → List α → Option (List α)
  | [], at_ => some at_
  | .stay :: moves, at_ => walk moves at_
  | .up :: _, [] => none
  | .up :: moves, _ :: at_ => walk moves at_
  | .down name :: moves, at_ => walk moves (name :: at_)

/-- A part of a sequence from its beginning is empty, or it has the first element. -/
theorem forall_prefix_cons {P : List α → Prop} (x : α) (xs : List α) :
    (∀ pre, pre <+: x :: xs → P pre) ↔ P [] ∧ ∀ pre, pre <+: xs → P (x :: pre) := by
  constructor
  · exact fun h => ⟨h [] List.nil_prefix, fun pre hp => h _ ((List.prefix_cons_inj x).mpr hp)⟩
  · rintro ⟨hnil, hcons⟩ pre hp
    rcases List.prefix_cons_iff.mp hp with rfl | ⟨pre', rfl, hp'⟩
    · exact hnil
    · exact hcons pre' hp'

/-- **A walk stays below its start exactly if it never has gone up more often than down.** -/
theorem walk_isSome_iff (moves : List (Move α)) (at_ : List α) :
    (walk moves at_).isSome ↔
      ∀ pre, pre <+: moves → pre.countP Move.isUp ≤ at_.length + pre.countP Move.isDown := by
  induction moves generalizing at_ with
  | nil => simp [walk]
  | cons move moves ih =>
      rw [forall_prefix_cons]
      cases move with
      | stay =>
          rw [walk, ih]
          simp [Move.isUp, Move.isDown]
      | down name =>
          rw [walk, ih]
          simp only [List.countP_nil, Nat.zero_le, true_and, List.length_cons]
          refine forall_congr' fun pre => imp_congr_right fun _ => ?_
          rw [List.countP_cons_of_neg (by simp [Move.isUp]),
            List.countP_cons_of_pos (by simp [Move.isDown])]
          omega
      | up =>
          cases at_ with
          | nil =>
              refine iff_of_false (by simp [walk]) fun h => ?_
              have := h.2 [] List.nil_prefix
              simp [Move.isUp, Move.isDown] at this
          | cons name at_ =>
              rw [walk, ih]
              simp only [List.countP_nil, Nat.zero_le, true_and, List.length_cons]
              refine forall_congr' fun pre => imp_congr_right fun _ => ?_
              rw [List.countP_cons_of_pos (by simp [Move.isUp]),
                List.countP_cons_of_neg (by simp [Move.isDown])]
              omega

end Walk
