/-
Cyclic redundancy checks with a reflected polynomial, in a register of any width.

The register is divided a bit at a time: it moves down by one place, and if the bit that
drops out is set the polynomial is added.  A bit of the message is added to that bit before.
All of this is linear (`step_xor`), so `k` steps can be made at once with a table of what
they make of the lowest `k` bits (`register_bits`).
-/
import Mathlib.Algebra.GroupWithZero.Nat
import Mathlib.Logic.Function.Iterate

namespace Crc

variable {w : Nat} (poly : BitVec w)

/-- One place down. -/
def step (c : BitVec w) : BitVec w := (c >>> 1) ^^^ if c.getLsbD 0 then poly else 0#w

/-- One bit of the message. -/
def feed (c : BitVec w) (b : Bool) : BitVec w :=
  (c >>> 1) ^^^ if c.getLsbD 0 ^^ b then poly else 0#w

/-- The register behind a message. -/
def register (c : BitVec w) (message : List Bool) : BitVec w := message.foldl (feed poly) c

/-- The lowest `k` bits, from the lowest one on. -/
def bits : Nat → BitVec w → List Bool
  | 0, _ => []
  | k + 1, x => x.getLsbD 0 :: bits k (x >>> 1)

/-- The lowest `k` bits, where they are. -/
def low (k : Nat) (x : BitVec w) : BitVec w := x &&& BitVec.ofNat w (2 ^ k - 1)

theorem register_append (c : BitVec w) (xs ys : List Bool) :
    register poly c (xs ++ ys) = register poly (register poly c xs) ys := List.foldl_append

theorem bits_congr {v k : Nat} {x : BitVec w} {y : BitVec v} (h : ∀ i, i < k → x.getLsbD i = y.getLsbD i) :
    bits k x = bits k y := by
  induction k generalizing x y with
  | zero => rfl
  | succ k ih =>
      rw [bits, bits, h 0 (Nat.succ_pos k), ih]
      intro i hi
      rw [BitVec.getLsbD_ushiftRight, BitVec.getLsbD_ushiftRight]
      exact h (1 + i) (by omega)

theorem getLsbD_low (k : Nat) (x : BitVec w) (i : Nat) :
    (low k x).getLsbD i = (x.getLsbD i && decide (i < k)) := by
  rw [low, BitVec.getLsbD_and, BitVec.getLsbD_ofNat, Nat.testBit_two_pow_sub_one]
  by_cases hi : i < w
  · simp [hi]
  · rw [BitVec.getLsbD_of_ge x i (Nat.le_of_not_lt hi)]
    rfl

theorem low_xor (k : Nat) (x y : BitVec w) : low k (x ^^^ y) = low k x ^^^ low k y := by
  apply BitVec.eq_of_getLsbD_eq
  intro i _
  simp only [BitVec.getLsbD_xor, getLsbD_low, Bool.and_xor_distrib_right]

/-- Nothing is left of the lowest bits when they have dropped out. -/
theorem low_shift (k : Nat) (x : BitVec w) : low k x >>> k = 0#w := by
  apply BitVec.eq_of_getLsbD_eq
  intro i _
  rw [BitVec.getLsbD_ushiftRight, getLsbD_low, decide_eq_false (by omega), Bool.and_false,
    BitVec.getLsbD_zero]

theorem low_succ_shift (k : Nat) (x : BitVec w) : low (k + 1) x >>> 1 = low k (x >>> 1) := by
  apply BitVec.eq_of_getLsbD_eq
  intro i _
  simp only [BitVec.getLsbD_ushiftRight, getLsbD_low]
  rw [decide_eq_decide.mpr (show 1 + i < k + 1 ↔ i < k by omega)]

/-! ### Steps -/

theorem step_xor (x y : BitVec w) : step poly (x ^^^ y) = step poly x ^^^ step poly y := by
  have hbits : ∀ a b : Bool, (if a ^^ b then poly else 0#w) =
      (if a then poly else 0#w) ^^^ if b then poly else 0#w := by
    intro a b
    cases a <;> cases b <;> simp
  simp only [step, BitVec.ushiftRight_xor_distrib, BitVec.getLsbD_xor, hbits]
  ac_rfl

theorem steps_xor (k : Nat) (x y : BitVec w) :
    (step poly)^[k] (x ^^^ y) = (step poly)^[k] x ^^^ (step poly)^[k] y := by
  induction k generalizing x y with
  | zero => rfl
  | succ k ih => rw [Function.iterate_succ_apply, step_xor, ih]; rfl

/-- As long as no set bit drops out the register is only moved. -/
theorem steps_of_low (k : Nat) {x : BitVec w} (hlow : ∀ i, i < k → x.getLsbD i = false) :
    (step poly)^[k] x = x >>> k := by
  induction k generalizing x with
  | zero => exact (BitVec.ushiftRight_zero x).symm
  | succ k ih =>
      have hstep : step poly x = x >>> 1 := by
        rw [step, hlow 0 (Nat.succ_pos k)]
        exact BitVec.xor_zero
      rw [Function.iterate_succ_apply, hstep, ih, ← BitVec.shiftRight_add, Nat.add_comm]
      intro i hi
      rw [BitVec.getLsbD_ushiftRight]
      exact hlow (1 + i) (by omega)

/-- **The table**: `k` steps are those of the lowest `k` bits, and the rest moves down. -/
theorem steps_eq (k : Nat) (x : BitVec w) :
    (step poly)^[k] x = (step poly)^[k] (low k x) ^^^ (x >>> k) := by
  have hsplit : x = low k x ^^^ (x ^^^ low k x) := by
    rw [BitVec.xor_comm x, ← BitVec.xor_assoc, BitVec.xor_self, BitVec.zero_xor]
  have hhigh : ∀ i, i < k → (x ^^^ low k x).getLsbD i = false := by
    intro i hi
    rw [BitVec.getLsbD_xor, getLsbD_low, decide_eq_true hi, Bool.and_true, Bool.xor_self]
  conv => lhs; rw [hsplit, steps_xor, steps_of_low poly k hhigh]
  rw [BitVec.ushiftRight_xor_distrib, low_shift, BitVec.xor_zero]

/-! ### Messages -/

theorem feed_eq (k : Nat) (c x : BitVec w) :
    feed poly c (x.getLsbD 0) ^^^ low k (x >>> 1) = step poly (c ^^^ low (k + 1) x) := by
  have hbit : (low (k + 1) x).getLsbD 0 = x.getLsbD 0 := by
    rw [getLsbD_low, decide_eq_true (Nat.succ_pos k), Bool.and_true]
  rw [feed, step, BitVec.ushiftRight_xor_distrib, low_succ_shift, BitVec.getLsbD_xor, hbit,
    BitVec.xor_assoc, BitVec.xor_assoc, BitVec.xor_comm (low k (x >>> 1))]

/-- The bits of a message may be added to the register before it is moved. -/
theorem register_steps (k : Nat) (c x : BitVec w) :
    register poly c (bits k x) = (step poly)^[k] (c ^^^ low k x) := by
  induction k generalizing c x with
  | zero =>
      have hlow : low 0 x = 0#w := BitVec.and_zero
      rw [hlow, BitVec.xor_zero]
      rfl
  | succ k ih => rw [Function.iterate_succ_apply, ← feed_eq, ← ih]; rfl

/-- **Many bits at once**: what the table has for the lowest bits of the register and the message
together, and the rest of the register. -/
theorem register_bits (k : Nat) (c x : BitVec w) :
    register poly c (bits k x) = (step poly)^[k] (low k (c ^^^ x)) ^^^ (c >>> k) := by
  have hidem : low k (low k x) = low k x := by
    apply BitVec.eq_of_getLsbD_eq
    intro i _
    simp only [getLsbD_low, Bool.and_assoc, Bool.and_self]
  rw [register_steps, steps_eq, low_xor, hidem, ← low_xor, BitVec.ushiftRight_xor_distrib, low_shift,
    BitVec.xor_zero]

end Crc
