/-
A pointer into the middle of a memory.

Code that is handed a pointer sees the memory from there on, and counts its addresses from
zero.  `from_` is the memory it sees, and `splice` the whole memory once that part of it has
been replaced.
-/
import LinuxUtil.Lib.ByteMem

namespace ByteMem

/-- The memory from `a` on. -/
def from_ (m : Mem) (a : Nat) : Mem := fun x => m (a + x)

/-- `m` with `v` from `a` on. -/
def splice (m : Mem) (a : Nat) (v : Mem) : Mem := fun x => if a ≤ x then v (x - a) else m x

theorem splice_below (m v : Mem) {a x : Nat} (h : x < a) : splice m a v x = m x := by
  unfold splice
  rw [if_neg (by omega)]

theorem splice_above (m v : Mem) {a x : Nat} (h : a ≤ x) : splice m a v x = v (x - a) := by
  unfold splice
  rw [if_pos h]

@[simp] theorem splice_add (m v : Mem) (a x : Nat) : splice m a v (a + x) = v x := by
  rw [splice_above m v (Nat.le_add_right a x), Nat.add_sub_cancel_left]

@[simp] theorem from_splice (m v : Mem) (a : Nat) : from_ (splice m a v) a = v :=
  funext fun x => splice_add m v a x

theorem read_from (m : Mem) (a b n : Nat) : read (from_ m a) b n = read m (a + b) n :=
  read_shift fun i _ => by unfold from_; rw [Nat.add_assoc]

/-- Bytes that the new part has as the old one had are as they were. -/
theorem splice_same (m v : Mem) {a x : Nat} (h : a ≤ x → v (x - a) = from_ m a (x - a)) :
    splice m a v x = m x := by
  rcases Nat.lt_or_ge x a with hx | hx
  · exact splice_below m v hx
  · rw [splice_above m v hx, h hx]
    unfold from_
    congr 1
    omega

end ByteMem
