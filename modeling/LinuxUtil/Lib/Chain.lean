/-
Singly linked lists in memory.

`Chain m a l`: from the pointer `a`, following the pointer that each node has in its
first eight bytes, the nodes are those of `l`, and the last one points to 0.  The
pointer and the memory determine the list, so a list that ends has no node twice.
-/
import LinuxUtil.Lib.ByteMem

open ByteMem

def Chain (m : Mem) : Nat → List Nat → Prop
  | a, [] => a = 0
  | a, b :: rest => a = b ∧ b ≠ 0 ∧ Chain m (load m b 8) rest

namespace Chain

variable {m m' : Mem} {a : Nat} {l : List Nat}

theorem eq_nil (h : Chain m 0 l) : l = [] := by
  cases l with
  | nil => rfl
  | cons b rest => exact absurd h.1.symm h.2.1

theorem congr :
    ∀ {l : List Nat} {a : Nat}, Chain m a l → (∀ b ∈ l, load m' b 8 = load m b 8) → Chain m' a l := by
  intro l
  induction l with
  | nil => intro a h _; exact h
  | cons b rest ih =>
      intro a h hm
      refine ⟨h.1, h.2.1, ?_⟩
      rw [hm b List.mem_cons_self]
      exact ih h.2.2 fun c hc => hm c (List.mem_cons_of_mem b hc)

theorem unique : ∀ {l l' : List Nat} {a : Nat}, Chain m a l → Chain m a l' → l = l' := by
  intro l
  induction l with
  | nil =>
      intro l' a h h'
      cases l' with
      | nil => rfl
      | cons b rest => exact absurd (h'.1.symm.trans h) h'.2.1
  | cons b rest ih =>
      intro l' a h h'
      cases l' with
      | nil => exact absurd (h.1.symm.trans h') h.2.1
      | cons c rest' =>
          obtain rfl : b = c := h.1.symm.trans h'.1
          rw [ih h.2.2 h'.2.2]

/-- The part of a chain that starts at one of its nodes. -/
theorem suffix :
    ∀ {l : List Nat} {a b : Nat}, Chain m a l → b ∈ l → ∃ pre post, l = pre ++ b :: post ∧
      Chain m b (b :: post) := by
  intro l
  induction l with
  | nil => intro a b _ hb; cases hb
  | cons c rest ih =>
      intro a b h hb
      rcases List.mem_cons.mp hb with rfl | hb
      · exact ⟨[], rest, rfl, rfl, h.2⟩
      · obtain ⟨pre, post, rfl, hpost⟩ := ih h.2.2 hb
        exact ⟨c :: pre, post, rfl, hpost⟩

/-- A list that ends has no cycle. -/
theorem nodup : ∀ {l : List Nat} {a : Nat}, Chain m a l → l.Nodup := by
  intro l
  induction l with
  | nil => intro a _; exact List.nodup_nil
  | cons b rest ih =>
      intro a h
      refine List.nodup_cons.mpr ⟨?_, ih h.2.2⟩
      intro hb
      obtain ⟨pre, post, hrest, hpost⟩ := suffix h.2.2 hb
      have hsame : rest = post := (List.cons.inj (unique (m := m) ⟨rfl, h.2⟩ hpost)).2
      have := congrArg List.length hrest
      rw [hsame, List.length_append, List.length_cons] at this
      omega

/-- The last node points to 0. -/
theorem load_getLast :
    ∀ {l : List Nat} {a b : Nat}, Chain m a l → l.getLast? = some b → load m b 8 = 0 := by
  intro l
  induction l with
  | nil => intro a b _ hb; cases hb
  | cons c rest ih =>
      intro a b h hb
      cases rest with
      | nil =>
          obtain rfl : c = b := Option.some.inj hb
          exact h.2.2
      | cons d rest => exact ih h.2.2 hb

end Chain
