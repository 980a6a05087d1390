/-
C strings as lists.

A string is the list of its characters without the NUL, and a pointer into it is what is
behind it.  A search gives the string from where it has stopped.
-/
import Mathlib.Data.List.Infix

namespace CString

/-- The first place from which on the string begins with `pat`. -/
def strstr : List UInt8 → List UInt8 → Option (List UInt8)
  | [], pat => if pat = [] then some [] else none
  | c :: s, pat => if pat <+: c :: s then some (c :: s) else strstr s pat

/-- At most the first `n` characters are compared, and none behind a NUL. -/
def strncmp : List UInt8 → List UInt8 → Nat → Int
  | _, _, 0 => 0
  | a, b, n + 1 =>
      if a.headD 0 = b.headD 0 then
        if a.headD 0 = 0 then 0 else strncmp a.tail b.tail n
      else ((a.headD 0).toNat : Int) - (b.headD 0).toNat

/-- The last place with the character `c`, which may be the NUL. -/
def strrchr : List UInt8 → UInt8 → Option (List UInt8)
  | [], c => if c = 0 then some [] else none
  | d :: s, c => (strrchr s c).or (if d = c then some (d :: s) else none)

theorem strstr_spec {pat : List UInt8} :
    ∀ {s rest : List UInt8}, strstr s pat = some rest → ∃ pre, s = pre ++ rest ∧ pat <+: rest := by
  intro s
  induction s with
  | nil =>
      intro rest h
      rw [strstr] at h
      by_cases hpat : pat = []
      · rw [if_pos hpat] at h
        obtain rfl := Option.some.inj h
        exact ⟨[], rfl, hpat ▸ List.nil_prefix⟩
      · rw [if_neg hpat] at h
        cases h
  | cons c s ih =>
      intro rest h
      rw [strstr] at h
      by_cases hpat : pat <+: c :: s
      · rw [if_pos hpat] at h
        obtain rfl := Option.some.inj h
        exact ⟨[], rfl, hpat⟩
      · rw [if_neg hpat] at h
        obtain ⟨pre, rfl, hrest⟩ := ih h
        exact ⟨c :: pre, rfl, hrest⟩

/-- The first place is not behind one whose first character has not been seen before. -/
theorem strstr_append {c : UInt8} {pat : List UInt8} (rest : List UInt8) :
    ∀ {pre : List UInt8}, c ∉ pre →
      strstr (pre ++ (c :: pat ++ rest)) (c :: pat) = some (c :: pat ++ rest) := by
  intro pre
  induction pre with
  | nil =>
      intro _
      exact if_pos (List.prefix_append (c :: pat) rest)
  | cons d pre ih =>
      intro hpre
      obtain ⟨hd, hpre⟩ := not_or.mp (mt List.mem_cons.mpr hpre)
      have hnot : ¬ c :: pat <+: d :: (pre ++ (c :: pat ++ rest)) :=
        fun h => hd (List.cons_prefix_cons.mp h).1
      rw [List.cons_append, strstr, if_neg hnot]
      exact ih hpre

/-- The first place is in front of every other. -/
theorem strstr_first {pat : List UInt8} :
    ∀ {s rest : List UInt8}, strstr s pat = some rest →
      ∀ {pre post : List UInt8}, s = pre ++ post → pat <+: post → post.length ≤ rest.length := by
  intro s
  induction s with
  | nil =>
      intro rest _ pre post heq _
      rw [(List.append_eq_nil_iff.mp heq.symm).2]
      exact Nat.zero_le _
  | cons c s ih =>
      intro rest h pre post heq hpost
      rw [strstr] at h
      by_cases hpat : pat <+: c :: s
      · rw [if_pos hpat] at h
        rw [← Option.some.inj h, heq, List.length_append]
        exact Nat.le_add_left _ _
      · rw [if_neg hpat] at h
        cases pre with
        | nil =>
            rw [heq, List.nil_append] at hpat
            exact absurd hpost hpat
        | cons d pre => exact ih h (List.cons.inj heq).2 hpost

theorem strncmp_cons (d c : UInt8) (a b : List UInt8) (n : Nat) :
    strncmp (d :: a) (c :: b) (n + 1) =
      if d = c then if d = 0 then 0 else strncmp a b n else (d.toNat : Int) - c.toNat := rfl

theorem strncmp_nil (c : UInt8) (b : List UInt8) (n : Nat) :
    strncmp [] (c :: b) (n + 1) = if 0 = c then 0 else ((0 : UInt8).toNat : Int) - c.toNat := rfl

/-- Strings of at least `n` characters compare equal if the first `n` are. -/
theorem strncmp_eq_zero_iff (rest : List UInt8) :
    ∀ {s a : List UInt8}, 0 ∉ s → (strncmp a (s ++ rest) s.length = 0 ↔ s <+: a) := by
  intro s
  induction s with
  | nil => exact fun {a} _ => ⟨fun _ => List.nil_prefix, fun _ => rfl⟩
  | cons c s ih =>
      intro a hs
      obtain ⟨hc, hs⟩ := not_or.mp (mt List.mem_cons.mpr hs)
      have hdiff : ∀ {x : UInt8}, x ≠ c → (x.toNat : Int) - c.toNat ≠ 0 :=
        fun hne h => hne (UInt8.toNat_inj.mp (by omega))
      rw [List.length_cons, List.cons_append]
      cases a with
      | nil =>
          rw [strncmp_nil, if_neg hc, List.prefix_nil]
          exact ⟨fun h => absurd h (hdiff hc), nofun⟩
      | cons d a =>
          rw [strncmp_cons, List.cons_prefix_cons]
          by_cases hd : d = c
          · rw [if_pos hd, if_neg (hd ▸ Ne.symm hc)]
            exact (ih hs).trans ⟨fun h => ⟨hd.symm, h⟩, fun h => h.2⟩
          · rw [if_neg hd]
            exact ⟨fun h => absurd h (hdiff hd), fun h => absurd h.1.symm hd⟩

theorem strrchr_isSome {c : UInt8} : ∀ {s : List UInt8}, c ∈ s → ∃ rest, strrchr s c = some rest := by
  intro s
  induction s with
  | nil => exact fun h => absurd h List.not_mem_nil
  | cons d s ih =>
      intro h
      rw [strrchr]
      cases hlast : strrchr s c with
      | some rest => exact ⟨rest, rfl⟩
      | none =>
          rcases List.mem_cons.mp h with rfl | hs
          · exact ⟨_, if_pos rfl⟩
          · obtain ⟨rest, hrest⟩ := ih hs
            rw [hrest] at hlast
            cases hlast

theorem strrchr_last {c : UInt8} (hc : c ≠ 0) :
    ∀ {s last : List UInt8}, strrchr s c = some last →
      ∃ dir file, s = dir ++ c :: file ∧ last = c :: file ∧ c ∉ file := by
  intro s
  induction s with
  | nil =>
      intro last h
      rw [strrchr, if_neg hc] at h
      cases h
  | cons d s ih =>
      intro last h
      rw [strrchr] at h
      cases hlater : strrchr s c with
      | some later =>
          rw [hlater, Option.some_or] at h
          obtain ⟨dir, file, rfl, rfl, hfile⟩ := ih hlater
          exact ⟨d :: dir, file, rfl, (Option.some.inj h).symm, hfile⟩
      | none =>
          rw [hlater, Option.none_or] at h
          have hs : c ∉ s := by
            intro hmem
            obtain ⟨rest, hrest⟩ := strrchr_isSome hmem
            rw [hrest] at hlater
            cases hlater
          by_cases hd : d = c
          · rw [if_pos hd] at h
            exact ⟨[], s, by rw [hd]; rfl, by rw [← Option.some.inj h, hd], hs⟩
          · rw [if_neg hd] at h
            cases h

end CString
