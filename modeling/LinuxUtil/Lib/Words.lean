/-
The words of a sequence.

Some elements separate; a word is a run of others between them, as long as it can be, and
it is never empty.  A reader that skips the separators in front and takes the run behind
them, `first`, leaves the rest.  Read again and again, it gives the words
(`words_eq`).
-/
import Mathlib.Data.List.TakeWhile

namespace Words

variable {α : Type*} (sep : α → Bool)

/-- The runs between the separators. -/
def words (xs : List α) : List (List α) := (xs.splitOnP sep).filter (!·.isEmpty)

/-- The first word, or nothing. -/
def first (xs : List α) : List α := (xs.dropWhile sep).takeWhile (!sep ·)

/-- What is behind the first word. -/
def rest (xs : List α) : List α := (xs.dropWhile sep).dropWhile (!sep ·)

variable {sep}

/-- A run ends where something else begins. -/
theorem run_append {p : α → Bool} {xs ys : List α} (hx : ∀ x ∈ xs, p x = true)
    (hy : ∀ y ∈ ys.head?, p y = false) :
    (xs ++ ys).takeWhile p = xs ∧ (xs ++ ys).dropWhile p = ys := by
  rw [List.takeWhile_append_of_pos hx, List.dropWhile_append_of_pos hx]
  cases ys with
  | nil => simp
  | cons y ys => simp [hy y rfl]

/-- The first word is what is in front of the next separator. -/
theorem first_append {w xs : List α} (hne : w ≠ []) (hw : ∀ x ∈ w, sep x = false)
    (hxs : ∀ x ∈ xs.head?, sep x = true) : first sep (w ++ xs) = w ∧ rest sep (w ++ xs) = xs := by
  have hskip : (w ++ xs).dropWhile sep = w ++ xs := by
    cases w with
    | nil => exact absurd rfl hne
    | cons x w => simp [hw x List.mem_cons_self]
  unfold first rest
  rw [hskip]
  exact run_append (fun x hx => by simp [hw x hx]) fun x hx => by simp [hxs x hx]

theorem words_nil : words sep [] = [] := rfl

theorem words_sep {x : α} (hx : sep x = true) (xs : List α) : words sep (x :: xs) = words sep xs := by
  unfold words
  rw [List.splitOnP_cons_eq_if_modifyHead, if_pos hx]
  rfl

/-- A run at the end is a word, and so is one in front of a separator. -/
theorem words_run {run : List α} (hne : run ≠ []) (hrun : ∀ x ∈ run, sep x = false) :
    words sep run = [run]
      ∧ ∀ x xs, sep x = true → words sep (run ++ x :: xs) = run :: words sep xs := by
  unfold words
  refine ⟨?_, fun x xs hx => ?_⟩
  · rw [List.splitOnP_eq_singleton hrun]
    simp [hne]
  · rw [List.splitOnP_append_cons_of_forall_mem hrun x hx]
    simp [hne]

theorem first_sep {x : α} (hx : sep x = true) (xs : List α) :
    first sep (x :: xs) = first sep xs ∧ rest sep (x :: xs) = rest sep xs := by
  unfold first rest
  rw [List.dropWhile_cons_of_pos hx]
  exact ⟨rfl, rfl⟩

theorem first_append_rest {x : α} (hx : sep x = false) (xs : List α) :
    first sep (x :: xs) ++ rest sep (x :: xs) = x :: xs := by
  unfold first rest
  rw [List.dropWhile_cons_of_neg (by simp [hx])]
  exact List.takeWhile_append_dropWhile

theorem first_plain {xs : List α} : ∀ x ∈ first sep xs, sep x = false := by
  intro x hx
  simpa using List.mem_takeWhile_imp hx

/-- The rest begins with a separator. -/
theorem rest_cases (sep : α → Bool) (xs : List α) : rest sep xs = [] ∨ ∃ x t, rest sep xs = x :: t ∧ sep x = true := by
  have hhead := List.head?_dropWhile_not (!sep ·) (xs.dropWhile sep)
  unfold rest
  cases h : (xs.dropWhile sep).dropWhile (!sep ·) with
  | nil => exact .inl rfl
  | cons x t =>
      rw [h] at hhead
      exact .inr ⟨x, t, rfl, by simpa using hhead⟩

/-- **The words are the first word and those of the rest.** -/
theorem words_eq (xs : List α) :
    words sep xs = if first sep xs = [] then [] else first sep xs :: words sep (rest sep xs) := by
  induction xs with
  | nil => rfl
  | cons x xs ih =>
      cases hx : sep x with
      | true =>
          rw [words_sep hx, (first_sep hx xs).1, (first_sep hx xs).2]
          exact ih
      | false =>
          have hsplit := first_append_rest hx xs
          have hne : first sep (x :: xs) ≠ [] := by
            unfold first
            simp [hx]
          obtain ⟨hend, hmid⟩ := words_run hne first_plain
          rw [if_neg hne]
          rcases rest_cases sep (x :: xs) with hr | ⟨y, t, hr, hy⟩
          · rw [hr, List.append_nil] at hsplit
            rw [hr, words_nil, ← hend, hsplit]
          · rw [hr] at hsplit
            rw [hr, words_sep hy, ← hmid y t hy, hsplit]

theorem words_eq_nil {xs : List α} (h : words sep xs = []) : first sep xs = [] := by
  by_contra hne
  rw [words_eq, if_neg hne] at h
  cases h

theorem words_eq_cons {xs : List α} {w : List α} {ws : List (List α)}
    (h : words sep xs = w :: ws) : w ≠ [] ∧ first sep xs = w ∧ words sep (rest sep xs) = ws := by
  rw [words_eq] at h
  split at h
  · cases h
  · next hne =>
      obtain ⟨rfl, hrest⟩ := List.cons.inj h
      exact ⟨hne, rfl, hrest⟩

theorem word_ne_nil {xs : List α} : ∀ w ∈ words sep xs, w ≠ [] := by
  intro w hw
  simpa using (List.mem_filter.mp hw).2

/-- Without a first word there is nothing left. -/
theorem rest_eq_nil {xs : List α} (h : first sep xs = []) : rest sep xs = [] := by
  induction xs with
  | nil => rfl
  | cons x xs ih =>
      cases hx : sep x with
      | true =>
          rw [(first_sep hx xs).1] at h
          rw [(first_sep hx xs).2]
          exact ih h
      | false =>
          unfold first at h
          simp [hx] at h

/-- The separator behind a word may be skipped with it. -/
theorem words_rest_drop (sep : α → Bool) (xs : List α) :
    words sep ((rest sep xs).drop 1) = words sep (rest sep xs) := by
  rcases rest_cases sep xs with h | ⟨x, t, h, hx⟩
  · rw [h]
    rfl
  · rw [h, words_sep hx]
    rfl

theorem rest_length (sep : α → Bool) (xs : List α) : (first sep xs).length + (rest sep xs).length ≤ xs.length := by
  have hsplit := congrArg List.length
    (List.takeWhile_append_dropWhile (p := (!sep ·)) (l := xs.dropWhile sep))
  have hdrop := (List.dropWhile_sublist sep (l := xs)).length_le
  rw [List.length_append] at hsplit
  unfold first rest
  omega

/-- Every word has an element of its own. -/
theorem words_length (sep : α → Bool) (xs : List α) : (words sep xs).length ≤ xs.length := by
  rw [words_eq]
  split
  · exact Nat.zero_le _
  · next hne =>
      have hpos := List.length_pos_iff.mpr hne
      have hlen := rest_length sep xs
      have hrest := words_length sep (rest sep xs)
      rw [List.length_cons]
      omega
termination_by xs.length

end Words
