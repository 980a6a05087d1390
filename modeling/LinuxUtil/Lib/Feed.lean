/-
A buffered reader over a stream that arrives in segments.

A byte stream comes in segments whose boundaries mean nothing.  One `pull` gives at
most one segment, cut to the length asked for.  A reader keeps what it has pulled and
not yet handed out in `ready`; `next` hands out one element and pulls when `ready` is
empty.

`Feed.stream` is what the boundaries do not show.  `next` gives its head and `skip` its
tail, whatever the segments are.  What the boundaries do show is how much of the stream
is in `ready` at a given moment, and code that looks past the reader at the segments
depends on it.
-/
import Mathlib.Data.List.Basic
import Mathlib.Tactic.Common

variable {α : Type*}

/-! ### Segments -/

namespace Segments

/-- No segment is empty. -/
def Live (segs : List (List α)) : Prop := ∀ s ∈ segs, s ≠ []

/-- One read of at most `len` elements. -/
def pull (len : Nat) : List (List α) → List α × List (List α)
  | [] => ([], [])
  | s :: segs => if s.length ≤ len then (s, segs) else (s.take len, s.drop len :: segs)

/-- Take the first `n` elements away. -/
def drop : Nat → List (List α) → List (List α)
  | _, [] => []
  | n, s :: segs =>
      if s.length ≤ n then drop (n - s.length) segs else s.drop n :: segs

theorem pull_cons (len : Nat) (s : List α) (segs : List (List α)) :
    pull len (s :: segs) =
      if s.length ≤ len then (s, segs) else (s.take len, s.drop len :: segs) := rfl

theorem drop_cons (n : Nat) (s : List α) (segs : List (List α)) :
    drop n (s :: segs) =
      if s.length ≤ n then drop (n - s.length) segs else s.drop n :: segs := rfl

theorem Live.tail {s : List α} {segs : List (List α)} (h : Live (s :: segs)) : Live segs :=
  fun t ht => h t (List.mem_cons_of_mem s ht)

/-- A segment of which some elements have not been read. -/
theorem Live.drop_head {n : Nat} {s : List α} {segs : List (List α)} (h : Live (s :: segs))
    (hs : ¬ s.length ≤ n) : Live (s.drop n :: segs) := by
  intro t ht
  rcases List.mem_cons.mp ht with rfl | ht
  · intro hnil
    exact hs (List.drop_eq_nil_iff.mp hnil)
  · exact h.tail t ht

theorem Live.eq_nil {segs : List (List α)} (h : Live segs) (hf : segs.flatten = []) :
    segs = [] := by
  cases segs with
  | nil => rfl
  | cons s segs =>
      rw [List.flatten_cons, List.append_eq_nil_iff] at hf
      exact absurd hf.1 (h s List.mem_cons_self)

theorem pull_flatten (len : Nat) (segs : List (List α)) :
    (pull len segs).1 ++ (pull len segs).2.flatten = segs.flatten := by
  cases segs with
  | nil => rfl
  | cons s segs =>
      rw [pull_cons, List.flatten_cons]
      by_cases h : s.length ≤ len
      · rw [if_pos h]
      · rw [if_neg h, List.flatten_cons, ← List.append_assoc, List.take_append_drop]

theorem pull_live (len : Nat) {segs : List (List α)} (h : Live segs) : Live (pull len segs).2 := by
  cases segs with
  | nil => exact h
  | cons s segs =>
      rw [pull_cons]
      by_cases hs : s.length ≤ len
      · rw [if_pos hs]
        exact h.tail
      · rw [if_neg hs]
        exact h.drop_head hs

theorem pull_length (len : Nat) (segs : List (List α)) : (pull len segs).1.length ≤ len := by
  cases segs with
  | nil => exact Nat.zero_le _
  | cons s segs =>
      rw [pull_cons]
      by_cases hs : s.length ≤ len
      · rw [if_pos hs]
        exact hs
      · rw [if_neg hs, List.length_take]
        exact Nat.min_le_left _ _

/-- A read gives nothing at the end of the stream only. -/
theorem pull_eq_nil {len : Nat} {segs : List (List α)} (hlen : 1 ≤ len) (h : Live segs)
    (hnil : (pull len segs).1 = []) : segs = [] := by
  cases segs with
  | nil => rfl
  | cons s segs =>
      rw [pull_cons] at hnil
      have hs := List.length_pos_of_ne_nil (h s List.mem_cons_self)
      by_cases hle : s.length ≤ len
      · rw [if_pos hle] at hnil
        exact absurd hnil (h s List.mem_cons_self)
      · rw [if_neg hle] at hnil
        have := congrArg List.length hnil
        rw [List.length_take, List.length_nil] at this
        omega

@[simp] theorem drop_zero {segs : List (List α)} (h : Live segs) : drop 0 segs = segs := by
  cases segs with
  | nil => rfl
  | cons s segs =>
      have hs := List.length_pos_of_ne_nil (h s List.mem_cons_self)
      rw [drop_cons, if_neg (by omega), List.drop_zero]

theorem drop_flatten :
    ∀ (segs : List (List α)) (n : Nat), (drop n segs).flatten = segs.flatten.drop n := by
  intro segs
  induction segs with
  | nil => intro n; simp [drop]
  | cons s segs ih =>
      intro n
      rw [drop_cons, List.flatten_cons, List.drop_append]
      by_cases hs : s.length ≤ n
      · rw [if_pos hs, ih, List.drop_of_length_le hs, List.nil_append]
      · rw [if_neg hs, List.flatten_cons, show n - s.length = 0 by omega, List.drop_zero]

theorem drop_live : ∀ {segs : List (List α)} (n : Nat), Live segs → Live (drop n segs) := by
  intro segs
  induction segs with
  | nil => intro n h; exact h
  | cons s segs ih =>
      intro n h
      rw [drop_cons]
      by_cases hs : s.length ≤ n
      · rw [if_pos hs]
        exact ih _ h.tail
      · rw [if_neg hs]
        exact h.drop_head hs

/-- A read that asks for no more than `n` elements, and then the rest of them. -/
theorem drop_pull {len n : Nat} {segs : List (List α)} (hlen : len ≤ n) (h : Live segs) :
    drop (n - (pull len segs).1.length) (pull len segs).2 = drop n segs := by
  cases segs with
  | nil => rfl
  | cons s segs =>
      have hpos := List.length_pos_of_ne_nil (h s List.mem_cons_self)
      rw [pull_cons]
      by_cases hs : s.length ≤ len
      · rw [if_pos hs]
        rw [drop_cons n s segs, if_pos (by omega)]
      · rw [if_neg hs]
        simp only [List.length_take]
        rw [drop_cons n s segs, drop_cons _ (s.drop len) segs, List.length_drop,
          Nat.min_eq_left (by omega)]
        by_cases hn : s.length ≤ n
        · rw [if_pos hn, if_pos (by omega)]
          congr 1
          omega
        · rw [if_neg hn, if_neg (by omega), List.drop_drop]
          congr 2
          omega

/-- One read of `len` elements out of the next `n`: the end, or a piece in front of the rest. -/
theorem pull_cases {len : Nat} {segs : List (List α)} (hlen : 1 ≤ len) (h : Live segs) :
    (segs = [] ∧ pull len segs = ([], [])) ∨
      ∃ a as segs', pull len segs = (a :: as, segs') ∧ segs.flatten = a :: as ++ segs'.flatten ∧
        (a :: as).length ≤ len ∧ Live segs' ∧
        ∀ n, len ≤ n → drop (n - (a :: as).length) segs' = drop n segs := by
  have hflat := pull_flatten len segs
  have hle := pull_length len segs
  have hlive := pull_live len h
  have hdrop := fun n (hn : len ≤ n) => drop_pull hn h
  cases hp : pull len segs with
  | mk as segs' =>
      rw [hp] at hflat hle hlive hdrop
      cases as with
      | nil =>
          have hnil := pull_eq_nil hlen h (by rw [hp])
          subst hnil
          exact .inl ⟨rfl, hp.symm⟩
      | cons a as => exact .inr ⟨a, as, segs', rfl, hflat.symm, hle, hlive, hdrop⟩

end Segments

open Segments

/-! ### The reader -/

/-- What was pulled and not handed out, and the segments to come. -/
structure Feed (α : Type*) where
  ready : List α
  segs : List (List α)

namespace Feed

def stream (f : Feed α) : List α := f.ready ++ f.segs.flatten

def Live (f : Feed α) : Prop := Segments.Live f.segs

/-- Hand out one element; pull up to `len` when there is none. -/
def next (len : Nat) (f : Feed α) : Option (α × Feed α) :=
  match f.ready with
  | a :: rest => some (a, ⟨rest, f.segs⟩)
  | [] =>
      match pull len f.segs with
      | (a :: rest, segs) => some (a, ⟨rest, segs⟩)
      | ([], _) => none

/-- Hand out `n` elements. -/
def skip (len : Nat) : Nat → Feed α → Feed α
  | 0, f => f
  | n + 1, f =>
      match f.next len with
      | some (_, f) => skip len n f
      | none => f

/-- The elements come in the order of the stream. -/
theorem next_stream {len : Nat} {f : Feed α} {a : α} {rest : List α} (hlen : 1 ≤ len)
    (hf : f.Live) (h : f.stream = a :: rest) :
    ∃ f', f.next len = some (a, f') ∧ f'.stream = rest ∧ f'.Live := by
  obtain ⟨ready, segs⟩ := f
  cases ready with
  | cons b ready =>
      obtain ⟨rfl, hrest⟩ := List.cons.inj h
      exact ⟨⟨ready, segs⟩, rfl, hrest, hf⟩
  | nil =>
      have hsegs : segs.flatten = a :: rest := h
      have hflat := pull_flatten len segs
      cases hp : pull len segs with
      | mk bs segs' =>
          rw [hp, hsegs] at hflat
          have hlive : Segments.Live segs' := by
            have := pull_live len hf
            rwa [hp] at this
          cases bs with
          | nil =>
              have hnil : segs = [] := pull_eq_nil hlen hf (by rw [hp])
              rw [hnil] at hsegs
              cases hsegs
          | cons b bs =>
              obtain ⟨rfl, hrest⟩ := List.cons.inj hflat
              refine ⟨⟨bs, segs'⟩, ?_, hrest, hlive⟩
              simp only [next, hp]

theorem stream_eq_nil {f : Feed α} (hf : f.Live) (h : f.stream = []) :
    f.ready = [] ∧ f.segs = [] := by
  have hr := List.append_eq_nil_iff.mp h
  exact ⟨hr.1, Segments.Live.eq_nil hf hr.2⟩

/-- The segments are the whole stream only when nothing has been pulled. -/
theorem ready_eq_nil {f : Feed α} (h : f.segs.flatten.take f.stream.length = f.stream) :
    f.ready = [] := by
  have hlen := congrArg List.length h
  rw [List.length_take, stream, List.length_append] at hlen
  exact List.length_eq_zero_iff.mp (by omega)

/-- Taking the rest of the stream leaves no segment. -/
theorem drop_eq_nil {f : Feed α} {n : Nat} (hf : f.Live) (h : f.stream.length ≤ n) :
    Segments.drop (n - f.ready.length) f.segs = [] := by
  refine Segments.Live.eq_nil (drop_live _ hf) ?_
  rw [stream, List.length_append] at h
  rw [drop_flatten, List.drop_eq_nil_iff]
  omega

theorem skip_none {len : Nat} {f : Feed α} (h : f.next len = none) :
    ∀ n, f.skip len n = f := by
  intro n
  cases n with
  | zero => rfl
  | succ n => rw [skip.eq_2, h]

theorem skip_some {len : Nat} {f f' : Feed α} {a : α} (h : f.next len = some (a, f')) (n : Nat) :
    f.skip len (n + 1) = f'.skip len n := by
  rw [skip.eq_2, h]

theorem skip_stream {len : Nat} (hlen : 1 ≤ len) :
    ∀ (n : Nat) (f : Feed α), f.Live → n ≤ f.stream.length →
      (f.skip len n).stream = f.stream.drop n ∧ (f.skip len n).Live := by
  intro n
  induction n with
  | zero => intro f hf _; exact ⟨rfl, hf⟩
  | succ n ih =>
      intro f hf hn
      cases hs : f.stream with
      | nil => rw [hs] at hn; simp at hn
      | cons a rest =>
          obtain ⟨f', hnext, hrest, hlive⟩ := next_stream hlen hf hs
          rw [skip_some hnext, List.drop_succ_cons, ← hrest]
          refine ih f' hlive ?_
          rw [hs, List.length_cons] at hn
          rw [hrest]
          omega

theorem skip_append {len : Nat} {f : Feed α} {l rest : List α} (hlen : 1 ≤ len) (hf : f.Live)
    (h : f.stream = l ++ rest) : (f.skip len l.length).stream = rest := by
  have hle : l.length ≤ f.stream.length := by
    rw [h, List.length_append]
    omega
  rw [(skip_stream hlen l.length f hf hle).1, h, List.drop_left]

theorem skip_add (len : Nat) :
    ∀ (m n : Nat) (f : Feed α), f.skip len (m + n) = (f.skip len m).skip len n := by
  intro m
  induction m with
  | zero => intro n f; rw [Nat.zero_add]; rfl
  | succ m ih =>
      intro n f
      rw [show m + 1 + n = (m + n) + 1 by omega]
      cases h : f.next len with
      | none => rw [skip_none h, skip_none h, skip_none h]
      | some p =>
          obtain ⟨a, f'⟩ := p
          rw [skip_some h, skip_some h, ih]

end Feed
