/-
Saturating an ordered set while walking over it.

A `std::set` may grow under an iteration: the iterator goes on to the next larger
element of the set as it is by then.  So one sweep visits what is inserted ahead of
it and misses what is inserted behind, and a loop repeats the sweep until a whole one
has added nothing.

`saturate` is that loop for any linear order.  What a visit adds may depend on the
element visited and on nothing else (`Grows`).  Then a result is the least closed set
over the start (`saturate_least`), so the order of the visits leaves no trace in it,
and there is a result as soon as some finite closed set bounds the start
(`saturate_total`).
-/
import Mathlib.Data.Finset.Max
import Mathlib.Data.Finset.Card
import Mathlib.Tactic.Common

namespace Saturate

variable {α : Type*}

/-! ### Visits -/

/-- A visit of `x` adds `x` and `f x`. -/
def Grows [DecidableEq α] (visit : α → Finset α → Finset α) (f : α → Finset α) : Prop :=
  ∀ x s, visit x s = insert x s ∪ f x

/-- Visiting a member adds nothing. -/
def Closed (f : α → Finset α) (s : Finset α) : Prop :=
  ∀ x ∈ s, f x ⊆ s

/-- Visit the elements of a list in turn. -/
def visitAll (visit : α → Finset α → Finset α) (xs : List α) (s : Finset α) : Finset α :=
  xs.foldl (fun s x => visit x s) s

/-- `t` is the least closed set over `s`. -/
structure LeastClosed (f : α → Finset α) (s t : Finset α) : Prop where
  base : s ⊆ t
  closed : Closed f t
  least : ∀ u, s ⊆ u → Closed f u → t ⊆ u

/-- There is only one. -/
theorem LeastClosed.unique {f : α → Finset α} {s t t' : Finset α} (h : LeastClosed f s t)
    (h' : LeastClosed f s t') : t = t' :=
  Finset.Subset.antisymm (h.least t' h'.base h'.closed) (h'.least t h.base h.closed)

section Grows

variable [DecidableEq α] {visit : α → Finset α → Finset α} {f : α → Finset α}
  (hv : Grows visit f)
include hv

theorem Grows.subset (x : α) (s : Finset α) : s ⊆ visit x s := by
  rw [hv]
  exact (Finset.subset_insert x s).trans Finset.subset_union_left

theorem Grows.adds (x : α) (s : Finset α) : f x ⊆ visit x s := by
  rw [hv]
  exact Finset.subset_union_right

theorem Grows.mem (x : α) (s : Finset α) : x ∈ visit x s := by
  rw [hv]
  exact Finset.mem_union_left _ (Finset.mem_insert_self x s)

theorem Grows.bound {x : α} {s u : Finset α} (hs : s ⊆ u) (hx : x ∈ u) (hu : Closed f u) :
    visit x s ⊆ u := by
  rw [hv]
  exact Finset.union_subset (Finset.insert_subset hx hs) (hu x hx)

theorem visitAll_subset : ∀ (xs : List α) (s : Finset α), s ⊆ visitAll visit xs s := by
  intro xs
  induction xs with
  | nil => intro s; exact Finset.Subset.refl s
  | cons x xs ih => intro s; exact (hv.subset x s).trans (ih (visit x s))

theorem visitAll_mem : ∀ (xs : List α) (s : Finset α), ∀ x ∈ xs, x ∈ visitAll visit xs s := by
  intro xs
  induction xs with
  | nil => intro s x hx; cases hx
  | cons y xs ih =>
      intro s x hx
      rcases List.mem_cons.mp hx with rfl | hx
      · exact visitAll_subset hv xs (visit x s) (hv.mem x s)
      · exact ih (visit y s) x hx

theorem visitAll_bound {u : Finset α} (hu : Closed f u) :
    ∀ (xs : List α) (s : Finset α), s ⊆ u → (∀ x ∈ xs, x ∈ u) → visitAll visit xs s ⊆ u := by
  intro xs
  induction xs with
  | nil => intro s hs _; exact hs
  | cons x xs ih =>
      intro s hs hxs
      exact ih (visit x s) (hv.bound hs (hxs x List.mem_cons_self) hu)
        fun y hy => hxs y (List.mem_cons_of_mem x hy)

/-- Visiting the elements of a list first makes no difference to the least closed set. -/
theorem LeastClosed.of_visitAll {xs : List α} {t : Finset α}
    (h : LeastClosed f (visitAll visit xs ∅) t) : LeastClosed f xs.toFinset t := by
  refine ⟨?_, h.closed, ?_⟩
  · intro x hx
    exact h.base (visitAll_mem hv xs ∅ x (List.mem_toFinset.mp hx))
  · intro u hs hu
    refine h.least u (visitAll_bound hv hu xs ∅ (Finset.empty_subset u) fun x hx => ?_) hu
    exact hs (List.mem_toFinset.mpr hx)

end Grows

/-! ### Walks -/

section Walk

variable [LinearOrder α]

/-- The smallest element, where `begin()` points. -/
def least (s : Finset α) : Option α :=
  if h : s.Nonempty then some (s.min' h) else none

/-- Visit `x`, and go on with the next larger element. -/
def walk (visit : α → Finset α → Finset α) : Nat → α → Finset α → Option (Finset α)
  | 0, _, _ => none
  | n + 1, x, s =>
      match least ((visit x s).filter (x < ·)) with
      | none => some (visit x s)
      | some y => walk visit n y (visit x s)

/-- One sweep over the whole set. -/
def sweep (visit : α → Finset α → Finset α) (n : Nat) (s : Finset α) : Option (Finset α) :=
  match least s with
  | none => some s
  | some x => walk visit n x s

/-- Sweep until the size stays the same. -/
def saturate (visit : α → Finset α → Finset α) (n : Nat) : Nat → Finset α → Option (Finset α)
  | 0, _ => none
  | k + 1, s => do
      let t ← sweep visit n s
      if s.card = t.card then some t else saturate visit n k t

theorem least_eq_none {s : Finset α} : least s = none ↔ s = ∅ := by
  unfold least
  by_cases h : s.Nonempty
  · simp [h, h.ne_empty]
  · simp [Finset.not_nonempty_iff_eq_empty.mp h]

theorem least_mem {s : Finset α} {x : α} (h : least s = some x) : x ∈ s := by
  unfold least at h
  by_cases hne : s.Nonempty
  · rw [dif_pos hne] at h
    rw [← Option.some.inj h]
    exact s.min'_mem hne
  · rw [dif_neg hne] at h
    cases h

theorem least_le {s : Finset α} {x y : α} (h : least s = some x) (hy : y ∈ s) : x ≤ y := by
  unfold least at h
  rw [dif_pos ⟨y, hy⟩] at h
  rw [← Option.some.inj h]
  exact s.min'_le y hy

variable [DecidableEq α] {visit : α → Finset α → Finset α} {f : α → Finset α}
  (hv : Grows visit f)
include hv

theorem walk_subset :
    ∀ (n : Nat) (x : α) (s t : Finset α), walk visit n x s = some t → visit x s ⊆ t := by
  intro n
  induction n with
  | zero => intro x s t h; cases h
  | succ n ih =>
      intro x s t h
      unfold walk at h
      cases hy : least ((visit x s).filter (x < ·)) with
      | none =>
          rw [hy] at h
          obtain rfl := Option.some.inj h
          exact Finset.Subset.refl _
      | some y =>
          rw [hy] at h
          exact (hv.subset y _).trans (ih y _ t h)

/-- Every element that was there at the start, from `x` on, is visited. -/
theorem walk_visits :
    ∀ (n : Nat) (x : α) (s t : Finset α), walk visit n x s = some t →
      ∀ y ∈ s, x ≤ y → f y ⊆ t := by
  intro n
  induction n with
  | zero => intro x s t h; cases h
  | succ n ih =>
      intro x s t h y hy hxy
      have hsub := walk_subset hv (n + 1) x s t h
      rcases eq_or_lt_of_le hxy with rfl | hlt
      · exact (hv.adds x s).trans hsub
      · have hmem : y ∈ (visit x s).filter (x < ·) :=
          Finset.mem_filter.mpr ⟨hv.subset x s hy, hlt⟩
        unfold walk at h
        cases hz : least ((visit x s).filter (x < ·)) with
        | none =>
            rw [least_eq_none.mp hz] at hmem
            exact absurd hmem (Finset.notMem_empty y)
        | some z =>
            rw [hz] at h
            exact ih z _ t h y (hv.subset x s hy) (least_le hz hmem)

theorem walk_bound :
    ∀ (n : Nat) (x : α) (s t u : Finset α), walk visit n x s = some t →
      s ⊆ u → x ∈ u → Closed f u → t ⊆ u := by
  intro n
  induction n with
  | zero => intro x s t u h; cases h
  | succ n ih =>
      intro x s t u h hs hx hu
      have hbound := hv.bound hs hx hu
      unfold walk at h
      cases hy : least ((visit x s).filter (x < ·)) with
      | none =>
          rw [hy] at h
          obtain rfl := Option.some.inj h
          exact hbound
      | some y =>
          rw [hy] at h
          exact ih y _ t u h hbound (hbound (Finset.mem_of_mem_filter y (least_mem hy))) hu

/-- A walk goes upwards, so it ends when the bounding set has run out. -/
theorem walk_total {u : Finset α} (hu : Closed f u) :
    ∀ (n : Nat) (x : α) (s : Finset α), s ⊆ u → x ∈ u → (u.filter (x ≤ ·)).card ≤ n →
      ∃ t, walk visit n x s = some t := by
  intro n
  induction n with
  | zero =>
      intro x s _ hx hcard
      have hmem : x ∈ u.filter (x ≤ ·) := Finset.mem_filter.mpr ⟨hx, le_refl x⟩
      have := Finset.card_pos.mpr ⟨x, hmem⟩
      omega
  | succ n ih =>
      intro x s hs hx hcard
      have hbound := hv.bound hs hx hu
      unfold walk
      cases hy : least ((visit x s).filter (x < ·)) with
      | none => exact ⟨_, rfl⟩
      | some y =>
          have hmem := Finset.mem_filter.mp (least_mem hy)
          refine ih y _ hbound (hbound hmem.1) ?_
          have hlt : (u.filter (y ≤ ·)).card < (u.filter (x ≤ ·)).card := by
            apply Finset.card_lt_card
            refine ⟨?_, ?_⟩
            · intro z hz
              have := Finset.mem_filter.mp hz
              exact Finset.mem_filter.mpr ⟨this.1, hmem.2.le.trans this.2⟩
            · intro hsub
              have := Finset.mem_filter.mp (hsub (Finset.mem_filter.mpr ⟨hx, le_refl x⟩))
              exact absurd hmem.2 (not_lt.mpr this.2)
          omega

/-! ### Sweeps and saturation -/

theorem sweep_subset {n : Nat} {s t : Finset α} (h : sweep visit n s = some t) : s ⊆ t := by
  unfold sweep at h
  cases hx : least s with
  | none =>
      rw [hx] at h
      rw [Option.some.inj h]
  | some x =>
      rw [hx] at h
      exact (hv.subset x s).trans (walk_subset hv n x s t h)

theorem sweep_visits {n : Nat} {s t : Finset α} (h : sweep visit n s = some t) :
    ∀ y ∈ s, f y ⊆ t := by
  intro y hy
  unfold sweep at h
  cases hx : least s with
  | none =>
      rw [least_eq_none.mp hx] at hy
      exact absurd hy (Finset.notMem_empty y)
  | some x =>
      rw [hx] at h
      exact walk_visits hv n x s t h y hy (least_le hx hy)

theorem sweep_bound {n : Nat} {s t u : Finset α} (h : sweep visit n s = some t) (hs : s ⊆ u)
    (hu : Closed f u) : t ⊆ u := by
  unfold sweep at h
  cases hx : least s with
  | none =>
      rw [hx] at h
      rwa [← Option.some.inj h]
  | some x =>
      rw [hx] at h
      exact walk_bound hv n x s t u h hs (hs (least_mem hx)) hu

theorem sweep_total {n : Nat} {s u : Finset α} (hs : s ⊆ u) (hu : Closed f u) (hn : u.card ≤ n) :
    ∃ t, sweep visit n s = some t := by
  unfold sweep
  cases hx : least s with
  | none => exact ⟨s, rfl⟩
  | some x =>
      exact walk_total hv hu n x s hs (hs (least_mem hx))
        (le_trans (Finset.card_filter_le u _) hn)

/-- **A result is the least closed set over the start.** -/
theorem saturate_least {n : Nat} :
    ∀ (k : Nat) (s t : Finset α), saturate visit n k s = some t → LeastClosed f s t := by
  intro k
  induction k with
  | zero => intro s t h; cases h
  | succ k ih =>
      intro s t h
      unfold saturate at h
      cases hsw : sweep visit n s with
      | none => simp [hsw] at h
      | some r =>
          have hsub := sweep_subset hv hsw
          simp only [hsw, Option.bind_eq_bind, Option.bind_some] at h
          by_cases hcard : s.card = r.card
          · rw [if_pos hcard] at h
            obtain rfl := Option.some.inj h
            -- No sweep adds to the set without changing its size.
            obtain rfl := Finset.eq_of_subset_of_card_le hsub hcard.ge
            exact ⟨hsub, sweep_visits hv hsw, fun u hs _ => hs⟩
          · rw [if_neg hcard] at h
            have hrest := ih r t h
            exact ⟨hsub.trans hrest.base, hrest.closed,
              fun u hs hu => hrest.least u (sweep_bound hv hsw hs hu) hu⟩

/-- **There is a result** once `n` and `k` exceed the size of a closed set over the start. -/
theorem saturate_total {n : Nat} {u : Finset α} (hu : Closed f u) (hn : u.card ≤ n) :
    ∀ (k : Nat) (s : Finset α), s ⊆ u → u.card < s.card + k →
      ∃ t, saturate visit n k s = some t := by
  intro k
  induction k with
  | zero =>
      intro s hs hk
      have := Finset.card_le_card hs
      omega
  | succ k ih =>
      intro s hs hk
      obtain ⟨r, hr⟩ := sweep_total hv hs hu hn
      have hsub := Finset.card_le_card (sweep_subset hv hr)
      unfold saturate
      simp only [hr, Option.bind_eq_bind, Option.bind_some]
      by_cases hcard : s.card = r.card
      · rw [if_pos hcard]
        exact ⟨r, rfl⟩
      · rw [if_neg hcard]
        exact ih r (sweep_bound hv hr hs hu) (by omega)

end Walk

end Saturate
