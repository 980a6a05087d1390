/-
Nodes that own objects.

`Sound` is the invariant of a program: every object is held by one node, of which the type has the
size that was allocated, no node holds what is gone, and the counts differ by what is live.
`reset` releases what a node holds, from the inside out, and leaves everything else alone; `take`
moves what one node holds to another.
-/
import LinuxUtil.Tlibc.Node
import LinuxUtil.Lib.Except
import LinuxUtil.Lib.Ownership
import LinuxUtil.Proofs.Malloc.Runs

namespace LinuxUtil.Malloc

open Ownership

/-! ### Places -/

/-- The object a place is in. -/
def Place.home : Place → Option Nat
  | .var _ => none
  | .member a _ => some a

namespace Program

variable {p p' : Program} {q q' : Place} {n : Node}

/-- What the node at a place holds. -/
def holds (p : Program) (q : Place) : Option Nat :=
  (p.node q).bind fun n => if n.value_ = 0 then none else some n.value_

theorem holds_eq_some (hn : p.node q = some n) (h0 : n.value_ ≠ 0) : p.holds q = some n.value_ := by
  unfold holds
  rw [hn, Option.bind_some, if_neg h0]

theorem holds_eq_none (hn : p.node q = some n) (h0 : n.value_ = 0) : p.holds q = none := by
  unfold holds
  rw [hn, Option.bind_some, if_pos h0]

theorem exists_node {v : Nat} (h : p.holds q = some v) : ∃ n, p.node q = some n ∧ n.value_ = v ∧ v ≠ 0 := by
  obtain ⟨n, hn, hv⟩ := Option.bind_eq_some_iff.mp h
  split at hv
  · cases hv
  · rename_i h0
    obtain rfl := Option.some.inj hv
    exact ⟨n, hn, rfl, h0⟩

theorem holds_congr (h : p'.node q = p.node q) : p'.holds q = p.holds q := by
  unfold holds
  rw [h]

theorem object_of_node {a : Nat} (hhome : q.home = some a) (h : p.node q ≠ none) :
    (p.objects a).isSome = true := by
  cases q with
  | var i => cases hhome
  | member b k =>
      obtain rfl := Option.some.inj hhome
      cases hobj : p.objects b with
      | none =>
          have hnone : p.node (.member b k) = none := by simp [node, hobj]
          exact absurd hnone h
      | some ns => rfl

@[simp] theorem setValue_sys (v : Nat) (q : Place) : (p.setValue v q).sys = p.sys := by cases q <;> rfl

@[simp] theorem setValue_alloc_size (v : Nat) (q : Place) : (p.setValue v q).alloc_size = p.alloc_size := by
  cases q <;> rfl

@[simp] theorem setValue_free_size (v : Nat) (q : Place) : (p.setValue v q).free_size = p.free_size := by
  cases q <;> rfl

@[simp] theorem setValue_isSome (v : Nat) (q : Place) (a : Nat) :
    ((p.setValue v q).objects a).isSome = (p.objects a).isSome := by
  cases q with
  | var i => rfl
  | member b k =>
      by_cases hab : a = b
      · subst hab
        simp [setValue]
      · simp [setValue, Function.update_of_ne hab]

theorem node_setValue_self (v : Nat) (q : Place) :
    (p.setValue v q).node q = (p.node q).map fun n => { n with value_ := v } := by
  cases q with
  | var i => simp [setValue, node]
  | member a k =>
      cases hobj : p.objects a with
      | none => simp [setValue, node, hobj]
      | some ns => simp [setValue, node, hobj]

theorem node_setValue_of_ne (v : Nat) (hne : q' ≠ q) : (p.setValue v q).node q' = p.node q' := by
  cases q with
  | var i =>
      cases q' with
      | var j =>
          have hij : j ≠ i := fun h => hne (by rw [h])
          simp [setValue, node, Function.update_of_ne hij]
      | member b l => rfl
  | member a k =>
      cases q' with
      | var j => rfl
      | member b l =>
          by_cases hab : b = a
          · subst hab
            have hkl : k ≠ l := fun h => hne (by rw [h])
            cases hobj : p.objects b with
            | none => simp [setValue, node, hobj]
            | some ns => simp [setValue, node, hobj, hkl]
          · simp [setValue, node, Function.update_of_ne hab]

theorem holds_setValue_zero (q : Place) : (p.setValue 0 q).holds = Function.update p.holds q none := by
  funext q'
  by_cases hq : q' = q
  · subst hq
    rw [Function.update_self]
    unfold holds
    rw [node_setValue_self]
    cases p.node q' <;> rfl
  · rw [Function.update_of_ne hq]
    exact holds_congr (node_setValue_of_ne 0 hq)

theorem holds_setValue {v : Nat} (hn : p.node q = some n) (hv : v ≠ 0) :
    (p.setValue v q).holds = Function.update p.holds q (some v) := by
  funext q'
  by_cases hq : q' = q
  · subst hq
    rw [Function.update_self]
    refine holds_eq_some (n := { n with value_ := v }) ?_ hv
    rw [node_setValue_self, hn]
    rfl
  · rw [Function.update_of_ne hq]
    exact holds_congr (node_setValue_of_ne v hq)

/-! ### The invariant -/

/-- What is live, in bytes asked for. -/
def sizes : List Block → UInt64
  | [] => 0
  | b :: live => UInt64.ofNat (b.cpp.getD 0) + sizes live

/-- Every object is held once, by a node of the right type. -/
structure Sound (p : Program) (rank : Nat → Nat) : Prop where
  forest : Forest Place.home (fun a => (p.objects a).isSome = true) p.holds rank
  typed : ∀ {q n}, p.node q = some n → n.value_ ≠ 0 →
    ∃ b ∈ p.sys.live, b.addr = n.value_ ∧ b.cpp = some n.size
  blocks : ∀ b ∈ p.sys.live, (p.objects b.addr).isSome = true
  heap : Inv p.sys.heap p.sys.live
  counted : p.alloc_size = p.free_size + sizes p.sys.live

theorem sizes_release {live : List Block} {b : Block} (hnd : (addrs live).Nodup) (hb : b ∈ live) :
    sizes live = UInt64.ofNat (b.cpp.getD 0) + sizes (System.release live b.addr) := by
  induction live with
  | nil => cases hb
  | cons c live ih =>
      obtain ⟨hc, hrest⟩ := List.nodup_cons.mp hnd
      have hcons : sizes (c :: live) = UInt64.ofNat (c.cpp.getD 0) + sizes live := rfl
      rw [hcons]
      rcases List.mem_cons.mp hb with rfl | hb
      · have hall : System.release (b :: live) b.addr = live := by
          unfold System.release
          rw [List.filter_cons_of_neg (by simp), List.filter_eq_self]
          intro l hl
          have hne : l.addr ≠ b.addr := fun h => hc (h ▸ List.mem_map_of_mem hl)
          simpa using hne
        rw [hall]
      · have hne : c.addr ≠ b.addr := fun h => hc (h ▸ List.mem_map_of_mem hb)
        have hkeep : System.release (c :: live) b.addr = c :: System.release live b.addr :=
          List.filter_cons_of_pos (by simpa using hne)
        have hcons' : sizes (c :: System.release live b.addr)
            = UInt64.ofNat (c.cpp.getD 0) + sizes (System.release live b.addr) := rfl
        rw [hkeep, hcons', ih hrest hb, ← UInt64.add_assoc, ← UInt64.add_assoc,
          UInt64.add_comm (UInt64.ofNat (c.cpp.getD 0))]

variable {rank : Nat → Nat}

theorem Sound.dead (h : Sound p rank) {v : Nat} (hv : (p.objects v).isSome ≠ true) : p.holds q ≠ some v :=
  fun hq => hv ((h.forest.held v).mpr ⟨q, hq⟩)

/-- The nodes of a program whose object `v` is gone. -/
theorem node_erase {v : Nat} {ps : Program} (hobj : ps.objects = Function.update p.objects v none)
    (hvars : ps.vars = p.vars) (q : Place) : ps.node q = if q.home = some v then none else p.node q := by
  cases q with
  | var i =>
      rw [if_neg (by simp [Place.home])]
      exact congrFun hvars i
  | member a k =>
      by_cases hav : a = v
      · subst hav
        simp [node, hobj, Place.home]
      · have hne : (Place.member a k).home ≠ some v := fun h => hav (Option.some.inj h)
        rw [if_neg hne]
        simp [node, hobj, Function.update_of_ne hav]

/-! ### Releasing -/

/-- What is left when a node has been released. -/
structure Released (p : Program) (q : Place) (n : Node) (rank : Nat → Nat) (p' : Program) : Prop where
  sound : Sound p' rank
  null : p'.node q = some { n with value_ := 0 }
  shrinks : ∀ {q' n'}, p'.node q' = some n' → n'.value_ ≠ 0 → p.node q' = some n'
  frame : ∀ {q'}, q' ≠ q → (∀ {v}, p.holds q = some v → ¬ Inside Place.home p.holds v q') →
    p'.node q' = p.node q'

/-- An object that holds nothing any more. -/
theorem Sound.free (h : Sound p rank) (hn : p.node q = some n) (h0 : n.value_ ≠ 0)
    (hleaf : ∀ {k}, Place.home k = some n.value_ → p.holds k = none) :
    ∃ p', p.free n.value_ n.size = .ok p' ∧ Released p q n rank (p'.setValue 0 q) := by
  have hq := holds_eq_some hn h0
  obtain ⟨b, hb, haddr, hcpp⟩ := h.typed hn h0
  obtain ⟨heap, hfree, hheap, -⟩ := h.heap.cppFree hb hcpp
  obtain ⟨σ, hL⟩ := h.heap.layout
  rw [haddr] at hfree hheap
  have hself : q.home ≠ some n.value_ := fun hhome => h.forest.not_inside hq ⟨_, hhome, .refl⟩
  obtain ⟨p₁, hp₁⟩ : ∃ p₁ : Program, p₁ = ⟨⟨heap, System.release p.sys.live n.value_⟩,
    Function.update p.objects n.value_ none, p.vars, p.alloc_size,
    p.free_size + UInt64.ofNat n.size⟩ := ⟨_, rfl⟩
  have hnode : ∀ k, p₁.node k = if Place.home k = some n.value_ then none else p.node k :=
    node_erase (by rw [hp₁]) (by rw [hp₁])
  have hobjects : ∀ a, (p₁.objects a).isSome = true ↔ (p.objects a).isSome = true ∧ a ≠ n.value_ := by
    intro a
    rw [hp₁]
    by_cases ha : a = n.value_
    · simp [ha]
    · simp [ha]
  have hholds₁ : p₁.holds = p.holds := by
    funext k
    by_cases hk : Place.home k = some n.value_
    · rw [hleaf hk]
      unfold holds
      rw [hnode, if_pos hk]
      rfl
    · exact holds_congr (by rw [hnode, if_neg hk])
  have hforest : Forest Place.home (fun a => ((p₁.setValue 0 q).objects a).isSome = true)
      (p₁.setValue 0 q).holds rank := by
    have hobj : (fun a => ((p₁.setValue 0 q).objects a).isSome = true)
        = fun a => (p.objects a).isSome = true ∧ a ≠ n.value_ := by
      funext a
      rw [setValue_isSome]
      exact propext (hobjects a)
    rw [hobj, holds_setValue_zero, hholds₁]
    exact h.forest.release hq hleaf
  have hshrinks : ∀ {q' n'}, (p₁.setValue 0 q).node q' = some n' → n'.value_ ≠ 0 → p.node q' = some n' := by
    intro q' n' hn' h0'
    by_cases hqq : q' = q
    · rw [hqq, node_setValue_self] at hn'
      obtain ⟨n'', -, rfl⟩ := Option.map_eq_some_iff.mp hn'
      exact absurd rfl h0'
    · rw [node_setValue_of_ne 0 hqq, hnode] at hn'
      split at hn'
      · cases hn'
      · exact hn'
  refine ⟨p₁, ?_, ⟨⟨hforest, ?_, ?_, ?_, ?_⟩, ?_, hshrinks, ?_⟩⟩
  · have hstep : p.sys.step (.cppFree n.value_ n.size)
        = .ok ⟨heap, System.release p.sys.live n.value_⟩ := by
      change (p.sys.heap.cppFree n.value_ n.size >>= _) = _
      rw [hfree]
      rfl
    unfold Program.free
    rw [hstep, hp₁]
    rfl
  · intro q' n' hn' h0'
    have hheld : (p₁.setValue 0 q).holds q' = some n'.value_ := holds_eq_some hn' h0'
    have hlive := (hobjects n'.value_).mp (by
      rw [← setValue_isSome 0 q]
      exact (hforest.held _).mpr ⟨q', hheld⟩)
    obtain ⟨b', hb', haddr', hcpp'⟩ := h.typed (hshrinks hn' h0') h0'
    refine ⟨b', ?_, haddr', hcpp'⟩
    rw [setValue_sys, hp₁]
    exact mem_release.mpr ⟨hb', by rw [haddr']; exact hlive.2⟩
  · intro b' hb'
    rw [setValue_sys, hp₁] at hb'
    obtain ⟨hmem, hne⟩ := mem_release.mp hb'
    rw [setValue_isSome]
    exact (hobjects _).mpr ⟨h.blocks b' hmem, hne⟩
  · rw [setValue_sys, hp₁]
    exact hheap
  · have hsizes := sizes_release hL.live_nodup hb
    rw [hcpp, haddr] at hsizes
    rw [setValue_alloc_size, setValue_free_size, setValue_sys, hp₁]
    change p.alloc_size = _
    rw [h.counted, hsizes, UInt64.add_assoc]
    rfl
  · rw [node_setValue_self, hnode, if_neg hself, hn]
    rfl
  · intro q' hne hout
    rw [node_setValue_of_ne 0 hne, hnode, if_neg fun hhome => hout hq ⟨_, hhome, .refl⟩]

theorem Released.holds_mono (h : Released p q n rank p') {q' : Place} {v : Nat} (hv : p'.holds q' = some v) :
    p.holds q' = some v := by
  obtain ⟨n', hn', rfl, h0⟩ := exists_node hv
  exact holds_eq_some (h.shrinks hn' h0) h0

/-- What is left when the first `k` members of an object have been released. -/
structure Emptied (p : Program) (a k : Nat) (rank : Nat → Nat) (p' : Program) : Prop where
  sound : Sound p' rank
  null : ∀ j, j < k → p'.holds (.member a j) = none
  shrinks : ∀ {q' n'}, p'.node q' = some n' → n'.value_ ≠ 0 → p.node q' = some n'
  rest : ∀ j, k ≤ j → p'.node (.member a j) = p.node (.member a j)
  frame : ∀ {q'}, ¬ Inside Place.home p.holds a q' → p'.node q' = p.node q'

/-- `resetMembers`, when `reset` does what it should on what is ranked below the object. -/
theorem resetMembers_spec {reset : Nat → Place → Program → Except Fault Program} {rounds a : Nat}
    (hreset : ∀ {p : Program} {q : Place} {n : Node}, Sound p rank → p.node q = some n →
      (∀ {v}, p.holds q = some v → rank v < rank a) →
      ∃ p', (∀ fuel, rounds ≤ fuel → reset fuel q p = .ok p') ∧ Released p q n rank p') :
    ∀ (k : Nat) {p : Program}, Sound p rank → (∀ j, j < k → ∃ n, p.node (.member a j) = some n) →
      ∃ p', (∀ fuel, rounds ≤ fuel → resetMembers (reset fuel) a k p = .ok p') ∧ Emptied p a k rank p' := by
  intro k
  induction k with
  | zero =>
      intro p hp _
      exact ⟨p, fun _ _ => rfl, hp, fun j hj => absurd hj (Nat.not_lt_zero j), fun h _ => h, fun _ _ => rfl,
        fun _ => rfl⟩
  | succ k ih =>
      intro p hp hmembers
      obtain ⟨n, hn⟩ := hmembers k (Nat.lt_succ_self k)
      have hlower : ∀ {v}, p.holds (.member a k) = some v → rank v < rank a := fun hv =>
        hp.forest.lower rfl hv
      obtain ⟨p₁, hrun₁, hr⟩ := hreset hp hn hlower
      -- the other members of the object are not inside of what is released
      have hsame : ∀ j, j ≠ k → p₁.node (.member a j) = p.node (.member a j) := by
        intro j hj
        refine hr.frame (fun h => hj (by cases h; rfl)) fun {v} hv hin => ?_
        obtain ⟨b, hhome, hvb⟩ := hin
        obtain rfl := Option.some.inj hhome
        have hle := hp.forest.rank_le hvb
        have hlt := hlower hv
        omega
      obtain ⟨p₂, hrun₂, he⟩ := ih hr.sound fun j hj => by
        rw [hsame j (by omega)]
        exact hmembers j (by omega)
      refine ⟨p₂, fun fuel hfuel => ?_, he.sound, ?_, ?_, ?_, ?_⟩
      · unfold resetMembers
        rw [hrun₁ fuel hfuel, Except.ok_bind]
        exact hrun₂ fuel hfuel
      · intro j hj
        by_cases hjk : j = k
        · subst hjk
          refine holds_eq_none ((he.rest j (Nat.le_refl j)).trans hr.null) rfl
        · exact he.null j (by omega)
      · exact fun hn' h0' => hr.shrinks (he.shrinks hn' h0') h0'
      · intro j hj
        rw [he.rest j (by omega), hsame j (by omega)]
      · intro q' hout
        have hout₁ : ¬ Inside Place.home p₁.holds a q' := fun hin => hout (hin.mono hr.holds_mono)
        rw [he.frame hout₁]
        refine hr.frame (fun h => hout (h ▸ ⟨a, rfl, .refl⟩)) fun {v} hv hin => hout ?_
        obtain ⟨b, hhome, hvb⟩ := hin
        exact ⟨b, hhome, .head ⟨.member a k, rfl, hv⟩ hvb⟩

/-- A node that holds nothing. -/
theorem reset_null (hp : Sound p rank) (hn : p.node q = some n) (h0 : n.value_ = 0) (fuel : Nat) :
    reset (fuel + 1) q p = .ok p ∧ Released p q n rank p := by
  refine ⟨?_, hp, ?_, fun h _ => h, fun _ _ => rfl⟩
  · unfold reset look
    rw [hn]
    exact if_pos h0
  · rw [hn, ← h0]

theorem reset_some {ns : List Node} (hn : p.node q = some n) (h0 : n.value_ ≠ 0)
    (hobj : p.objects n.value_ = some ns) (fuel : Nat) : reset (fuel + 1) q p
      = (do
          let p ← resetMembers (reset fuel) n.value_ ns.length p
          let p ← p.free n.value_ n.size
          return p.setValue 0 q) := by
  have hlook : p.look q = .ok n := by
    unfold look
    rw [hn]
  rw [reset, hlook, Except.ok_bind, if_neg h0, hobj]

theorem node_member {a : Nat} {ns : List Node} (hobj : p.objects a = some ns) (k : Nat) :
    p.node (.member a k) = ns[k]? := by
  simp [node, hobj]

/-- **`reset`**: what the node holds is released, with everything that is inside of it, and nothing
else changes. -/
theorem reset_spec : ∀ (rounds : Nat) {p : Program} {q : Place} {n : Node}, Sound p rank →
    p.node q = some n → (∀ {v}, p.holds q = some v → rank v < rounds) →
    ∃ p', (∀ fuel, rounds + 1 ≤ fuel → reset fuel q p = .ok p') ∧ Released p q n rank p' := by
  intro rounds
  induction rounds with
  | zero =>
      intro p q n hp hn hrank
      have h0 : n.value_ = 0 := by
        by_contra h0
        exact Nat.not_lt_zero _ (hrank (holds_eq_some hn h0))
      refine ⟨p, fun fuel hfuel => ?_, (reset_null hp hn h0 0).2⟩
      obtain ⟨fuel, rfl⟩ := Nat.exists_eq_add_of_le' hfuel
      exact (reset_null hp hn h0 fuel).1
  | succ rounds ih =>
      intro p q n hp hn hrank
      by_cases h0 : n.value_ = 0
      · refine ⟨p, fun fuel hfuel => ?_, (reset_null hp hn h0 0).2⟩
        obtain ⟨fuel, rfl⟩ := Nat.exists_eq_add_of_le' (Nat.le_trans (Nat.le_add_left 1 (rounds + 1)) hfuel)
        exact (reset_null hp hn h0 fuel).1
      · have hq := holds_eq_some hn h0
        obtain ⟨ns, hobj⟩ := Option.isSome_iff_exists.mp ((hp.forest.held _).mpr ⟨q, hq⟩)
        have hinner : ∀ {p₁ : Program} {k : Place} {m : Node}, Sound p₁ rank → p₁.node k = some m →
            (∀ {v}, p₁.holds k = some v → rank v < rank n.value_) →
            ∃ p₂, (∀ fuel, rounds + 1 ≤ fuel → reset fuel k p₁ = .ok p₂) ∧ Released p₁ k m rank p₂ :=
          fun hp₁ hm hlt => ih hp₁ hm fun hv => Nat.lt_of_lt_of_le (hlt hv) (Nat.le_of_lt_succ (hrank hq))
        obtain ⟨p₁, hrun₁, he⟩ := resetMembers_spec hinner ns.length hp fun j hj =>
          ⟨ns[j], by rw [node_member hobj, List.getElem?_eq_getElem hj]⟩
        have hout : ¬ Inside Place.home p.holds n.value_ q := hp.forest.not_inside hq
        have hn₁ : p₁.node q = some n := (he.frame hout).trans hn
        have hleaf : ∀ {k}, Place.home k = some n.value_ → p₁.holds k = none := by
          intro k hk
          cases k with
          | var i => cases hk
          | member a k =>
              obtain rfl := Option.some.inj hk
              by_cases hlt : k < ns.length
              · exact he.null k hlt
              · unfold holds
                rw [he.rest k (by omega), node_member hobj, List.getElem?_eq_none (by omega)]
                rfl
        obtain ⟨p₂, hfree, hr⟩ := he.sound.free hn₁ h0 hleaf
        have hmono : ∀ {k v}, p₁.holds k = some v → p.holds k = some v := by
          intro k v hv
          obtain ⟨n', hn', rfl, h0'⟩ := exists_node hv
          exact holds_eq_some (he.shrinks hn' h0') h0'
        refine ⟨p₂.setValue 0 q, fun fuel hfuel => ?_, hr.sound, hr.null,
          fun hn' h0' => he.shrinks (hr.shrinks hn' h0') h0', fun {q'} hne hin => ?_⟩
        · obtain ⟨fuel, rfl⟩ := Nat.exists_eq_add_of_le' (Nat.le_trans (Nat.le_add_left 1 (rounds + 1)) hfuel)
          rw [reset_some hn h0 hobj, hrun₁ fuel (by omega), Except.ok_bind, hfree]
          rfl
        · rw [hr.frame hne fun {v} hv hin' => hin (hmono hv) (hin'.mono hmono), he.frame (hin hq)]

/-! ### Moving -/

/-- A node has taken over from another. -/
structure Took (p : Program) (dst src : Place) (p' : Program) : Prop where
  sound : ∃ rank, Sound p' rank
  sizes : ∀ q, (p'.node q).map Node.size = (p.node q).map Node.size
  same : ∀ {q}, q ≠ dst → q ≠ src → p'.node q = p.node q

theorem setValue_sizes (v : Nat) (q q' : Place) :
    ((p.setValue v q).node q').map Node.size = (p.node q').map Node.size := by
  by_cases hq : q' = q
  · subst hq
    rw [node_setValue_self]
    cases p.node q' <;> rfl
  · rw [node_setValue_of_ne v hq]

/-- A sound program stays sound when the forest does and the types are right. -/
theorem Sound.setValues (hp : Sound p rank) {rank' : Nat → Nat} {v w : Nat} {dst src : Place}
    (hforest : Forest Place.home (fun a => (p.objects a).isSome = true)
      ((p.setValue v dst).setValue w src).holds rank')
    (htyped : ∀ {q n}, ((p.setValue v dst).setValue w src).node q = some n → n.value_ ≠ 0 →
      ∃ q' n', p.node q' = some n' ∧ n'.value_ = n.value_ ∧ n'.size = n.size) :
    Sound ((p.setValue v dst).setValue w src) rank' where
  forest := by simpa using hforest
  typed := by
    intro q n hn h0
    obtain ⟨q', n', hn', hvalue, hsize⟩ := htyped hn h0
    obtain ⟨b, hb, haddr, hcpp⟩ := hp.typed hn' (by rwa [hvalue])
    rw [setValue_sys, setValue_sys]
    exact ⟨b, hb, haddr.trans hvalue, by rw [hcpp, hsize]⟩
  blocks := by simpa using hp.blocks
  heap := by simpa using hp.heap
  counted := by simpa using hp.counted

theorem take_eq (hn : p.node q' = some n) (dst : Place) :
    p.take dst q' = .ok ((p.setValue n.value_ dst).setValue 0 q') := by
  unfold take look
  rw [hn]
  rfl

/-- **`value_ = other.value_; other.value_ = nullptr`**, where the node is not inside of what it takes. -/
theorem take_spec (hp : Sound p rank) {dst src : Place} {d : Node} (hd : p.node dst = some d)
    (h0 : d.value_ = 0)
    (hn : p.node src = some n) (hsize : n.size = d.size)
    (hout : ∀ {v}, p.holds src = some v → ¬ Inside Place.home p.holds v dst) :
    ∃ p', p.take dst src = .ok p' ∧ Took p dst src p' := by
  refine ⟨(p.setValue n.value_ dst).setValue 0 src, take_eq hn dst, ?_, fun q => ?_, fun hd' hs' => ?_⟩
  · have htyped : ∀ {q m}, ((p.setValue n.value_ dst).setValue 0 src).node q = some m → m.value_ ≠ 0 →
        ∃ q' n', p.node q' = some n' ∧ n'.value_ = m.value_ ∧ n'.size = m.size := by
      intro q m hm hm0
      by_cases hqs : q = src
      · rw [hqs, node_setValue_self] at hm
        obtain ⟨m', -, rfl⟩ := Option.map_eq_some_iff.mp hm
        exact absurd rfl hm0
      · rw [node_setValue_of_ne 0 hqs] at hm
        by_cases hqd : q = dst
        · rw [hqd, node_setValue_self, hd] at hm
          obtain rfl := Option.some.inj hm
          exact ⟨src, n, hn, rfl, hsize⟩
        · rw [node_setValue_of_ne _ hqd] at hm
          exact ⟨q, m, hm, rfl, rfl⟩
    have hdst := holds_eq_none hd h0
    by_cases hv : n.value_ = 0
    · have hsame : ((p.setValue n.value_ dst).setValue 0 src).holds = p.holds := by
        have hd' : Function.update p.holds dst none = p.holds := Function.update_eq_self_iff.mpr hdst.symm
        rw [holds_setValue_zero, hv, holds_setValue_zero, hd']
        exact Function.update_eq_self_iff.mpr (holds_eq_none hn hv).symm
      exact ⟨rank, hp.setValues (by rw [hsame]; exact hp.forest) htyped⟩
    · obtain ⟨rank', hforest⟩ := hp.forest.move (holds_eq_some hn hv) hdst (hout (holds_eq_some hn hv))
      exact ⟨rank', hp.setValues (by rw [holds_setValue_zero, holds_setValue hd hv]; exact hforest) htyped⟩
  · rw [setValue_sizes, setValue_sizes]
  · rw [node_setValue_of_ne 0 hs', node_setValue_of_ne _ hd']

end Program

end LinuxUtil.Malloc
