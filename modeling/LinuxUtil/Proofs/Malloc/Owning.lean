/-
Programs with nodes.

Every statement is `reset`, a new object or a move, so each keeps `Sound`, if an assignment is not
between a node and what is inside of it.  What the invariant means for the program is `Owning`.
-/
import LinuxUtil.Proofs.Malloc.Node

namespace LinuxUtil.Malloc

open Ownership

namespace Program

variable {p p' : Program} {q q' : Place} {n : Node} {rank : Nat → Nat}

/-! ### Statements -/

/-- What is asked of a program: nodes that are there, of types of the same size, and no assignment
between a node and one that is inside of what it holds. -/
def Legal (p : Program) : Stmt → Prop
  | .make i size args mmap =>
      p.vars i = none ∧ size < 2 ^ 63
        ∧ System.Fresh p.sys.heap (if size > 1024 then Heap.cppPages size else 1) mmap
        ∧ ∀ arg ∈ args, (p.node arg.2).map Node.size = some arg.1
  | .convert i size src => p.vars i = none ∧ (p.node src).map Node.size = some size
  | .assign dst src => ∃ d n, p.node dst = some d ∧ p.node src = some n ∧ n.size = d.size
      ∧ ¬ Inside Place.home p.holds d.value_ src ∧ ¬ Inside Place.home p.holds n.value_ dst
  | .drop q => p.node q ≠ none
  | .destroy i => p.vars i ≠ none

/-- The statement is run, with enough fuel. -/
def Ends (p : Program) (s : Stmt) (p' : Program) : Prop :=
  ∃ rounds, ∀ fuel, rounds ≤ fuel → p.step fuel s = .ok p'

theorem Ends.unique {s : Stmt} {p₁ p₂ : Program} (h₁ : p.Ends s p₁) (h₂ : p.Ends s p₂) : p₁ = p₂ := by
  obtain ⟨n₁, h₁⟩ := h₁
  obtain ⟨n₂, h₂⟩ := h₂
  exact Except.ok.inj ((h₁ (max n₁ n₂) (by omega)).symm.trans (h₂ (max n₁ n₂) (by omega)))

/-- A statement that is asked for is run. -/
def Next (p : Program) (s : Stmt) (p' : Program) : Prop := p.Legal s ∧ p.Ends s p'

/-- A variable that is declared and holds nothing yet. -/
theorem Sound.declare (hp : Sound p rank) {i : Nat} (hi : p.vars i = none) (size : Nat) :
    Sound (p.declare i ⟨size, 0⟩) rank ∧ (p.declare i ⟨size, 0⟩).node (.var i) = some ⟨size, 0⟩
      ∧ ∀ q, q ≠ .var i → (p.declare i ⟨size, 0⟩).node q = p.node q := by
  have hself : (p.declare i ⟨size, 0⟩).node (.var i) = some ⟨size, 0⟩ := by simp [Program.declare, node]
  have hne : ∀ q, q ≠ .var i → (p.declare i ⟨size, 0⟩).node q = p.node q := by
    intro q hq
    cases q with
    | var j =>
        have hij : j ≠ i := fun h => hq (by rw [h])
        simp [Program.declare, node, Function.update_of_ne hij]
    | member a k => rfl
  have hholds : (p.declare i ⟨size, 0⟩).holds = p.holds := by
    funext q
    by_cases hq : q = .var i
    · subst hq
      have hnone : p.holds (.var i) = none := by
        unfold holds
        rw [show p.node (.var i) = none from hi]
        rfl
      rw [holds_eq_none hself rfl, hnone]
    · exact holds_congr (hne q hq)
  refine ⟨⟨?_, fun {q n} hn h0 => ?_, hp.blocks, hp.heap, hp.counted⟩, hself, hne⟩
  · rw [hholds]
    exact hp.forest
  · by_cases hq : q = .var i
    · rw [hq, hself] at hn
      obtain rfl := Option.some.inj hn
      exact absurd rfl h0
    · exact hp.typed (hne q hq ▸ hn) h0

/-- `Node(Node<_Derived> &&other)`. -/
theorem convert_spec (hp : Sound p rank) {i size : Nat} {src : Place} (hl : p.Legal (.convert i size src)) :
    ∃ p' rank', p.Next (.convert i size src) p' ∧ Sound p' rank' := by
  obtain ⟨hi, hsrc⟩ := hl
  obtain ⟨n, hn, hsize⟩ := Option.map_eq_some_iff.mp hsrc
  have hne : src ≠ .var i := by
    rintro rfl
    rw [show p.node (.var i) = none from hi] at hn
    cases hn
  obtain ⟨hdecl, hself, hrest⟩ := hp.declare hi size
  obtain ⟨p', htake, ⟨rank', hsound⟩, -, -⟩ := take_spec hdecl hself rfl ((hrest src hne).trans hn) hsize
    fun {v} _ hin => by
      obtain ⟨b, hhome, -⟩ := hin
      cases hhome
  exact ⟨p', rank', ⟨⟨hi, hsrc⟩, 0, fun _ _ => htake⟩, hsound⟩

/-- Any number of rounds that is above the rank of what is held. -/
theorem exists_rounds (p : Program) (q : Place) (rank : Nat → Nat) :
    ∃ rounds, ∀ {v}, p.holds q = some v → rank v < rounds := by
  cases hq : p.holds q with
  | none => exact ⟨0, nofun⟩
  | some v => exact ⟨rank v + 1, fun h => by cases h; exact Nat.lt_succ_self _⟩

/-- The first half of an assignment, and what the second half finds. -/
theorem assign_reset (hp : Sound p rank) {dst src : Place} {d : Node} (hd : p.node dst = some d)
    (hn : p.node src = some n) (hout : ¬ Inside Place.home p.holds d.value_ src) :
    ∃ p₁, Released p dst d rank p₁
      ∧ p₁.node src = some (if src = dst then { d with value_ := 0 } else n)
      ∧ ∀ {p₂}, p₁.take dst src = .ok p₂ → p.Ends (.assign dst src) p₂ := by
  obtain ⟨rounds, hrounds⟩ := exists_rounds p dst rank
  obtain ⟨p₁, hreset, hr⟩ := reset_spec rounds hp hd hrounds
  refine ⟨p₁, hr, ?_, fun {p₂} htake => ⟨rounds + 1, fun fuel hfuel => ?_⟩⟩
  · by_cases heq : src = dst
    · rw [if_pos heq, heq]
      exact hr.null
    · rw [if_neg heq, ← hn]
      refine hr.frame heq fun {v} hv => ?_
      obtain ⟨d', hd', rfl, -⟩ := exists_node hv
      rw [hd] at hd'
      obtain rfl := Option.some.inj hd'
      exact hout
  · unfold step
    dsimp only
    rw [hreset fuel hfuel, Except.ok_bind]
    exact htake

/-- `operator=`. -/
theorem assign_spec (hp : Sound p rank) {dst src : Place} (hl : p.Legal (.assign dst src)) :
    ∃ p' rank', p.Next (.assign dst src) p' ∧ Sound p' rank' := by
  obtain ⟨d, n, hd, hn, hsize, hsrc, hdst⟩ := hl
  obtain ⟨p₁, hr, hn₁, hends⟩ := assign_reset hp hd hn hsrc
  have hsize₁ : (if src = dst then { d with value_ := 0 } else n).size = d.size := by
    split
    · rfl
    · exact hsize
  obtain ⟨p₂, htake, ⟨rank', hsound⟩, -, -⟩ := take_spec hr.sound hr.null rfl hn₁ hsize₁ fun {v} hv hin => by
    obtain ⟨n', hn', rfl, h0⟩ := exists_node hv
    rw [hn₁] at hn'
    obtain rfl := Option.some.inj hn'
    by_cases heq : src = dst
    · rw [if_pos heq] at h0
      exact h0 rfl
    · rw [if_neg heq] at hin
      exact hdst (hin.mono hr.holds_mono)
  exact ⟨p₂, rank', ⟨⟨d, n, hd, hn, hsize, hsrc, hdst⟩, hends htake⟩, hsound⟩

/-- `drop`. -/
theorem drop_spec (hp : Sound p rank) {q : Place} (hl : p.Legal (.drop q)) :
    ∃ p' rank', p.Next (.drop q) p' ∧ Sound p' rank' := by
  obtain ⟨n, hn⟩ := Option.ne_none_iff_exists'.mp hl
  obtain ⟨rounds, hrounds⟩ := exists_rounds p q rank
  obtain ⟨p₁, hreset, hr⟩ := reset_spec rounds hp hn hrounds
  exact ⟨p₁, rank, ⟨hl, rounds + 1, hreset⟩, hr.sound⟩

/-- The end of a variable that holds nothing any more. -/
theorem Sound.undeclare (hp : Sound p rank) {i : Nat} (hi : p.holds (.var i) = none) :
    Sound { p with vars := Function.update p.vars i none } rank := by
  obtain ⟨p', hp'⟩ : ∃ p' : Program, p' = { p with vars := Function.update p.vars i none } := ⟨_, rfl⟩
  have hself : p'.node (.var i) = none := by simp [hp', node]
  have hne : ∀ q, q ≠ .var i → p'.node q = p.node q := by
    intro q hq
    rw [hp']
    cases q with
    | var j =>
        have hij : j ≠ i := fun h => hq (by rw [h])
        simp [node, Function.update_of_ne hij]
    | member a k => rfl
  have hholds : p'.holds = p.holds := by
    funext q
    by_cases hq : q = .var i
    · subst hq
      rw [hi]
      unfold holds
      rw [hself]
      rfl
    · exact holds_congr (hne q hq)
  rw [← hp']
  refine ⟨?_, fun {q n} hn h0 => ?_, ?_, ?_, ?_⟩
  · rw [hholds, hp']
    exact hp.forest
  · by_cases hq : q = .var i
    · rw [hq, hself] at hn
      cases hn
    · rw [hp']
      exact hp.typed (hne q hq ▸ hn) h0
  all_goals rw [hp']
  · exact hp.blocks
  · exact hp.heap
  · exact hp.counted

/-- `~Node`. -/
theorem destroy_spec (hp : Sound p rank) {i : Nat} (hl : p.Legal (.destroy i)) :
    ∃ p' rank', p.Next (.destroy i) p' ∧ Sound p' rank' := by
  obtain ⟨n, hn⟩ := Option.ne_none_iff_exists'.mp hl
  have hn : p.node (.var i) = some n := hn
  obtain ⟨rounds, hrounds⟩ := exists_rounds p (.var i) rank
  obtain ⟨p₁, hreset, hr⟩ := reset_spec rounds hp hn hrounds
  refine ⟨_, rank, ⟨hl, rounds + 1, fun fuel hfuel => ?_⟩, hr.sound.undeclare (holds_eq_none hr.null rfl)⟩
  unfold step
  dsimp only
  rw [hreset fuel hfuel, Except.ok_bind]
  rfl

/-! ### New objects -/

/-- A block that `cpp_alloc` has just given, as an object with members that hold nothing, held by a
new variable. -/
def birth (p : Program) (heap : Heap) (i size pt : Nat) (sizes : List Nat) : Program where
  sys := ⟨heap, ⟨pt, cppExtent size, some size⟩ :: p.sys.live⟩
  objects := Function.update p.objects pt (some (sizes.map fun s => ⟨s, 0⟩))
  vars := Function.update p.vars i (some ⟨size, pt⟩)
  alloc_size := p.alloc_size + UInt64.ofNat size
  free_size := p.free_size

theorem Sound.birth (hp : Sound p rank) {heap : Heap} {i size pt : Nat} (members : List Nat)
    (hi : p.vars i = none) (hpt : pt ≠ 0) (hheap : Inv heap (⟨pt, cppExtent size, some size⟩ :: p.sys.live)) :
    ∃ p', p' = p.birth heap i size pt members ∧ Sound p' rank ∧ p.objects pt = none
      ∧ p'.node (.var i) = some ⟨size, pt⟩
      ∧ (∀ k, p'.node (.member pt k) = (members[k]?).map fun s => ⟨s, 0⟩)
      ∧ ∀ q, q ≠ .var i → q.home ≠ some pt → p'.node q = p.node q := by
  obtain ⟨σ, hL⟩ := hheap.layout
  have hfresh : pt ∉ addrs p.sys.live := (List.nodup_cons.mp hL.live_nodup).1
  have hdead : p.objects pt = none := by
    by_contra hobj
    obtain ⟨q, hq⟩ := (hp.forest.held pt).mp (Option.isSome_iff_ne_none.mpr hobj)
    obtain ⟨n, hn, rfl, h0⟩ := exists_node hq
    obtain ⟨b, hb, haddr, -⟩ := hp.typed hn h0
    exact hfresh (haddr ▸ List.mem_map_of_mem hb)
  obtain ⟨p', hp'⟩ : ∃ p', p' = p.birth heap i size pt members := ⟨_, rfl⟩
  have hvar : p'.node (.var i) = some ⟨size, pt⟩ := by simp [hp', Program.birth, node]
  have hmember : ∀ k, p'.node (.member pt k) = (members[k]?).map fun s => ⟨s, 0⟩ := by
    intro k
    simp [hp', Program.birth, node]
  have hrest : ∀ q, q ≠ .var i → q.home ≠ some pt → p'.node q = p.node q := by
    intro q hq hhome
    rw [hp']
    cases q with
    | var j =>
        have hij : j ≠ i := fun h => hq (by rw [h])
        simp [Program.birth, node, Function.update_of_ne hij]
    | member a k =>
        have ha : a ≠ pt := fun h => hhome (by rw [h]; rfl)
        simp [Program.birth, node, Function.update_of_ne ha]
  have hnone : ∀ k, p.node (.member pt k) = none := by
    intro k
    simp [node, hdead]
  have hholds : p'.holds = Function.update p.holds (.var i) (some pt) := by
    funext q
    by_cases hq : q = .var i
    · rw [hq, Function.update_self]
      exact holds_eq_some hvar hpt
    · rw [Function.update_of_ne hq]
      by_cases hhome : q.home = some pt
      · cases q with
        | var j => cases hhome
        | member a k =>
            obtain rfl := Option.some.inj hhome
            unfold holds
            rw [hmember, hnone]
            cases members[k]? <;> rfl
      · exact holds_congr (hrest q hq hhome)
  have hobjects : (fun a => (p'.objects a).isSome = true) = fun a => (p.objects a).isSome = true ∨ a = pt := by
    funext a
    by_cases ha : a = pt
    · simp [hp', Program.birth, ha]
    · simp [hp', Program.birth, ha]
  refine ⟨p', hp', ⟨?_, fun {q n} hn h0 => ?_, fun b hb => ?_, ?_, ?_⟩, hdead, hvar, hmember, hrest⟩
  · rw [hobjects, hholds]
    refine hp.forest.enter (by rw [hdead]; exact Bool.false_ne_true) rfl ?_
    unfold holds
    rw [show p.node (.var i) = none from hi]
    rfl
  · have hsys : p'.sys.live = ⟨pt, cppExtent size, some size⟩ :: p.sys.live := by rw [hp']; rfl
    rw [hsys]
    by_cases hq : q = .var i
    · rw [hq, hvar] at hn
      obtain rfl := Option.some.inj hn
      exact ⟨_, List.mem_cons_self, rfl, rfl⟩
    · by_cases hhome : q.home = some pt
      · cases q with
        | var j => cases hhome
        | member a k =>
            obtain rfl := Option.some.inj hhome
            rw [hmember] at hn
            obtain ⟨s, -, rfl⟩ := Option.map_eq_some_iff.mp hn
            exact absurd rfl h0
      · obtain ⟨b, hb, hab⟩ := hp.typed ((hrest q hq hhome).symm.trans hn) h0
        exact ⟨b, List.mem_cons_of_mem _ hb, hab⟩
  · have hiff := congrFun hobjects b.addr
    rw [hiff]
    rw [hp'] at hb
    rcases List.mem_cons.mp hb with rfl | hb
    · exact Or.inr rfl
    · exact Or.inl (hp.blocks b hb)
  · rw [hp']
    exact hheap
  · rw [hp']
    have hsizes : Program.sizes (⟨pt, cppExtent size, some size⟩ :: p.sys.live)
        = UInt64.ofNat size + Program.sizes p.sys.live := rfl
    change p.alloc_size + UInt64.ofNat size = p.free_size + Program.sizes (_ :: _)
    rw [hsizes, hp.counted, UInt64.add_assoc, UInt64.add_comm (Program.sizes p.sys.live)]

/-- The members of a new object take over from the arguments, one after another. -/
theorem takeAll_spec {i pt : Nat} : ∀ (args : List (Nat × Place)) (k : Nat) {p : Program} {rank : Nat → Nat},
    Sound p rank → p.holds (.var i) = some pt →
    (∀ arg ∈ args, (p.node arg.2).map Node.size = some arg.1 ∧ arg.2 ≠ .var i ∧ arg.2.home ≠ some pt) →
    (∀ j arg, args[j]? = some arg → p.node (.member pt (k + j)) = some ⟨arg.1, 0⟩) →
    ∃ p' rank', takeAll pt k (args.map Prod.snd) p = .ok p' ∧ Sound p' rank' := by
  intro args
  induction args with
  | nil => intro k p rank hp _ _ _; exact ⟨p, rank, rfl, hp⟩
  | cons arg args ih =>
      intro k p rank hp hvar hargs hmembers
      obtain ⟨hsize, hnvar, hnhome⟩ := hargs arg List.mem_cons_self
      obtain ⟨n, hn, hsize⟩ := Option.map_eq_some_iff.mp hsize
      obtain ⟨p₁, htake, ⟨rank₁, hp₁⟩, hsizes, hsame⟩ := take_spec hp (hmembers 0 arg rfl) rfl hn hsize
        fun {v} hv hin => by
          obtain ⟨b, hhome, hvb⟩ := hin
          obtain rfl := Option.some.inj hhome
          exact hp.forest.not_within hvar rfl hv hnvar hvb
      have hvar₁ : p₁.holds (.var i) = some pt := by
        rw [← hvar]
        exact holds_congr (hsame (by simp) (Ne.symm hnvar))
      obtain ⟨p₂, rank₂, hrest, hp₂⟩ := ih (k + 1) hp₁ hvar₁
        (fun a ha => ⟨by rw [hsizes]; exact (hargs a (List.mem_cons_of_mem _ ha)).1,
          (hargs a (List.mem_cons_of_mem _ ha)).2⟩)
        fun j a hj => by
          have hout : Place.member pt (k + 1 + j) ≠ arg.2 := fun h => hnhome (by rw [← h]; rfl)
          have hne : Place.member pt (k + 1 + j) ≠ .member pt (k + 0) := by
            intro h
            injection h
            omega
          rw [hsame hne hout, Nat.add_right_comm, Nat.add_assoc]
          exact hmembers (j + 1) a hj
      refine ⟨p₂, rank₂, ?_, hp₂⟩
      rw [List.map_cons, takeAll]
      have htake' : p.take (.member pt k) arg.2 = .ok p₁ := htake
      rw [htake', Except.ok_bind]
      exact hrest

/-- `Node(args...)`, unless there is no memory. -/
theorem make_spec (hp : Sound p rank) {i size : Nat} {args : List (Nat × Place)} {mmap : Option Nat}
    (hl : p.Legal (.make i size args mmap)) :
    (∃ p' rank', p.Next (.make i size args mmap) p' ∧ Sound p' rank')
      ∨ ∀ fuel, p.step fuel (.make i size args mmap) = .error .nullPointer := by
  obtain ⟨hi, hsize, hmmap, hargs⟩ := hl
  obtain ⟨pt, heap, halloc, -, ⟨rfl, -⟩ | ⟨hpt, hheap⟩⟩ := hp.heap.cppAlloc hsize hmmap
  · refine Or.inr fun fuel => ?_
    have hmalloc : p.malloc size mmap = .error .nullPointer := by
      unfold malloc
      rw [halloc]
      rfl
    unfold step
    dsimp only
    rw [hmalloc]
    rfl
  · obtain ⟨p₁, hbirth, hp₁, hdead, hvar, hmember, hrest⟩ := hp.birth (args.map Prod.fst) hi hpt hheap
    have hall : ∀ arg ∈ args, (p₁.node arg.2).map Node.size = some arg.1 ∧ arg.2 ≠ .var i
        ∧ arg.2.home ≠ some pt := by
      intro arg harg
      have hsize := hargs arg harg
      have hnone : p.node arg.2 ≠ none := by
        intro h
        rw [h] at hsize
        cases hsize
      have hnvar : arg.2 ≠ .var i := by
        intro h
        rw [h] at hnone
        exact hnone hi
      have hnhome : arg.2.home ≠ some pt := by
        intro h
        have hobj := object_of_node h hnone
        rw [hdead] at hobj
        cases hobj
      rw [hrest _ hnvar hnhome]
      exact ⟨hsize, hnvar, hnhome⟩
    have hmembers : ∀ j arg, args[j]? = some arg → p₁.node (.member pt (0 + j)) = some ⟨arg.1, 0⟩ := by
      intro j arg hj
      rw [Nat.zero_add, hmember, List.getElem?_map, hj]
      rfl
    obtain ⟨p₂, rank₂, htakes, hp₂⟩ := takeAll_spec args 0 hp₁ (holds_eq_some hvar hpt) hall hmembers
    refine Or.inl ⟨p₂, rank₂, ⟨⟨hi, hsize, hmmap, hargs⟩, 0, fun fuel _ => ?_⟩, hp₂⟩
    have hmalloc : p.malloc size mmap = .ok (pt, { p with
        sys := ⟨heap, ⟨pt, cppExtent size, some size⟩ :: p.sys.live⟩
        alloc_size := p.alloc_size + UInt64.ofNat size }) := by
      unfold malloc
      rw [halloc]
      exact if_neg hpt
    unfold step
    dsimp only
    rw [hmalloc, Except.ok_bind]
    rw [hbirth, Program.birth, List.map_map] at htakes
    exact htakes

/-- **Every statement that is asked for is run**, and keeps the invariant, unless there is no memory
for a new object. -/
theorem step_spec (hp : Sound p rank) {s : Stmt} (hl : p.Legal s) :
    (∃ p' rank', p.Next s p' ∧ Sound p' rank')
      ∨ (∃ i size args mmap, s = .make i size args mmap) ∧ ∀ fuel, p.step fuel s = .error .nullPointer := by
  cases s with
  | make i size args mmap => exact (make_spec hp hl).imp_right fun h => ⟨⟨i, size, args, mmap, rfl⟩, h⟩
  | convert i size src => exact Or.inl (convert_spec hp hl)
  | assign dst src => exact Or.inl (assign_spec hp hl)
  | drop q => exact Or.inl (drop_spec hp hl)
  | destroy i => exact Or.inl (destroy_spec hp hl)

/-! ### Runs -/

theorem start_node (m : ByteMem.Mem) (q : Place) : (start m).node q = none := by cases q <;> rfl

theorem start_sound (m : ByteMem.Mem) : Sound (start m) fun _ => 0 := by
  have hholds : ∀ q, (start m).holds q = none := by
    intro q
    unfold holds
    rw [start_node]
    rfl
  refine ⟨⟨fun {q _ _} hq => ?_, fun {q _ _} _ hq => ?_, fun a => ⟨nofun, fun ⟨q, hq⟩ => ?_⟩⟩,
    fun {q n} hn => ?_, nofun, start_inv m, rfl⟩
  any_goals
    rw [hholds] at hq
    cases hq
  rw [start_node] at hn
  cases hn

/-- What the statements of a program lead to. -/
abbrev Run (m : ByteMem.Mem) : List Stmt → Program → Prop := Runs.Reach Next (start m)

theorem Run.sound {m : ByteMem.Mem} {stmts : List Stmt} (h : Run m stmts p) : ∃ rank, Sound p rank := by
  refine Runs.Reach.invariant (I := fun p => ∃ rank, Sound p rank) h ⟨_, start_sound m⟩ ?_
  rintro p p' s ⟨rank, hp⟩ hnext
  rcases step_spec hp hnext.1 with ⟨p'', rank', hnext', hp'⟩ | ⟨-, hfail⟩
  · exact ⟨rank', hnext.2.unique hnext'.2 ▸ hp'⟩
  · obtain ⟨-, rounds, hrun⟩ := hnext
    exact absurd ((hfail rounds).symm.trans (hrun rounds (Nat.le_refl _))) (by simp)

/-- What owning means: every live block is held by one node, whose type has the size that was
allocated, and can be reached from a variable; no node holds what is gone, and no object is inside
of itself. -/
structure Owning (p : Program) : Prop where
  held : ∀ b ∈ p.sys.live, ∃ q n, p.node q = some n ∧ n.value_ = b.addr ∧ b.cpp = some n.size
    ∧ ∀ q', p.holds q' = some b.addr → q' = q
  alive : ∀ {q n}, p.node q = some n → n.value_ ≠ 0 → ∃ b ∈ p.sys.live, b.addr = n.value_
  nested : ∀ {a b}, Owns Place.home p.holds a b → ¬ Within Place.home p.holds b a
  reached : ∀ b ∈ p.sys.live, ∃ i v, p.holds (.var i) = some v ∧ Within Place.home p.holds v b.addr
  counted : p.alloc_size = p.free_size + sizes p.sys.live

theorem Sound.finite (hp : Sound p rank) : {a | (p.objects a).isSome = true}.Finite := by
  refine (addrs p.sys.live).toFinset.finite_toSet.subset fun a ha => ?_
  obtain ⟨q, hq⟩ := (hp.forest.held a).mp ha
  obtain ⟨n, hn, rfl, h0⟩ := exists_node hq
  obtain ⟨b, hb, haddr, -⟩ := hp.typed hn h0
  rw [Finset.mem_coe, List.mem_toFinset, ← haddr]
  exact List.mem_map_of_mem hb

theorem object_of_holds {a : Nat} (hhome : q.home = some a) (h : p.holds q ≠ none) :
    (p.objects a).isSome = true := by
  refine object_of_node hhome fun hnone => h ?_
  unfold holds
  rw [hnone]
  rfl

theorem Sound.owning (hp : Sound p rank) : Owning p where
  held := by
    intro b hb
    obtain ⟨q, hq⟩ := (hp.forest.held _).mp (hp.blocks b hb)
    obtain ⟨n, hn, haddr, h0⟩ := exists_node hq
    obtain ⟨b', hb', haddr', hcpp⟩ := hp.typed hn (by rwa [haddr])
    obtain ⟨σ, hL⟩ := hp.heap.layout
    obtain rfl : b' = b := List.inj_on_of_nodup_map hL.live_nodup hb' hb (haddr'.trans haddr)
    exact ⟨q, n, hn, haddr, hcpp, fun q' hq' => hp.forest.unique hq' hq⟩
  alive := by
    intro q n hn h0
    obtain ⟨b, hb, haddr, -⟩ := hp.typed hn h0
    exact ⟨b, hb, haddr⟩
  nested := by
    rintro a b ⟨q, hhome, hq⟩ hba
    exact hp.forest.not_inside hq ⟨a, hhome, hba⟩
  reached := by
    intro b hb
    obtain ⟨q, v, hhome, hq, hvb⟩ := hp.forest.rooted hp.finite object_of_holds (hp.blocks b hb)
    cases q with
    | var i => exact ⟨i, v, hq, hvb⟩
    | member a k => cases hhome
  counted := hp.counted

/-- **Nodes own what they hold**: after any run of statements, every live block is held by one node of
the right type and is reached from a variable; every further statement that is asked for is run,
unless there is no memory; and when no variable holds anything, everything has been freed. -/
theorem run_owns {m : ByteMem.Mem} {stmts : List Stmt} (h : Run m stmts p) : Owning p
    ∧ (∀ s, p.Legal s → (∃ p', p.Next s p')
      ∨ (∃ i size args mmap, s = .make i size args mmap) ∧ ∀ fuel, p.step fuel s = .error .nullPointer)
    ∧ ((∀ i, p.holds (.var i) = none) → p.sys.live = [] ∧ p.alloc_size = p.free_size) := by
  obtain ⟨rank, hp⟩ := h.sound
  have hown := hp.owning
  refine ⟨hown, fun s hs => ?_, fun hvars => ?_⟩
  · refine (step_spec hp hs).imp_left ?_
    rintro ⟨p', -, hnext, -⟩
    exact ⟨p', hnext⟩
  · have hlive : p.sys.live = [] := by
      refine List.eq_nil_iff_forall_not_mem.mpr fun b hb => ?_
      obtain ⟨i, v, hi, -⟩ := hown.reached b hb
      rw [hvars i] at hi
      cases hi
    refine ⟨hlive, ?_⟩
    rw [hown.counted, hlive]
    exact UInt64.add_zero _

/-- An object of 2000 bytes, in a page of its own. -/
def firstStmt : Stmt := .make 0 2000 [] (some 4096)

theorem firstStmt_legal (m : ByteMem.Mem) : (start m).Legal firstStmt := by
  refine ⟨rfl, by decide, ?_, nofun⟩
  rintro pt ⟨⟩
  exact ⟨by decide, by decide, by decide, fun _ _ => rfl⟩

theorem firstStmt_next : ∃ p, Next (start fun _ => 0) firstStmt p
    ∧ (p.sys.live, p.vars 0) = ([⟨4096, 4096, some 2000⟩], some ⟨2000, 4096⟩) := by
  have hmap : ((start fun _ => 0).step 0 firstStmt).map (fun p => (p.sys.live, p.vars 0))
      = .ok ([⟨4096, 4096, some 2000⟩], some ⟨2000, 4096⟩) := rfl
  rcases step_spec (start_sound _) (firstStmt_legal fun _ => 0) with ⟨p, -, hnext, -⟩ | ⟨-, hfail⟩
  · refine ⟨p, hnext, ?_⟩
    obtain ⟨-, rounds, hrun⟩ := hnext
    have hstep : (start fun _ => 0).step 0 firstStmt = .ok p := hrun rounds (Nat.le_refl _)
    rw [hstep] at hmap
    exact Except.ok.inj hmap
  · rw [hfail 0] at hmap
    cases hmap

theorem run_owns_first : ∃ p, Run (fun _ => 0) [firstStmt] p ∧ p.sys.live = [⟨4096, 4096, some 2000⟩]
    ∧ Owning p := by
  obtain ⟨p, hnext, hlive⟩ := firstStmt_next
  have hrun : Run (fun _ => 0) [firstStmt] p := .snoc .nil hnext
  exact ⟨p, hrun, (Prod.mk.inj hlive).1, (run_owns hrun).1⟩

/-! ### Assignments -/

/-- No place that is there is inside of the null pointer. -/
theorem Sound.not_inside_zero (hp : Sound p rank) (hq : p.node q ≠ none) :
    ¬ Inside Place.home p.holds 0 q := by
  have hzero : ∀ {k}, Place.home k = some 0 → p.node k = none := by
    intro k hk
    by_contra hnode
    obtain ⟨q', hq'⟩ := (hp.forest.held 0).mp (object_of_node hk hnode)
    obtain ⟨n, hn, hvalue, h0⟩ := exists_node hq'
    exact h0 rfl
  rintro ⟨b, hhome, hb⟩
  cases hb using Relation.ReflTransGen.head_induction_on with
  | refl => exact hq (hzero hhome)
  | head hstep _ _ =>
      obtain ⟨k, hk, hc⟩ := hstep
      have hnone := hzero hk
      unfold holds at hc
      rw [hnone] at hc
      cases hc

section Assign

variable {dst src : Place} {d : Node}

/-- What is inside of the old object is gone before it is looked at. -/
theorem assign_gone (hp : Sound p rank) (hd : p.node dst = some d) (hn : p.node src = some n)
    (hin : Inside Place.home p.holds d.value_ src) (p' : Program) :
    ¬ p.Ends (.assign dst src) p' := by
  rintro ⟨rounds', hrun⟩
  obtain ⟨rounds, hrounds⟩ := exists_rounds p dst rank
  obtain ⟨p₁, hreset, hr⟩ := reset_spec rounds hp hd hrounds
  have h0 : d.value_ ≠ 0 := by
    intro h0
    rw [h0] at hin
    exact hp.not_inside_zero (by rw [hn]; exact Option.some_ne_none n) hin
  have hsrc : p₁.node src = none := by
    obtain ⟨a, hhome, ha⟩ := hin
    by_contra hnode
    exact hp.forest.gone hr.sound.forest hr.holds_mono (holds_eq_some hd h0) (holds_eq_none hr.null rfl)
      object_of_holds ha (object_of_node hhome hnode)
  have hstep := hrun (max (rounds + 1) rounds') (by omega)
  unfold step at hstep
  dsimp only at hstep
  rw [hreset _ (by omega), Except.ok_bind] at hstep
  unfold take look at hstep
  rw [hsrc] at hstep
  cases hstep

/-- The way from an object down to the node that is assigned to stays as it is. -/
theorem assign_path {p₁ p' : Program} (hp : Sound p rank) (hr : Released p dst d rank p₁) {b v : Nat}
    (hb : dst.home = some b) (hsrc : p.holds src = some v) (hpath : Within Place.home p.holds v b)
    (hsame : ∀ q, q ≠ dst → q ≠ src → p'.node q = p₁.node q) : Within Place.home p'.holds v b := by
  suffices hall : ∀ {a}, Within Place.home p.holds a b → Within Place.home p.holds v a →
      Within Place.home p'.holds a b from hall hpath .refl
  intro a hab
  induction hab using Relation.ReflTransGen.head_induction_on with
  | refl => exact fun _ => .refl
  | head hstep hcb ih =>
      intro hva
      have hstep' := hstep
      obtain ⟨k, hk, hc⟩ := hstep
      have hkd : k ≠ dst := by
        rintro rfl
        obtain rfl := Option.some.inj (hk.symm.trans hb)
        exact hp.forest.not_inside hc ⟨_, hk, hcb⟩
      have hks : k ≠ src := by
        rintro rfl
        exact hp.forest.not_inside hsrc ⟨_, hk, hva⟩
      have hframe : p₁.node k = p.node k := hr.frame hkd fun {w} hw hin => by
        obtain ⟨a', hhome, hwa⟩ := hin
        obtain rfl := Option.some.inj (hk.symm.trans hhome)
        exact hp.forest.not_inside hw ⟨b, hb, hwa.trans (.head hstep' hcb)⟩
      have hc' : p'.holds k = some _ := (holds_congr ((hsame k hkd hks).trans hframe)).trans hc
      exact .head ⟨k, hk, hc'⟩ (ih (hva.tail hstep'))

end Assign

/-- **When `dst = move(src)` is sound**: it is run exactly if `src` is not inside of what `dst` holds, and
leaves every object owned exactly if `dst` is not inside of what `src` holds either. -/
theorem assign_sound_iff {m : ByteMem.Mem} {stmts : List Stmt} (h : Run m stmts p) {dst src : Place}
    {d : Node} (hd : p.node dst = some d) (hn : p.node src = some n) (hsize : n.size = d.size) :
    ((∃ p', p.Ends (.assign dst src) p') ↔ ¬ Inside Place.home p.holds d.value_ src)
      ∧ ((∃ p', p.Ends (.assign dst src) p' ∧ Owning p')
        ↔ ¬ Inside Place.home p.holds d.value_ src ∧ ¬ Inside Place.home p.holds n.value_ dst) := by
  obtain ⟨rank, hp⟩ := h.sound
  have hends : (∃ p', p.Ends (.assign dst src) p') ↔ ¬ Inside Place.home p.holds d.value_ src := by
    refine ⟨fun ⟨p', hp'⟩ hin => assign_gone hp hd hn hin p' hp', fun hout => ?_⟩
    obtain ⟨p₁, -, hn₁, hends⟩ := assign_reset hp hd hn hout
    exact ⟨_, hends (take_eq hn₁ dst)⟩
  refine ⟨hends, fun ⟨p', hp', hown⟩ => ?_, fun ⟨hsrc, hdst⟩ => ?_⟩
  · have hout := hends.mp ⟨p', hp'⟩
    refine ⟨hout, fun hin => ?_⟩
    obtain ⟨p₁, hr, hn₁, hends'⟩ := assign_reset hp hd hn hout
    have h0 : n.value_ ≠ 0 := by
      intro h0
      rw [h0] at hin
      exact hp.not_inside_zero (by rw [hd]; exact Option.some_ne_none d) hin
    have hsrc := holds_eq_some hn h0
    have hne : src ≠ dst := by
      rintro rfl
      exact hp.forest.not_inside hsrc hin
    rw [if_neg hne] at hn₁
    obtain ⟨p₂, hp₂⟩ : ∃ p₂, p₂ = (p₁.setValue n.value_ dst).setValue 0 src := ⟨_, rfl⟩
    have heq : p' = p₂ := hp'.unique (hp₂ ▸ hends' (take_eq hn₁ dst))
    have hsame : ∀ q, q ≠ dst → q ≠ src → p'.node q = p₁.node q := by
      intro q hqd hqs
      rw [heq, hp₂, node_setValue_of_ne 0 hqs, node_setValue_of_ne _ hqd]
    have hdst : p'.holds dst = some n.value_ := by
      refine @holds_eq_some _ _ ⟨d.size, n.value_⟩ ?_ h0
      rw [heq, hp₂, node_setValue_of_ne 0 hne.symm, node_setValue_self, hr.null]
      rfl
    obtain ⟨b, hb, hpath⟩ := hin
    exact hown.nested ⟨dst, hb, hdst⟩ (assign_path hp hr hb hsrc hpath hsame)
  · obtain ⟨p', rank', hnext, hp'⟩ := assign_spec hp ⟨d, n, hd, hn, hsize, hsrc, hdst⟩
    exact ⟨p', hnext.2, hp'.owning⟩

/-- A variable that is assigned to itself. -/
theorem assign_sound_self : ∃ p, Run (fun _ => 0) [firstStmt] p
    ∧ ∃ p', p.Ends (.assign (.var 0) (.var 0)) p' ∧ Owning p' := by
  obtain ⟨p, hnext, hfirst⟩ := firstStmt_next
  have hrun : Run (fun _ => 0) [firstStmt] p := .snoc .nil hnext
  have hnode : p.node (.var 0) = some ⟨2000, 4096⟩ := (Prod.mk.inj hfirst).2
  have hout : ¬ Inside Place.home p.holds 4096 (.var 0) := by
    rintro ⟨b, hhome, -⟩
    cases hhome
  exact ⟨p, hrun, (assign_sound_iff hrun hnode hnode rfl).2.mpr ⟨hout, hout⟩⟩

end Program

end LinuxUtil.Malloc
