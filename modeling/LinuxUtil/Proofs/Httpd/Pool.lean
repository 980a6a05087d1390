/-
When the worker pool survives.

A worker ends when it takes a negative descriptor from the queue, and the master puts
there whatever `accept` returned.  So all workers go on while no `accept` fails, in
every order of steps; and after any sequence of results with a failure in it there is
an order of steps in which a worker has ended.
-/
import LinuxUtil.Httpd.Pool
import Mathlib.Data.List.Basic
import Mathlib.Order.Basic

namespace LinuxUtil.Httpd

/-- The descriptor a place carries. -/
def Master.carries : Master → Option Int
  | .lock fd => some fd
  | .push fd => some fd
  | _ => none

def Worker.carries : Worker → Option Int
  | .unlock fd => some fd
  | .act fd => some fd
  | .handle fd => some fd
  | _ => none

namespace Pool

/-! ### Steps -/

@[simp] theorem goto_self (s : Pool) (i : Fin numWorkers) (w : Worker) :
    (s.goto i w).workers i = w := by
  simp [goto]

theorem goto_of_ne (s : Pool) {i j : Fin numWorkers} (w : Worker) (h : j ≠ i) :
    (s.goto i w).workers j = s.workers j := by
  simp [goto, h]

/-- What a worker can do, place by place. -/
inductive WorkerMove (s : Pool) (i : Fin numWorkers) : Pool → Prop
  | lock (hw : s.workers i = .lock) (hm : s.reqMutex = none) :
      WorkerMove s i ({ s with reqMutex := some (.worker i) }.goto i .check)
  | sleep (hw : s.workers i = .check) (hq : s.pendingRequests = []) :
      WorkerMove s i ({ s with reqMutex := none }.goto i .wait)
  | find (hw : s.workers i = .check) (hq : s.pendingRequests ≠ []) : WorkerMove s i (s.goto i .pop)
  | wake (hw : s.workers i = .wait) : WorkerMove s i (s.goto i .lock)
  | pop {fd : Int} {rest : List Int} (hw : s.workers i = .pop) (hq : s.pendingRequests = fd :: rest) :
      WorkerMove s i ({ s with pendingRequests := rest }.goto i (.unlock fd))
  | unlock {fd : Int} (hw : s.workers i = .unlock fd) :
      WorkerMove s i ({ s with reqMutex := none }.goto i (.act fd))
  | exit {fd : Int} (hw : s.workers i = .act fd) (hfd : fd < 0) : WorkerMove s i (s.goto i .exited)
  | handle {fd : Int} (hw : s.workers i = .act fd) (hfd : 0 ≤ fd) :
      WorkerMove s i (s.goto i (.handle fd))
  | finish {fd : Int} (hw : s.workers i = .handle fd) : WorkerMove s i (s.goto i .lock)

theorem workerStep_move {s s' : Pool} {i : Fin numWorkers} (h : s.workerStep i = some s') :
    WorkerMove s i s' := by
  unfold workerStep at h
  cases hw : s.workers i with
  | lock =>
      simp only [hw] at h
      by_cases hm : s.reqMutex = none
      · rw [if_pos hm] at h
        obtain rfl := Option.some.inj h
        exact .lock hw hm
      · rw [if_neg hm] at h
        cases h
  | check =>
      simp only [hw] at h
      by_cases hq : s.pendingRequests = []
      · rw [if_pos hq] at h
        obtain rfl := Option.some.inj h
        exact .sleep hw hq
      · rw [if_neg hq] at h
        obtain rfl := Option.some.inj h
        exact .find hw hq
  | wait =>
      simp only [hw] at h
      obtain rfl := Option.some.inj h
      exact .wake hw
  | pop =>
      simp only [hw] at h
      cases hq : s.pendingRequests with
      | nil =>
          rw [hq] at h
          cases h
      | cons fd rest =>
          rw [hq] at h
          obtain rfl := Option.some.inj h
          exact .pop hw hq
  | unlock fd =>
      simp only [hw] at h
      obtain rfl := Option.some.inj h
      exact .unlock hw
  | act fd =>
      simp only [hw] at h
      obtain rfl := Option.some.inj h
      by_cases hfd : fd < 0
      · rw [if_pos hfd]
        exact .exit hw hfd
      · rw [if_neg hfd]
        exact .handle hw (by omega)
  | handle fd =>
      simp only [hw] at h
      obtain rfl := Option.some.inj h
      exact .finish hw
  | exited =>
      simp only [hw] at h
      cases h

/-- What the master can do behind `accept`. -/
inductive MasterMove (s : Pool) : Pool → Prop
  | lock {fd : Int} (h : s.master = .lock fd) (hm : s.reqMutex = none) :
      MasterMove s { s with reqMutex := some .master, master := .push fd }
  | push {fd : Int} (h : s.master = .push fd) :
      MasterMove s { s with pendingRequests := s.pendingRequests ++ [fd], master := .signal }
  | signal (h : s.master = .signal) : MasterMove s { s with master := .unlock }
  | unlock (h : s.master = .unlock) : MasterMove s { s with reqMutex := none, master := .accept }

theorem masterStep_move {s s' : Pool} (h : s.masterStep = some s') : MasterMove s s' := by
  unfold masterStep at h
  cases hm : s.master with
  | accept =>
      simp only [hm] at h
      cases h
  | lock fd =>
      simp only [hm] at h
      by_cases hx : s.reqMutex = none
      · rw [if_pos hx] at h
        obtain rfl := Option.some.inj h
        exact .lock hm hx
      · rw [if_neg hx] at h
        cases h
  | push fd =>
      simp only [hm] at h
      obtain rfl := Option.some.inj h
      exact .push hm
  | signal =>
      simp only [hm] at h
      obtain rfl := Option.some.inj h
      exact .signal hm
  | unlock =>
      simp only [hm] at h
      obtain rfl := Option.some.inj h
      exact .unlock hm

/-! ### No failure -/

/-- No failed `accept` is anywhere, and nobody has ended. -/
structure Clean (s : Pool) : Prop where
  pending : ∀ fd ∈ s.pendingRequests, 0 ≤ fd
  master : ∀ fd ∈ s.master.carries, 0 ≤ fd
  workers : ∀ i, ∀ fd ∈ (s.workers i).carries, 0 ≤ fd
  running : s.AllRunning

theorem start_clean : start.Clean := by
  refine ⟨?_, ?_, ?_, ?_⟩
  · intro fd h
    cases h
  · intro fd h
    cases h
  · intro i fd h
    cases h
  · intro i h
    cases h

theorem Clean.goto {s : Pool} (h : s.Clean) {i : Fin numWorkers} {w : Worker}
    (hc : ∀ fd ∈ w.carries, 0 ≤ fd) (hw : w ≠ .exited) : (s.goto i w).Clean := by
  refine ⟨h.pending, h.master, ?_, ?_⟩
  · intro j fd hfd
    by_cases hj : j = i
    · subst hj
      rw [goto_self] at hfd
      exact hc fd hfd
    · rw [goto_of_ne s w hj] at hfd
      exact h.workers j fd hfd
  · intro j hex
    by_cases hj : j = i
    · subst hj
      rw [goto_self] at hex
      exact hw hex
    · rw [goto_of_ne s w hj] at hex
      exact h.running j hex

theorem Clean.workerStep {s s' : Pool} {i : Fin numWorkers} (h : s.Clean)
    (hs : s.workerStep i = some s') : s'.Clean := by
  have hfree : ∀ {m : Option Thread}, Clean { s with reqMutex := m } :=
    ⟨h.pending, h.master, h.workers, h.running⟩
  cases workerStep_move hs with
  | lock hw hm => exact hfree.goto nofun nofun
  | sleep hw hq => exact hfree.goto nofun nofun
  | find hw hq => exact h.goto nofun nofun
  | wake hw => exact h.goto nofun nofun
  | @pop fd rest hw hq =>
      have hpend := h.pending
      rw [hq] at hpend
      have hrest : Clean { s with pendingRequests := rest } :=
        ⟨fun g hg => hpend g (List.mem_cons_of_mem fd hg), h.master, h.workers, h.running⟩
      refine hrest.goto ?_ nofun
      rintro g ⟨⟩
      exact hpend fd List.mem_cons_self
  | @unlock fd hw =>
      refine hfree.goto ?_ nofun
      rintro g ⟨⟩
      exact h.workers i fd (by rw [hw]; rfl)
  | @exit fd hw hfd =>
      have := h.workers i fd (by rw [hw]; rfl)
      omega
  | @handle fd hw hfd =>
      refine h.goto ?_ nofun
      rintro g ⟨⟩
      exact hfd
  | finish hw => exact h.goto nofun nofun

theorem Clean.masterStep {s s' : Pool} (h : s.Clean) (hs : s.masterStep = some s') : s'.Clean := by
  cases masterStep_move hs with
  | @lock fd hm hx =>
      refine ⟨h.pending, ?_, h.workers, h.running⟩
      rintro g ⟨⟩
      exact h.master fd (by rw [hm]; rfl)
  | @push fd hm =>
      refine ⟨?_, nofun, h.workers, h.running⟩
      intro g hg
      rcases List.mem_append.mp hg with hg | hg
      · exact h.pending g hg
      · rw [List.mem_singleton.mp hg]
        exact h.master fd (by rw [hm]; rfl)
  | signal hm => exact ⟨h.pending, nofun, h.workers, h.running⟩
  | unlock hm => exact ⟨h.pending, nofun, h.workers, h.running⟩

theorem Clean.step {s s' : Pool} {e : Event} (h : s.Clean) (he : ∀ fd, e = .accept fd → 0 ≤ fd)
    (hs : s.step e = some s') : s'.Clean := by
  cases e with
  | accept fd =>
      unfold Pool.step at hs
      by_cases hm : s.master = .accept
      · simp only [hm, if_true] at hs
        obtain rfl := Option.some.inj hs
        refine ⟨h.pending, ?_, h.workers, h.running⟩
        rintro g ⟨⟩
        exact he fd rfl
      · simp only [hm, if_false] at hs
        cases hs
  | master => exact h.masterStep hs
  | worker i => exact h.workerStep hs

theorem running_of_accepted {es : List Event} {s : Pool} (hrun : Runs.run step start es = some s)
    (h : ∀ fd ∈ accepted es, 0 ≤ fd) : s.AllRunning := by
  refine (Runs.invariant (P := fun e => ∀ fd, e = .accept fd → 0 ≤ fd) Clean.step start_clean ?_
    hrun).running
  rintro e he fd rfl
  exact h fd (List.mem_filterMap.mpr ⟨_, he, rfl⟩)

/-! ### A failure -/

/-- One round of the master. -/
def masterRound (fd : Int) : List Event := [.accept fd, .master, .master, .master, .master]

/-- The first worker takes a descriptor, up to the place where it looks at it. -/
def takeRound : List Event := List.replicate 5 (.worker 0)

@[simp] theorem accepted_append (es es' : List Event) :
    accepted (es ++ es') = accepted es ++ accepted es' :=
  List.filterMap_append

theorem accepted_flatMap {f : Int → List Event} (hf : ∀ fd, accepted (f fd) = [fd]) (fds : List Int) :
    accepted (fds.flatMap f) = fds := by
  induction fds with
  | nil => rfl
  | cons fd fds ih => rw [List.flatMap_cons, accepted_append, hf, ih, List.singleton_append]

theorem run_masterRound {s : Pool} (hm : s.master = .accept) (hx : s.reqMutex = none) (fd : Int) :
    Runs.run step s (masterRound fd) =
      some { s with pendingRequests := s.pendingRequests ++ [fd] } := by
  obtain ⟨master, workers, pending, mutex⟩ := s
  obtain rfl : master = .accept := hm
  obtain rfl : mutex = none := hx
  rfl

theorem run_masterRounds {s : Pool} (hm : s.master = .accept) (hx : s.reqMutex = none)
    (fds : List Int) :
    Runs.run step s (fds.flatMap masterRound) =
      some { s with pendingRequests := s.pendingRequests ++ fds } := by
  induction fds generalizing s with
  | nil => rw [List.append_nil]; rfl
  | cons fd fds ih =>
      rw [List.flatMap_cons, Runs.run_append (run_masterRound hm hx fd)]
      refine (ih (s := { s with pendingRequests := s.pendingRequests ++ [fd] }) hm hx).trans ?_
      rw [List.append_assoc, List.singleton_append]

theorem goto_goto (s : Pool) (i : Fin numWorkers) (w w' : Worker) :
    (s.goto i w).goto i w' = s.goto i w' := by
  unfold goto
  congr 1
  funext j
  by_cases h : j = i
  · rw [if_pos h, if_pos h]
  · rw [if_neg h, if_neg h]
    exact if_neg h

/-- A new pool with one descriptor in the queue. -/
theorem run_takeRound (fd : Int) :
    Runs.run step { start with pendingRequests := [fd] } takeRound =
      some (start.goto 0 (if fd < 0 then .exited else .handle fd)) := by
  have h : Runs.run step { start with pendingRequests := [fd] } takeRound =
      some (((((start.goto 0 .check).goto 0 .pop).goto 0 (.unlock fd)).goto 0 (.act fd)).goto 0
        (if fd < 0 then .exited else .handle fd)) := rfl
  rw [h, goto_goto, goto_goto, goto_goto, goto_goto]

theorem run_round (fd : Int) :
    Runs.run step start (masterRound fd ++ takeRound) =
      some (start.goto 0 (if fd < 0 then .exited else .handle fd)) := by
  rw [Runs.run_append (run_masterRound rfl rfl fd)]
  exact run_takeRound fd

/-- A connection that is served leaves the pool as it was. -/
theorem run_served {fd : Int} (h : 0 ≤ fd) :
    Runs.run step start (masterRound fd ++ takeRound ++ [.worker 0]) = some start := by
  have hround := run_round fd
  rw [if_neg (by omega)] at hround
  rw [Runs.run_append hround]
  have hlock : Runs.run step (start.goto 0 (.handle fd)) [.worker 0] =
      some ((start.goto 0 (.handle fd)).goto 0 .lock) := rfl
  have hsame : start.goto 0 .lock = start := by
    unfold goto start
    congr 1
    funext j
    exact ite_self _
  rw [hlock, goto_goto, hsame]

theorem exists_first_failure :
    ∀ {fds : List Int}, (∃ fd ∈ fds, fd < 0) →
      ∃ pre fd post, fds = pre ++ fd :: post ∧ (∀ g ∈ pre, 0 ≤ g) ∧ fd < 0 := by
  intro fds
  induction fds with
  | nil => rintro ⟨fd, hfd, -⟩; cases hfd
  | cons g fds ih =>
      intro h
      by_cases hg : g < 0
      · exact ⟨[], g, fds, rfl, nofun, hg⟩
      · obtain ⟨pre, fd, post, rfl, hpre, hfd⟩ := ih (by
          obtain ⟨fd, hfd, hneg⟩ := h
          rcases List.mem_cons.mp hfd with rfl | hmem
          · exact absurd hneg hg
          · exact ⟨fd, hmem, hneg⟩)
        refine ⟨g :: pre, fd, post, rfl, ?_, hfd⟩
        intro x hx
        rcases List.mem_cons.mp hx with rfl | hx
        · omega
        · exact hpre x hx

/-- A failed `accept` can end a worker. -/
theorem exited_of_failure {fds : List Int} (h : ∃ fd ∈ fds, fd < 0) :
    ∃ es s, Runs.run step start es = some s ∧ accepted es = fds ∧ ¬ s.AllRunning := by
  obtain ⟨pre, fd, post, rfl, hpre, hfd⟩ := exists_first_failure h
  have hserved : Runs.run step start (pre.flatMap fun g => masterRound g ++ takeRound ++ [.worker 0]) =
      some start :=
    Runs.run_flatMap _ fun g hg => run_served (hpre g hg)
  have hround := run_round fd
  rw [if_pos hfd] at hround
  have hpost := run_masterRounds (s := start.goto 0 .exited) rfl rfl post
  refine ⟨pre.flatMap (fun g => masterRound g ++ takeRound ++ [.worker 0]) ++
    (masterRound fd ++ takeRound ++ post.flatMap masterRound), _,
    (Runs.run_append hserved).trans ((Runs.run_append hround).trans hpost), ?_, ?_⟩
  · rw [accepted_append, accepted_append, accepted_flatMap (fun _ => rfl),
      accepted_flatMap (fun _ => rfl)]
    rfl
  · intro hall
    exact hall 0 rfl

/-- **All workers go on in every run exactly when no `accept` fails.** -/
theorem workers_survive_iff (fds : List Int) :
    (∀ es s, Runs.run step start es = some s → accepted es = fds → s.AllRunning) ↔
      ∀ fd ∈ fds, 0 ≤ fd := by
  refine ⟨?_, ?_⟩
  · intro h fd hfd
    by_contra hneg
    obtain ⟨es, s, hrun, hacc, hex⟩ := exited_of_failure ⟨fd, hfd, by omega⟩
    exact hex (h es s hrun hacc)
  · rintro h es s hrun rfl
    exact running_of_accepted hrun h

/-- Four calls of `accept` fail, and then each worker takes one result. -/
def failingRun : List Event :=
  (List.replicate 4 (-1)).flatMap masterRound ++
    (List.finRange numWorkers).flatMap fun i => List.replicate 5 (.worker i)

/-- Nobody is left to take a connection. -/
theorem pool_ends :
    ∃ s, Runs.run step start failingRun = some s ∧ ¬ s.AllRunning ∧ ∀ i, s.workers i = .exited := by
  refine ⟨_, rfl, ?_, ?_⟩
  · intro h
    exact h 0 (by decide)
  · decide

end Pool

end LinuxUtil.Httpd
