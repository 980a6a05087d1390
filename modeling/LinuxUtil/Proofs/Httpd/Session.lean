/-
What becomes of the connections of `run(numRequests)`.

The queue has one way in and one way out.  So what the workers have taken, what is in
the queue and what the master is about to push are together everything that was
accepted, and behind that the sentinels: `Inv.queue`.  A worker that takes a sentinel
takes nothing any more, so nobody takes two.  When all have ended, all the sentinels are
taken, and since they are at the end of the queue, everything else is taken too.
-/
import LinuxUtil.Proofs.Httpd.Pool
import Mathlib.Algebra.BigOperators.Fin
import Mathlib.Algebra.BigOperators.Group.Finset.Basic
import Mathlib.Data.List.Infix

namespace LinuxUtil.Httpd

/-! ### The mutex -/

/-- The places of a worker that has the mutex. -/
def Worker.locked : Worker → Bool
  | .check => true
  | .pop => true
  | .unlock _ => true
  | _ => false

/-- The places of a worker that has taken a sentinel. -/
def Worker.stops : Worker → Bool
  | .unlock fd => fd < 0
  | .act fd => fd < 0
  | .exited => true
  | _ => false

def Master.locked : Master → Bool
  | .push _ => true
  | .signal => true
  | .unlock => true
  | _ => false

namespace Pool

/-- Who is behind `pthread_mutex_lock` has the mutex, and who is about to pop has seen that there is
something. -/
structure Exclusive (s : Pool) : Prop where
  worker : ∀ i, (s.workers i).locked → s.reqMutex = some (.worker i)
  master : s.master.locked → s.reqMutex = some .master
  pop : ∀ i, s.workers i = .pop → s.pendingRequests ≠ []

theorem start_exclusive : start.Exclusive := ⟨nofun, nofun, nofun⟩

/-- What has to be shown of a worker's step. -/
theorem Exclusive.goto {s : Pool} (h : s.Exclusive) {i : Fin numWorkers} {w : Worker}
    {q : List Int} {m : Option Thread}
    (hothers : ∀ t, t ≠ .worker i → s.reqMutex = some t → m = some t)
    (hself : w.locked → m = some (.worker i)) (hpop : w = .pop → q ≠ [])
    (hrest : ∀ j, j ≠ i → s.workers j = .pop → q ≠ []) :
    Exclusive ({ s with pendingRequests := q, reqMutex := m }.goto i w) := by
  refine ⟨?_, fun hm => hothers _ nofun (h.master hm), ?_⟩
  · intro j hj
    by_cases hji : j = i
    · rw [hji, goto_self] at hj
      rw [hji]
      exact hself hj
    · rw [goto_of_ne _ _ hji] at hj
      refine hothers _ ?_ (h.worker j hj)
      rintro ⟨⟩
      exact hji rfl
  · intro j hj
    by_cases hji : j = i
    · rw [hji, goto_self] at hj
      exact hpop hj
    · rw [goto_of_ne _ _ hji] at hj
      exact hrest j hji hj

/-- Nobody else has the mutex of a worker that is locked. -/
theorem Exclusive.others {s : Pool} (h : s.Exclusive) {i : Fin numWorkers}
    (hl : (s.workers i).locked) {m : Option Thread} :
    ∀ t, t ≠ .worker i → s.reqMutex = some t → m = some t :=
  fun _ ht hs => absurd (Option.some.inj (hs.symm.trans (h.worker i hl))) ht

theorem Exclusive.workerMove {s s' : Pool} {i : Fin numWorkers} (h : s.Exclusive)
    (hs : WorkerMove s i s') : s'.Exclusive := by
  have hpop : ∀ j, j ≠ i → s.workers j = .pop → s.pendingRequests ≠ [] := fun j _ => h.pop j
  cases hs with
  | lock hw hm => exact h.goto (fun t _ ht => by rw [hm] at ht; cases ht) (fun _ => rfl) nofun hpop
  | sleep hw hq => exact h.goto (h.others (by rw [hw]; rfl)) nofun nofun hpop
  | find hw hq =>
      exact h.goto (fun _ _ ht => ht) (fun _ => h.worker i (by rw [hw]; rfl)) (fun _ => hq) hpop
  | wake hw => exact h.goto (fun _ _ ht => ht) nofun nofun hpop
  | @pop fd rest hw hq =>
      have hi := h.worker i (by rw [hw]; rfl)
      refine h.goto (fun _ _ ht => ht) (fun _ => hi) nofun fun j hji hj => ?_
      -- two workers cannot be there at the same time
      have hmutex := h.worker j (by rw [hj]; rfl)
      rw [hi] at hmutex
      cases hmutex
      exact absurd rfl hji
  | unlock hw => exact h.goto (h.others (by rw [hw]; rfl)) nofun nofun hpop
  | exit hw hfd => exact h.goto (fun _ _ ht => ht) nofun nofun hpop
  | handle hw hfd => exact h.goto (fun _ _ ht => ht) nofun nofun hpop
  | finish hw => exact h.goto (fun _ _ ht => ht) nofun nofun hpop

theorem Exclusive.masterMove {s s' : Pool} (h : s.Exclusive) (hs : MasterMove s s') :
    s'.Exclusive := by
  cases hs with
  | lock hm hx =>
      refine ⟨fun i hi => ?_, fun _ => rfl, h.pop⟩
      have := h.worker i hi
      rw [hx] at this
      cases this
  | push hm =>
      have hself := h.master (by rw [hm]; rfl)
      refine ⟨h.worker, fun _ => hself, fun i hi => ?_⟩
      exact List.append_ne_nil_of_right_ne_nil _ (List.cons_ne_nil _ _)
  | signal hm => exact ⟨h.worker, fun _ => h.master (by rw [hm]; rfl), h.pop⟩
  | unlock hm =>
      have hself := h.master (by rw [hm]; rfl)
      refine ⟨fun i hi => ?_, nofun, h.pop⟩
      have := h.worker i hi
      rw [hself] at this
      cases this

/-- The master leaves `accept` with something to push. -/
theorem Exclusive.begin {s : Pool} (h : s.Exclusive) (fd : Int) :
    Exclusive { s with master := .lock fd } := ⟨h.worker, nofun, h.pop⟩

end Pool

/-! ### Steps of a session -/

namespace Session

/-- What can happen in a session. -/
inductive Next (s : Session) : Pool.Event → Session → Prop
  | accept {fd : Int} (hm : s.pool.master = .accept) (hr : s.requests ≠ 0) :
      Next s (.accept fd)
        { s with
          pool := { s.pool with master := .lock fd }
          requests := s.requests - 1
          accepted := s.accepted ++ [fd] }
  | sentinel (hm : s.pool.master = .accept) (hr : s.requests = 0) (hs : s.sentinels ≠ 0) :
      Next s .master
        { s with
          pool := { s.pool with master := .lock sentinel }
          sentinels := s.sentinels - 1 }
  | join (hm : s.pool.master = .accept) (hr : s.requests = 0) (hs : s.sentinels = 0)
      (hj : ∃ i : Fin numWorkers, i.val + s.joins = numWorkers ∧ s.pool.workers i = .exited) :
      Next s .master { s with joins := s.joins - 1 }
  | master {pool : Pool} (h : Pool.MasterMove s.pool pool) : Next s .master { s with pool }
  | pop {i : Fin numWorkers} {fd : Int} {rest : List Int} (hw : s.pool.workers i = .pop)
      (hq : s.pool.pendingRequests = fd :: rest) :
      Next s (.worker i)
        { s with
          pool := { s.pool with pendingRequests := rest }.goto i (.unlock fd)
          taken := s.taken ++ [(i, fd)] }
  | worker {i : Fin numWorkers} {pool : Pool} (h : Pool.WorkerMove s.pool i pool)
      (hw : s.pool.workers i ≠ .pop) : Next s (.worker i) { s with pool }

theorem masterStep_next {s s' : Session} (h : s.masterStep = some s') : Next s .master s' := by
  unfold masterStep at h
  by_cases hm : s.pool.master = .accept
  · rw [if_pos hm] at h
    by_cases hr : s.requests = 0
    · rw [if_neg (not_not.mpr hr)] at h
      by_cases hs : s.sentinels = 0
      · rw [if_neg (not_not.mpr hs)] at h
        unfold join at h
        by_cases hj : ∃ i : Fin numWorkers, i.val + s.joins = numWorkers ∧ s.pool.workers i = .exited
        · rw [if_pos hj] at h
          obtain rfl := Option.some.inj h
          exact .join hm hr hs hj
        · rw [if_neg hj] at h
          cases h
      · rw [if_pos hs] at h
        obtain rfl := Option.some.inj h
        exact .sentinel hm hr hs
    · rw [if_pos hr] at h
      cases h
  · rw [if_neg hm] at h
    obtain ⟨pool, hp, rfl⟩ := Option.map_eq_some_iff.mp h
    exact .master (Pool.masterStep_move hp)

theorem workerStep_next {s : Session} {i : Fin numWorkers} {pool : Pool}
    (h : s.pool.workerStep i = some pool) :
    Next s (.worker i) { s with pool, taken := s.taken ++ s.popped i } := by
  have hmove := Pool.workerStep_move h
  by_cases hw : s.pool.workers i = .pop
  · cases hmove with
    | @pop fd rest _ hq =>
        have hpop : s.popped i = [(i, fd)] := by
          unfold popped
          rw [hw, hq]
        rw [hpop]
        exact .pop hw hq
    | _ hw' =>
        rw [hw] at hw'
        cases hw'
  · have hpop : s.popped i = [] := by
      unfold popped
      split
      · contradiction
      · rfl
    rw [hpop, List.append_nil]
    exact .worker hmove hw

theorem step_next {s s' : Session} {e : Pool.Event} (h : s.step e = some s') : Next s e s' := by
  cases e with
  | accept fd =>
      simp only [step] at h
      by_cases hr : s.requests = 0
      · rw [if_neg (not_not.mpr hr)] at h
        cases h
      · rw [if_pos hr] at h
        obtain ⟨pool, hp, rfl⟩ := Option.map_eq_some_iff.mp h
        unfold Pool.step at hp
        by_cases hm : s.pool.master = .accept
        · simp only [hm, if_true] at hp
          obtain rfl := Option.some.inj hp
          exact .accept hm hr
        · simp only [hm, if_false] at hp
          cases hp
  | master => exact masterStep_next h
  | worker i =>
      obtain ⟨pool, hp, rfl⟩ := Option.map_eq_some_iff.mp h
      exact workerStep_next hp

theorem Next.exclusive {s s' : Session} {e : Pool.Event} (h : Next s e s')
    (hs : s.pool.Exclusive) : s'.pool.Exclusive := by
  cases h with
  | accept hm hr => exact hs.begin _
  | sentinel hm hr hs' => exact hs.begin _
  | join hm hr hs' hj => exact hs
  | master h => exact hs.masterMove h
  | pop hw hq => exact hs.workerMove (.pop hw hq)
  | worker h hw => exact hs.workerMove h

theorem exclusive_run {n : Nat} {es : List Pool.Event} {s : Session}
    (hrun : Runs.run step (start n) es = some s) : s.pool.Exclusive :=
  Runs.invariant (I := fun s : Session => s.pool.Exclusive) (P := fun _ => True)
    (fun hs _ h => (step_next h).exclusive hs) Pool.start_exclusive (fun _ _ => trivial) hrun

/-! ### What is taken -/

/-- How many sentinels a worker has taken. -/
def sentinelsOf (s : Session) (i : Fin numWorkers) : Nat :=
  s.taken.countP fun e => e.1 = i ∧ e.2 < 0

structure Inv (n : Nat) (s : Session) : Prop where
  queue : s.taken.map Prod.snd ++ (s.pool.pendingRequests ++ s.pool.master.carries.toList) =
    s.accepted ++ List.replicate (numWorkers - s.sentinels) sentinel
  requests : s.accepted.length + s.requests = n
  sentinels : s.sentinels ≤ numWorkers
  before : s.requests ≠ 0 → s.sentinels = numWorkers
  accepted : ∀ fd ∈ s.accepted, 0 ≤ fd
  stops : ∀ i, s.sentinelsOf i = if (s.pool.workers i).stops then 1 else 0

theorem start_inv (n : Nat) : (start n).Inv n :=
  ⟨rfl, Nat.zero_add n, Nat.le_refl _, fun _ => rfl, nofun, fun _ => rfl⟩

theorem Inv.accept {n : Nat} {s : Session} (h : s.Inv n) {fd : Int} (hfd : 0 ≤ fd)
    (hm : s.pool.master = .accept) (hr : s.requests ≠ 0) :
    Inv n
      { s with
        pool := { s.pool with master := .lock fd }
        requests := s.requests - 1
        accepted := s.accepted ++ [fd] } := by
  have hfirst := h.before hr
  refine ⟨?_, ?_, h.sentinels, fun _ => hfirst, ?_, h.stops⟩
  · have hq := h.queue
    rw [hm, hfirst, Nat.sub_self, List.replicate_zero, List.append_nil] at hq
    simp only [hfirst, Nat.sub_self, List.replicate_zero, List.append_nil, ← hq, Master.carries,
      Option.toList_some, Option.toList_none, List.append_assoc]
  · have := h.requests
    change (s.accepted ++ [fd]).length + (s.requests - 1) = n
    rw [List.length_append, List.length_singleton]
    omega
  · intro g hg
    rcases List.mem_append.mp hg with hg | hg
    · exact h.accepted g hg
    · rw [List.mem_singleton.mp hg]
      exact hfd

theorem Inv.sentinel {n : Nat} {s : Session} (h : s.Inv n) (hm : s.pool.master = .accept)
    (hr : s.requests = 0) (hs : s.sentinels ≠ 0) :
    Inv n
      { s with
        pool := { s.pool with master := .lock Httpd.sentinel }
        sentinels := s.sentinels - 1 } := by
  have hle := h.sentinels
  refine ⟨?_, h.requests, ?_, fun hne => absurd hr hne, h.accepted, h.stops⟩
  · have hq := h.queue
    have hcount : numWorkers - (s.sentinels - 1) = numWorkers - s.sentinels + 1 := by omega
    simp only [hm, Master.carries, Option.toList_none, Option.toList_some, List.append_nil] at hq ⊢
    rw [hcount, List.replicate_succ', ← List.append_assoc, ← List.append_assoc, hq, List.append_assoc]
  · change s.sentinels - 1 ≤ numWorkers
    omega

/-- The master only moves what it carries to the end of the queue. -/
theorem queue_masterMove {s s' : Pool} (h : Pool.MasterMove s s') :
    s'.workers = s.workers ∧
      s'.pendingRequests ++ s'.master.carries.toList =
        s.pendingRequests ++ s.master.carries.toList := by
  cases h with
  | lock hm hx => exact ⟨rfl, by rw [hm]; rfl⟩
  | push hm => exact ⟨rfl, by rw [hm]; exact List.append_nil _⟩
  | signal hm => exact ⟨rfl, by rw [hm]; rfl⟩
  | unlock hm => exact ⟨rfl, by rw [hm]; rfl⟩

theorem Inv.master {n : Nat} {s : Session} {pool : Pool} (h : s.Inv n)
    (hs : Pool.MasterMove s.pool pool) : Inv n { s with pool } := by
  obtain ⟨hworkers, hqueue⟩ := queue_masterMove hs
  refine ⟨?_, h.requests, h.sentinels, h.before, h.accepted, fun i => ?_⟩
  · rw [hqueue]
    exact h.queue
  · rw [hworkers]
    exact h.stops i

theorem stops_goto {s : Pool} {i : Fin numWorkers} {w : Worker}
    (h : w.stops = (s.workers i).stops) :
    ∀ j, ((s.goto i w).workers j).stops = (s.workers j).stops := by
  intro j
  by_cases hj : j = i
  · rw [hj, Pool.goto_self, h]
  · rw [Pool.goto_of_ne _ _ hj]

/-- A worker that takes nothing stops if it did before. -/
theorem stops_workerMove {s s' : Pool} {i : Fin numWorkers} (h : Pool.WorkerMove s i s')
    (hpop : s.workers i ≠ .pop) :
    s'.pendingRequests = s.pendingRequests ∧ s'.master = s.master ∧
      ∀ j, (s'.workers j).stops = (s.workers j).stops := by
  cases h with
  | lock hw hm => exact ⟨rfl, rfl, stops_goto (by rw [hw]; rfl)⟩
  | sleep hw hq => exact ⟨rfl, rfl, stops_goto (by rw [hw]; rfl)⟩
  | find hw hq => exact ⟨rfl, rfl, stops_goto (by rw [hw]; rfl)⟩
  | wake hw => exact ⟨rfl, rfl, stops_goto (by rw [hw]; rfl)⟩
  | pop hw hq => exact absurd hw hpop
  | unlock hw => exact ⟨rfl, rfl, stops_goto (by rw [hw]; rfl)⟩
  | exit hw hfd => exact ⟨rfl, rfl, stops_goto (by rw [hw]; exact (decide_eq_true hfd).symm)⟩
  | handle hw hfd => exact ⟨rfl, rfl, stops_goto (by rw [hw]; exact (decide_eq_false (by omega)).symm)⟩
  | finish hw => exact ⟨rfl, rfl, stops_goto (by rw [hw]; rfl)⟩

theorem Inv.worker {n : Nat} {s : Session} {i : Fin numWorkers} {pool : Pool} (h : s.Inv n)
    (hs : Pool.WorkerMove s.pool i pool) (hw : s.pool.workers i ≠ .pop) : Inv n { s with pool } := by
  obtain ⟨hq, hm, hstops⟩ := stops_workerMove hs hw
  refine ⟨?_, h.requests, h.sentinels, h.before, h.accepted, fun j => ?_⟩
  · rw [hq, hm]
    exact h.queue
  · rw [hstops j]
    exact h.stops j

theorem Inv.pop {n : Nat} {s : Session} {i : Fin numWorkers} {fd : Int} {rest : List Int}
    (h : s.Inv n) (hw : s.pool.workers i = .pop) (hq : s.pool.pendingRequests = fd :: rest) :
    Inv n
      { s with
        pool := { s.pool with pendingRequests := rest }.goto i (.unlock fd)
        taken := s.taken ++ [(i, fd)] } := by
  refine ⟨?_, h.requests, h.sentinels, h.before, h.accepted, fun j => ?_⟩
  · have hqueue := h.queue
    rw [hq] at hqueue
    change (s.taken ++ [(i, fd)]).map Prod.snd ++ (rest ++ s.pool.master.carries.toList) = _
    rw [List.map_append, List.map_singleton, List.append_assoc, List.singleton_append]
    exact hqueue
  · have hj := h.stops j
    unfold sentinelsOf at hj ⊢
    rw [List.countP_append, hj, List.countP_singleton]
    by_cases hji : j = i
    · rw [hji, Pool.goto_self, hw]
      simp [Worker.stops]
    · rw [Pool.goto_of_ne _ _ hji]
      simp [Ne.symm hji]

theorem Inv.step {n : Nat} {s s' : Session} {e : Pool.Event} (h : s.Inv n)
    (he : ∀ fd, e = .accept fd → 0 ≤ fd) (hs : s.step e = some s') : s'.Inv n := by
  cases step_next hs with
  | accept hm hr => exact h.accept (he _ rfl) hm hr
  | sentinel hm hr hne => exact h.sentinel hm hr hne
  | join hm hr hz hj => exact ⟨h.queue, h.requests, h.sentinels, h.before, h.accepted, h.stops⟩
  | master hmove => exact h.master hmove
  | pop hw hq => exact h.pop hw hq
  | worker hmove hw => exact h.worker hmove hw

/-! ### The end -/

/-- The connections that were taken, each with the worker that took it. -/
def connections (s : Session) : List (Fin numWorkers × Int) := s.taken.filter fun e => 0 ≤ e.2

/-- The connections that wait: in the queue, or in the master's hands. -/
def waiting (s : Session) : List Int :=
  (s.pool.pendingRequests ++ s.pool.master.carries.toList).filter fun fd => 0 ≤ fd

theorem Inv.connections_waiting {n : Nat} {s : Session} (h : s.Inv n) :
    s.connections.map Prod.snd ++ s.waiting = s.accepted := by
  have hqueue := congrArg (List.filter fun fd => decide (0 ≤ fd)) h.queue
  have haccepted : s.accepted.filter (fun fd => decide (0 ≤ fd)) = s.accepted :=
    List.filter_eq_self.mpr fun fd hfd => decide_eq_true (h.accepted fd hfd)
  have hsentinels : ∀ k, (List.replicate k Httpd.sentinel).filter (fun fd => decide (0 ≤ fd)) = [] := by
    intro k
    rw [List.filter_replicate]
    rfl
  rw [List.filter_append (s.taken.map Prod.snd), List.filter_append s.accepted, haccepted,
    hsentinels, List.append_nil, List.filter_map] at hqueue
  exact hqueue

theorem Inv.eq_sentinel {n : Nat} {s : Session} (h : s.Inv n) {e : Fin numWorkers × Int}
    (he : e ∈ s.taken) (hneg : e.2 < 0) : e.2 = Httpd.sentinel := by
  have hmem := List.mem_append_left
    (s.pool.pendingRequests ++ s.pool.master.carries.toList) (List.mem_map_of_mem (f := Prod.snd) he)
  rw [h.queue] at hmem
  rcases List.mem_append.mp hmem with hacc | hrep
  · have := h.accepted _ hacc
    omega
  · exact List.eq_of_mem_replicate hrep

theorem Inv.exited {n : Nat} {s : Session} (h : s.Inv n) {i : Fin numWorkers}
    (hi : s.pool.workers i = .exited) : (i, Httpd.sentinel) ∈ s.taken := by
  have hone := h.stops i
  rw [hi] at hone
  have hpos : 0 < s.sentinelsOf i := by
    rw [hone]
    decide
  obtain ⟨⟨j, fd⟩, hmem, hp⟩ := List.countP_pos_iff.mp hpos
  obtain ⟨rfl, hneg⟩ := of_decide_eq_true hp
  have hfd : fd = Httpd.sentinel := h.eq_sentinel hmem hneg
  rw [← hfd]
  exact hmem

theorem Inv.count_le_one {n : Nat} {s : Session} (h : s.Inv n) (i : Fin numWorkers) :
    s.taken.count (i, Httpd.sentinel) ≤ 1 := by
  have hle : s.taken.count (i, Httpd.sentinel) ≤ s.sentinelsOf i := by
    refine List.countP_mono_left fun e _ he => ?_
    rw [eq_of_beq he]
    exact decide_eq_true ⟨rfl, show Httpd.sentinel < 0 by decide⟩
  have hone := h.stops i
  split at hone <;> omega

/-- Every sentinel that is taken is taken by somebody. -/
theorem sum_sentinelsOf (s : Session) :
    ∑ i, s.sentinelsOf i = (s.taken.map Prod.snd).countP fun fd => fd < 0 := by
  unfold sentinelsOf
  rw [List.countP_map]
  induction s.taken with
  | nil => simp
  | cons e taken ih =>
      have hhead : (∑ i, if decide (e.1 = i ∧ e.2 < 0) = true then 1 else 0) =
          if decide (e.2 < 0) = true then 1 else 0 := by
        by_cases hneg : e.2 < 0
        · simp [hneg]
        · simp [hneg]
      simp only [List.countP_cons, Finset.sum_add_distrib, ih, hhead, Function.comp_apply]

theorem countP_negative {fds : List Int} (h : ∀ fd ∈ fds, 0 ≤ fd) (k : Nat) :
    (fds ++ List.replicate k Httpd.sentinel).countP (fun fd => fd < 0) = k := by
  have hfds : fds.countP (fun fd => decide (fd < 0)) = 0 := by
    refine List.countP_eq_zero.mpr fun fd hfd => ?_
    have := h fd hfd
    simp only [decide_eq_true_eq]
    omega
  rw [List.countP_append, hfds, List.countP_replicate, Nat.zero_add, if_pos (by decide)]

/-- When all workers have ended, everything was pushed and is taken. -/
theorem Inv.finished {n : Nat} {s : Session} (h : s.Inv n)
    (hall : ∀ i, s.pool.workers i = .exited) :
    s.pool.pendingRequests ++ s.pool.master.carries.toList = [] ∧ s.accepted.length = n := by
  have htaken : (s.taken.map Prod.snd).countP (fun fd => decide (fd < 0)) = numWorkers := by
    rw [← sum_sentinelsOf, Finset.sum_congr rfl fun i _ => h.stops i]
    simp [hall, Worker.stops]
  have hle := h.sentinels
  have hqueue := h.queue
  generalize s.pool.pendingRequests ++ s.pool.master.carries.toList = rest at hqueue ⊢
  have hcount := congrArg (List.countP fun fd => decide (fd < 0)) hqueue
  rw [countP_negative h.accepted, List.countP_append, htaken] at hcount
  have hzero : s.sentinels = 0 := by omega
  have hnone : rest.countP (fun fd => decide (fd < 0)) = 0 := by omega
  rw [hzero, Nat.sub_zero] at hqueue
  -- the sentinels are at the end, so there is nothing behind what was taken
  have hnil : rest = [] := by
    rcases List.eq_nil_or_concat' rest with hnil | ⟨front, x, rfl⟩
    · exact hnil
    · have hlast := congrArg List.getLast? hqueue
      rw [← List.append_assoc, List.getLast?_concat, show numWorkers = 3 + 1 from rfl,
        List.replicate_succ', ← List.append_assoc, List.getLast?_concat] at hlast
      rw [Option.some.inj hlast] at hnone
      have hneg := List.countP_eq_zero.mp hnone Httpd.sentinel (by simp)
      exact absurd (by decide) hneg
  refine ⟨hnil, ?_⟩
  have hrequests := h.requests
  by_cases hr : s.requests = 0
  · omega
  · have := h.before hr
    rw [hzero] at this
    cases this

/-! ### Runs of a session -/

/-- The session's own record of `accept` is that of its events. -/
theorem accepted_run :
    ∀ {es : List Pool.Event} {s s' : Session}, Runs.run step s es = some s' →
      s'.accepted = s.accepted ++ Pool.accepted es := by
  intro es
  induction es with
  | nil =>
      intro s s' h
      rw [← Option.some.inj h]
      exact (List.append_nil _).symm
  | cons e es ih =>
      intro s s' h
      obtain ⟨s₁, hs, hrun⟩ := Option.bind_eq_some_iff.mp h
      rw [ih hrun]
      cases step_next hs with
      | accept hm hr => exact List.append_assoc _ _ _
      | _ => rfl

/-- What one may rely on in every state of `run(n)` in which `accept` has returned `fds`. -/
structure Dispatched (n : Nat) (fds : List Int) (s : Session) : Prop where
  /-- Every connection is taken by one worker or still waits, and none overtakes another. -/
  inOrder : s.connections.map Prod.snd ++ s.waiting = fds
  /-- Nobody takes from an empty queue. -/
  front : ∀ i, s.pool.workers i = .pop → s.pool.pendingRequests ≠ []
  exits : ∀ i, s.pool.workers i = .exited → (i, Httpd.sentinel) ∈ s.taken
  once : ∀ i, s.taken.count (i, Httpd.sentinel) ≤ 1
  finished : (∀ i, s.pool.workers i = .exited) →
    s.pool.pendingRequests = [] ∧ fds.length = n ∧ s.connections.map Prod.snd = fds

/-- **Every connection is dispatched once and in order, and the pool shuts down clean**, whatever
the order in which the threads step and however often a worker wakes up for nothing. -/
theorem run_dispatched (n : Nat) (es : List Pool.Event) (s : Session)
    (hrun : Runs.run step (start n) es = some s) (hfds : ∀ fd ∈ Pool.accepted es, 0 ≤ fd) :
    s.Dispatched n (Pool.accepted es) := by
  have hinv : s.Inv n := by
    refine Runs.invariant (P := fun e => ∀ fd, e = .accept fd → 0 ≤ fd) Inv.step (start_inv n) ?_ hrun
    rintro e he fd rfl
    exact hfds fd (List.mem_filterMap.mpr ⟨_, he, rfl⟩)
  have hacc : s.accepted = Pool.accepted es := accepted_run hrun
  rw [← hacc]
  refine ⟨hinv.connections_waiting, (exclusive_run hrun).pop, fun i hi => hinv.exited hi,
    hinv.count_le_one, fun hall => ?_⟩
  obtain ⟨hnil, hlen⟩ := hinv.finished hall
  have hwaiting : s.waiting = [] := by
    unfold waiting
    rw [hnil]
    rfl
  refine ⟨(List.append_eq_nil_iff.mp hnil).1, hlen, ?_⟩
  rw [← hinv.connections_waiting, hwaiting, List.append_nil]

/-- Two connections, a worker that wakes up for nothing, and the shutdown. -/
def twoRequests : List Pool.Event :=
  List.replicate 3 (.worker ⟨2, by decide⟩) ++ Pool.masterRound 5 ++ Pool.masterRound 7 ++
    List.replicate 6 (.worker ⟨1, by decide⟩) ++ List.replicate 20 .master ++
    List.replicate 6 (.worker ⟨3, by decide⟩) ++
    ((List.finRange numWorkers).flatMap fun i => List.replicate 5 (.worker i)) ++
    List.replicate 4 .master

theorem run_dispatched_two :
    ∃ s, Runs.run step (start 2) twoRequests = some s ∧ (∀ i, s.pool.workers i = .exited) ∧
      s.joins = 0 ∧ s.connections = [(1, 5), (3, 7)] ∧ s.pool.pendingRequests = [] ∧
      s.Dispatched 2 [5, 7] := by
  refine ⟨_, rfl, by decide, rfl, by decide, rfl, ?_⟩
  exact run_dispatched 2 twoRequests _ rfl (by decide)

end Session

end LinuxUtil.Httpd
