/-
The master thread and the worker pool of `apt/libhttpd/httpd.cpp`.

Every thread is at one of the places of its routine between which another thread may
run.  What it does at a place is one step: take the mutex, look at the queue, give the
mutex back, and so on.  A worker in `pthread_cond_wait` may come out of it at any time,
as POSIX allows, so `pthread_cond_signal` itself changes nothing here; what it promises
is that somebody does come out.

What `accept` returns is up to the network, so it is part of the event.

`Session` is the pool under `run(numRequests)`, whose master stops after so many
connections.  It also keeps the two histories one asks about: what `accept` returned,
and which worker took what from the queue.
-/
import LinuxUtil.Lib.Runs

namespace LinuxUtil.Httpd

abbrev numWorkers : Nat := 4

/-- The places of `masterRoutine`. -/
inductive Master
  | accept
  | lock (fd : Int)
  | push (fd : Int)
  | signal
  | unlock
  deriving DecidableEq, Repr

/-- The places of `workerRoutine`. -/
inductive Worker
  | lock
  | check
  | wait
  | pop
  | unlock (fd : Int)
  | act (fd : Int)
  | handle (fd : Int)
  | exited
  deriving DecidableEq, Repr

inductive Thread
  | master
  | worker (i : Fin numWorkers)
  deriving DecidableEq, Repr

/-- The threads, `pendingRequests`, and who has `reqMutex`. -/
structure Pool where
  master : Master
  workers : Fin numWorkers → Worker
  pendingRequests : List Int
  reqMutex : Option Thread

namespace Pool

/-- After `initialize`. -/
def start : Pool := ⟨.accept, fun _ => .lock, [], none⟩

/-- `accept` returns, or a thread takes its next step. -/
inductive Event
  | accept (fd : Int)
  | master
  | worker (i : Fin numWorkers)
  deriving DecidableEq, Repr

def goto (s : Pool) (i : Fin numWorkers) (w : Worker) : Pool :=
  { s with workers := fun j => if j = i then w else s.workers j }

/-- One step of `masterRoutine`, which `start` repeats. -/
def masterStep (s : Pool) : Option Pool :=
  match s.master with
  | .accept => none
  | .lock fd =>
      if s.reqMutex = none then some { s with reqMutex := some .master, master := .push fd } else none
  | .push fd =>
      some { s with pendingRequests := s.pendingRequests ++ [fd], master := .signal }
  | .signal => some { s with master := .unlock }
  | .unlock => some { s with reqMutex := none, master := .accept }

/-- One step of `workerRoutine`. -/
def workerStep (s : Pool) (i : Fin numWorkers) : Option Pool :=
  match s.workers i with
  | .lock =>
      if s.reqMutex = none then some ({ s with reqMutex := some (.worker i) }.goto i .check) else none
  | .check =>
      if s.pendingRequests = [] then some ({ s with reqMutex := none }.goto i .wait)
      else some (s.goto i .pop)
  | .wait => some (s.goto i .lock)
  | .pop =>
      match s.pendingRequests with
      | [] => none
      | fd :: rest => some ({ s with pendingRequests := rest }.goto i (.unlock fd))
  | .unlock fd => some ({ s with reqMutex := none }.goto i (.act fd))
  | .act fd => some (s.goto i (if fd < 0 then .exited else .handle fd))
  | .handle _ => some (s.goto i .lock)
  | .exited => none

def step (s : Pool) : Event → Option Pool
  | .accept fd => if s.master = .accept then some { s with master := .lock fd } else none
  | .master => s.masterStep
  | .worker i => s.workerStep i

/-- The results of `accept` in a run. -/
def accepted (es : List Event) : List Int :=
  es.filterMap fun
    | .accept fd => some fd
    | _ => none

/-- All workers are still there. -/
def AllRunning (s : Pool) : Prop := ∀ i, s.workers i ≠ .exited

end Pool

/-! ### A limited number of requests -/

/-- What is pushed to end a worker. -/
def sentinel : Int := -1

/-- A pool, and how much `run` has still to do: calls of `masterRoutine`, sentinels, joins. -/
structure Session where
  pool : Pool
  requests : Nat
  sentinels : Nat
  joins : Nat
  accepted : List Int
  taken : List (Fin numWorkers × Int)

namespace Session

/-- `run(numRequests)` after `initialize`. -/
def start (numRequests : Nat) : Session := ⟨Pool.start, numRequests, numWorkers, numWorkers, [], []⟩

/-- What a worker takes from the queue when it steps. -/
def popped (s : Session) (i : Fin numWorkers) : List (Fin numWorkers × Int) :=
  match s.pool.workers i, s.pool.pendingRequests with
  | .pop, fd :: _ => [(i, fd)]
  | _, _ => []

/-- `pthread_join` of the next worker, which waits until that has ended. -/
def join (s : Session) : Option Session :=
  if ∃ i : Fin numWorkers, i.val + s.joins = numWorkers ∧ s.pool.workers i = .exited then
    some { s with joins := s.joins - 1 }
  else none

/-- One step of `run` outside of `accept`.  A sentinel is pushed as a connection is. -/
def masterStep (s : Session) : Option Session :=
  if s.pool.master = .accept then
    if s.requests ≠ 0 then none
    else if s.sentinels ≠ 0 then
      some { s with pool := { s.pool with master := .lock sentinel }, sentinels := s.sentinels - 1 }
    else s.join
  else s.pool.masterStep.map fun pool => { s with pool }

def step (s : Session) : Pool.Event → Option Session
  | .accept fd =>
      if s.requests ≠ 0 then
        (s.pool.step (.accept fd)).map fun pool =>
          { s with pool, requests := s.requests - 1, accepted := s.accepted ++ [fd] }
      else none
  | .master => s.masterStep
  | .worker i =>
      (s.pool.workerStep i).map fun pool => { s with pool, taken := s.taken ++ s.popped i }

end Session

end LinuxUtil.Httpd
