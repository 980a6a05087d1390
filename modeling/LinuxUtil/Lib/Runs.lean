/-
Runs of a machine that takes one event at a time.

A machine is a partial step function: `none` means that the event cannot happen now.  A
run is a list of events all of which happen, and a state is reached when some run ends
in it; the prefixes of a run are runs.  `invariant` is the rule for what holds in every
state that is reached.  `Reach` is the same for a relation.  `emit` is for a machine that
may also fail, and gives something out with every event; `Refines.emit` compares it with
one that does not fail.
-/
import Mathlib.Tactic.Common

namespace Runs

variable {σ ε : Type*} {step : σ → ε → Option σ}

/-- The state after a run, if all its events can happen. -/
def run (step : σ → ε → Option σ) (s : σ) : List ε → Option σ
  | [] => some s
  | e :: es => (step s e).bind fun s => run step s es

theorem run_cons {s s' : σ} {e : ε} (es : List ε) (h : step s e = some s') :
    run step s (e :: es) = run step s' es := by
  rw [run, h]
  rfl

theorem run_append {s s' : σ} :
    ∀ {es es' : List ε}, run step s es = some s' → run step s (es ++ es') = run step s' es' := by
  intro es
  induction es generalizing s with
  | nil =>
      intro es' h
      rw [Option.some.inj h]
      rfl
  | cons e es ih =>
      intro es' h
      obtain ⟨s₁, hs, hrun⟩ := Option.bind_eq_some_iff.mp h
      rw [List.cons_append, run_cons _ hs]
      exact ih hrun

/-- A run that comes back can be repeated. -/
theorem run_flatMap {α : Type*} {s : σ} (f : α → List ε) :
    ∀ {as : List α}, (∀ a ∈ as, run step s (f a) = some s) → run step s (as.flatMap f) = some s := by
  intro as
  induction as with
  | nil => intro _; rfl
  | cons a as ih =>
      intro h
      rw [List.flatMap_cons, run_append (h a List.mem_cons_self)]
      exact ih fun b hb => h b (List.mem_cons_of_mem a hb)

/-- What holds at the start and is kept by the events of a run holds at its end. -/
theorem invariant {I : σ → Prop} {P : ε → Prop}
    (hstep : ∀ {s s' : σ} {e : ε}, I s → P e → step s e = some s' → I s') :
    ∀ {es : List ε} {s s' : σ}, I s → (∀ e ∈ es, P e) → run step s es = some s' → I s' := by
  intro es
  induction es with
  | nil =>
      intro s s' h _ hrun
      rw [← Option.some.inj hrun]
      exact h
  | cons e es ih =>
      intro s s' h hok hrun
      obtain ⟨s₁, hs, hrun⟩ := Option.bind_eq_some_iff.mp hrun
      exact ih (hstep h (hok e List.mem_cons_self) hs)
        (fun e he => hok e (List.mem_cons_of_mem _ he)) hrun

/-! ### Runs of a relation

Where what may happen is not decided by a function, a step is a relation.
-/

/-- A run of a relation, and where it ends. -/
inductive Reach (next : σ → ε → σ → Prop) (start : σ) : List ε → σ → Prop
  | nil : Reach next start [] start
  | snoc {es : List ε} {s s' : σ} {e : ε} :
      Reach next start es s → next s e s' → Reach next start (es ++ [e]) s'

theorem Reach.invariant {next : σ → ε → σ → Prop} {start s : σ} {es : List ε} {I : σ → Prop}
    (h : Reach next start es s) (hstart : I start)
    (hstep : ∀ {s s' : σ} {e : ε}, I s → next s e s' → I s') : I s := by
  induction h with
  | nil => exact hstart
  | snoc _ hnext ih => exact hstep ih hnext

/-! ### Machines that give something out -/

section Output

variable {τ φ α β : Type*}

/-- What a machine that may fail gives out over some events, and the state behind them. -/
def emit (step : σ → ε → Except φ (α × σ)) (s : σ) : List ε → Except φ (List α × σ)
  | [] => .ok ([], s)
  | e :: es =>
      match step s e with
      | .error f => .error f
      | .ok (a, s) =>
          match emit step s es with
          | .error f => .error f
          | .ok (as, s) => .ok (a :: as, s)

/-- The same of a machine that does not fail. -/
def trace (next : τ → ε → β × τ) (t : τ) : List ε → List β × τ
  | [] => ([], t)
  | e :: es => ((next t e).1 :: (trace next (next t e).2 es).1, (trace next (next t e).2 es).2)

theorem trace_append {next : τ → ε → β × τ} (es es' : List ε) :
    ∀ t, trace next t (es ++ es') =
      ((trace next t es).1 ++ (trace next (trace next t es).2 es').1,
        (trace next (trace next t es).2 es').2) := by
  induction es with
  | nil => intro t; rfl
  | cons e es ih =>
      intro t
      simp only [List.cons_append, trace, ih]

/-- Whatever one machine does with an event in `P`, the other one does: what they give out is related
by `Q`, and `R` is kept. -/
def Refines (R : σ → τ → Prop) (Q : ε → β → α → Prop) (P : ε → Prop) (step : σ → ε → Except φ (α × σ))
    (next : τ → ε → β × τ) : Prop :=
  ∀ (s : σ) (t : τ) (e : ε), R s t → P e →
    ∃ a s', step s e = .ok (a, s') ∧ Q e (next t e).1 a ∧ R s' (next t e).2

/-- One output for each event, each as the other machine has it. -/
inductive Alike (Q : ε → β → α → Prop) : List ε → List β → List α → Prop
  | nil : Alike Q [] [] []
  | cons {e : ε} {b : β} {a : α} {es : List ε} {bs : List β} {as : List α} :
      Q e b a → Alike Q es bs as → Alike Q (e :: es) (b :: bs) (a :: as)

/-- **A machine that refines another one gives out what that does**, over any run. -/
theorem Refines.emit {R : σ → τ → Prop} {Q : ε → β → α → Prop} {P : ε → Prop}
    {step : σ → ε → Except φ (α × σ)} {next : τ → ε → β × τ} (h : Refines R Q P step next) :
    ∀ {es : List ε} {s : σ} {t : τ}, R s t → (∀ e ∈ es, P e) →
      ∃ as s', Runs.emit step s es = .ok (as, s') ∧ Alike Q es (trace next t es).1 as ∧
        R s' (trace next t es).2 := by
  intro es
  induction es with
  | nil => intro s t hr _; exact ⟨[], s, rfl, .nil, hr⟩
  | cons e es ih =>
      intro s t hr hok
      obtain ⟨a, s₁, hstep, hq, hr₁⟩ := h s t e hr (hok e List.mem_cons_self)
      obtain ⟨as, s', hrest, hall, hr'⟩ := ih hr₁ fun e he => hok e (List.mem_cons_of_mem _ he)
      refine ⟨a :: as, s', ?_, .cons hq hall, hr'⟩
      simp only [Runs.emit, hstep, hrest]

end Output

end Runs
