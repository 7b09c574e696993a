import Mathlib.Logic.Function.Basic
import Mathlib.Logic.Function.Iterate

/-!
# Guarded runs of a deterministic machine

`Run step G s₀ tr s` says that the machine `step`, started in `s₀`, reached `s`
by the steps recorded in `tr`, and that every step met the guard `G` in the
state it was taken from.  A step is an event in a state; an event the machine
refuses has no successor.  A record keeps the state before the step, the event
and the state after it, so that a history can be read off a trace.

`Run.invariant` is the induction rule for reachable states, `Run.history`
the one for statements that also speak of the trace, and `Run.each` the one for those about
each of its steps.  `Run.ofEvents` turns the
execution of a list of events into a run, and `Run.of_execute` a test of where
it ends into one of the run.  `Run.of_records` does so for a test of the trace.
-/

namespace Rtai.Lib

variable {σ ε : Type} {P : σ → Prop} {s' : σ} {es : List ε}

/-- One step of a run. -/
structure Record (σ ε : Type) where
  /-- The state before the step. -/
  pre : σ
  /-- The event. -/
  event : ε
  /-- The state after the step. -/
  post : σ

/-- The machine reaches `s` from `s₀` by the steps of `tr`, each meeting `G`. -/
inductive Run (step : ε → σ → Option σ) (G : σ → ε → Prop) (s₀ : σ) :
    List (Record σ ε) → σ → Prop where
  | nil : Run step G s₀ [] s₀
  | snoc {tr : List (Record σ ε)} {s s' : σ} {e : ε} :
      Run step G s₀ tr s → G s e → step e s = some s' →
      Run step G s₀ (tr ++ [⟨s, e, s'⟩]) s'

namespace Run

variable {step : ε → σ → Option σ} {G G' : σ → ε → Prop} {s₀ s : σ}
  {tr : List (Record σ ε)}

/-- What holds at the start and is kept by every guarded step holds in every
state a run reaches. -/
theorem invariant (init : P s₀) (keeps : ∀ {s s' e}, P s → G s e → step e s = some s' → P s')
    (r : Run step G s₀ tr s) : P s := by
  induction r with
  | nil => exact init
  | snoc _ guard stepped ih => exact keeps ih guard stepped

/-- The rule for statements about a trace and the state it ends in. -/
theorem history {P : List (Record σ ε) → σ → Prop} (init : P [] s₀)
    (keeps : ∀ {tr s s' e}, P tr s → G s e → step e s = some s' → P (tr ++ [⟨s, e, s'⟩]) s')
    (r : Run step G s₀ tr s) : P tr s := by
  induction r with
  | nil => exact init
  | snoc _ guard stepped ih => exact keeps ih guard stepped

/-- The rule for statements about each step of a trace. -/
theorem each {R : Record σ ε → Prop} (init : P s₀)
    (keeps : ∀ {s s' e}, P s → G s e → step e s = some s' → P s' ∧ R ⟨s, e, s'⟩)
    (r : Run step G s₀ tr s) : P s ∧ ∀ x ∈ tr, R x := by
  induction r with
  | nil => exact ⟨init, List.forall_mem_nil _⟩
  | snoc _ guard stepped ih =>
      obtain ⟨now, last⟩ := keeps ih.1 guard stepped
      exact ⟨now, List.forall_mem_append.mpr ⟨ih.2, List.forall_mem_singleton.mpr last⟩⟩

/-- What is before a step of the trace is a run. -/
theorem before {before behind : List (Record σ ε)} {r : Record σ ε} (run : Run step G s₀ tr s)
    (here : tr = before ++ r :: behind) :
    Run step G s₀ before r.pre ∧ G r.pre r.event ∧ step r.event r.pre = some r.post := by
  induction run generalizing behind with
  | nil => exact absurd here.symm (List.append_ne_nil_of_right_ne_nil _ (List.cons_ne_nil _ _))
  | snoc rest guard stepped ih =>
      rcases List.eq_nil_or_concat behind with rfl | ⟨behind, last, rfl⟩
      · obtain ⟨rfl, e⟩ := List.append_inj' here rfl
        cases e
        exact ⟨rest, guard, stepped⟩
      · rw [List.concat_eq_append, ← List.cons_append, ← List.append_assoc] at here
        exact ih (List.append_inj' here rfl).1

/-- A weaker guard allows more runs. -/
theorem mono (weaker : ∀ s e, G s e → G' s e) (r : Run step G s₀ tr s) :
    Run step G' s₀ tr s := by
  induction r with
  | nil => exact .nil
  | snoc _ guard stepped ih => exact .snoc ih (weaker _ _ guard) stepped

end Run

/-- A loop whose every turn keeps `P` and lowers a measure comes to `Q`. -/
theorem iterate_ends {f : σ → σ} {Q : σ → Prop} (measure : σ → Nat)
    (turn : ∀ {s}, P s → Q s ∨ P (f s) ∧ measure (f s) < measure s) {s : σ} (here : P s) :
    ∃ n, Q (f^[n] s) := by
  induction turns : measure s using Nat.strongRecOn generalizing s with
  | ind m ih =>
      rcases turn here with there | ⟨next, less⟩
      · exact ⟨0, there⟩
      · obtain ⟨n, there⟩ := ih _ (turns ▸ less) next rfl
        exact ⟨n + 1, there⟩

/-- The machine fed with a list of events, each checked against the guard. -/
def execute (step : ε → σ → Option σ) (G : σ → ε → Prop) [∀ s e, Decidable (G s e)] :
    List ε → σ → Option σ
  | [], s => some s
  | e :: es, s => if G s e then (step e s).bind (execute step G es) else none

/-- An execution is a run. -/
theorem Run.ofEvents {step : ε → σ → Option σ} {G : σ → ε → Prop} [∀ s e, Decidable (G s e)]
    {s₀ s : σ} {tr : List (Record σ ε)} (r : Run step G s₀ tr s) (h : execute step G es s = some s') :
    ∃ tr', Run step G s₀ tr' s' := by
  induction es generalizing tr s with
  | nil =>
      cases h
      exact ⟨tr, r⟩
  | cons e es ih =>
      simp only [execute] at h
      split at h
      next guard =>
        obtain ⟨s₁, stepped, rest⟩ := Option.bind_eq_some_iff.mp h
        exact ih (r.snoc guard stepped) rest
      next => cases h

/-- A test that the execution of a list of events passes is passed by a run. -/
theorem Run.of_execute (step : ε → σ → Option σ) (G : σ → ε → Prop)
    [∀ s e, Decidable (G s e)] (s₀ : σ) (es : List ε) (test : σ → Bool)
    (h : (execute step G es s₀).any test = true) :
    ∃ tr s, Run step G s₀ tr s ∧ test s = true := by
  obtain ⟨s, e, passed⟩ := (Option.any_eq_true _ _).mp h
  obtain ⟨tr, r⟩ := Run.ofEvents .nil e
  exact ⟨tr, s, r, passed⟩

/-- The records of the execution of a list of events. -/
def records (step : ε → σ → Option σ) : List ε → σ → List (Record σ ε)
  | [], _ => []
  | e :: es, s =>
      match step e s with
      | some s' => ⟨s, e, s'⟩ :: records step es s'
      | none => []

theorem Run.executed {step : ε → σ → Option σ} {G : σ → ε → Prop} [∀ s e, Decidable (G s e)]
    {s₀ s : σ} {tr : List (Record σ ε)} (r : Run step G s₀ tr s) (h : execute step G es s = some s') :
    Run step G s₀ (tr ++ records step es s) s' := by
  induction es generalizing tr s with
  | nil =>
      cases h
      simpa [records] using r
  | cons e es ih =>
      simp only [execute] at h
      split at h
      next guard =>
        obtain ⟨s₁, stepped, rest⟩ := Option.bind_eq_some_iff.mp h
        have goes := ih (r.snoc guard stepped) rest
        simpa [records, stepped] using goes
      next => cases h

/-- A test that the records of an execution pass is passed by the trace of a run. -/
theorem Run.of_records (step : ε → σ → Option σ) (G : σ → ε → Prop)
    [∀ s e, Decidable (G s e)] (s₀ : σ) (es : List ε) (test : List (Record σ ε) → σ → Bool)
    (h : (execute step G es s₀).any (test (records step es s₀)) = true) :
    ∃ tr s, Run step G s₀ tr s ∧ test tr s = true := by
  obtain ⟨s, e, passed⟩ := (Option.any_eq_true _ _).mp h
  exact ⟨_, s, Run.executed .nil e, passed⟩

end Rtai.Lib
