import Mathlib.Logic.Function.Basic
import SocketToRdma.Lib.Simulation

/-!
# Components in parallel

Some components, each with a state of its own, work on a state that they share. An action is that
of one component: it sees the state of the component and the shared one, and changes these two. No
component is given a turn of its own; every interleaving of their actions is a run.

If each component alone is simulated by another one, with the shared states related in the same way
for all of them, then the components in parallel are simulated by the others in parallel.
-/

namespace Run

variable {ι σ τ γ δ α β : Type*} [DecidableEq ι]

/-- The step of one of the components. -/
def parallel (step : σ × γ → α → Option (σ × γ)) (s : (ι → σ) × γ) (a : ι × α) :
    Option ((ι → σ) × γ) :=
  (step (s.1 a.1, s.2) a.2).map fun p => (Function.update s.1 a.1 p.1, p.2)

/-- A step shows what the step of the component shows, as labels of that component. -/
def parallelObs (obs : σ × γ → α → List β) (s : (ι → σ) × γ) (a : ι × α) : List (ι × β) :=
  (obs (s.1 a.1, s.2) a.2).map (Prod.mk a.1)

/-- A condition on the steps of a component, on those of all of them. -/
def ParallelCond (C : σ × γ → α → Prop) (s : (ι → σ) × γ) (a : ι × α) : Prop :=
  C (s.1 a.1, s.2) a.2

theorem parallel_eq_some {step : σ × γ → α → Option (σ × γ)} {s s' : (ι → σ) × γ} {a : ι × α} :
  parallel step s a = some s' ↔
    ∃ p, step (s.1 a.1, s.2) a.2 = some p ∧ s' = (Function.update s.1 a.1 p.1, p.2)
  := by
  rw [parallel, Option.map_eq_some_iff]
  simp only [eq_comm]

/-- A run of one component, the others waiting. -/
theorem run_parallel {step : σ × γ → α → Option (σ × γ)} {s : (ι → σ) × γ} {i : ι} {p : σ × γ}
    {as : List α} (hrun : run step (s.1 i, s.2) as = some p) :
  run (parallel step) s (as.map (Prod.mk i)) = some (Function.update s.1 i p.1, p.2)
  := by
  induction as generalizing s with
  | nil =>
      obtain rfl := Option.some.inj hrun
      rw [Function.update_eq_self]
      rfl
  | cons a as ih =>
      obtain ⟨p₁, hp₁, hrun₁⟩ := run_cons_eq_some.mp hrun
      apply run_cons_eq_some.mpr
      use (Function.update s.1 i p₁.1, p₁.2)
      constructor
      · apply parallel_eq_some.mpr ⟨p₁, hp₁, rfl⟩
      · have hnext : run step (Function.update s.1 i p₁.1 i, p₁.2) as = some p := by
          rw [Function.update_self]
          apply hrun₁
        rw [ih (s := (Function.update s.1 i p₁.1, p₁.2)) hnext, Function.update_idem]

/-- The components in parallel are simulated by those that simulate them. -/
theorem Simulates.parallel {step : σ × γ → α → Option (σ × γ)} {step' : τ × δ → β → Option (τ × δ)}
    {obs : σ × γ → α → List β} {C : σ × γ → α → Prop} {L : σ → τ → Prop} {S : γ → δ → Prop}
    (h : Simulates step step' obs C fun p q => L p.1 q.1 ∧ S p.2 q.2) :
  Simulates (Run.parallel step) (Run.parallel step') (parallelObs obs) (ParallelCond C)
    fun (s : (ι → σ) × γ) (t : (ι → τ) × δ) => (∀ i, L (s.1 i) (t.1 i)) ∧ S s.2 t.2
  := by
  rintro s ⟨i, a⟩ s' t ⟨hL, hS⟩ hC hs
  obtain ⟨p, hp, rfl⟩ := parallel_eq_some.mp hs
  obtain ⟨q, hq, hLi, hS'⟩ := h (s.1 i, s.2) a p (t.1 i, t.2) ⟨hL i, hS⟩ hC hp
  use (Function.update t.1 i q.1, q.2)
  constructor
  · apply run_parallel hq
  · constructor
    · intro j
      by_cases hj : j = i
      · rw [hj]
        simp only [Function.update_self]
        apply hLi
      · simp only [Function.update_of_ne hj]
        apply hL j
    · apply hS'

end Run
