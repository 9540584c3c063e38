import Mathlib.Data.Nat.Notation
import Mathlib.Tactic.Use

/-!
# Runs of a step function

A step function `step : σ → α → Option σ` gives the state after an action, or `none` when
the action is not enabled. `run step s as` is the state after the actions `as` from `s`.
`Along step P s as` says that the property `P` of a state and the action taken in it holds
at every step of that run. An invariant is carried through a run by `run_invariant`, and a
property of the steps is derived from an invariant by `along_of_invariant`.
-/

namespace Run

variable {σ α : Type*} {step : σ → α → Option σ}

/-- The state after the actions, if every one of them is enabled when it is taken. -/
def run (step : σ → α → Option σ) : σ → List α → Option σ
  | s, [] => some s
  | s, a :: as => (step s a).bind (fun s' => run step s' as)

/-- The property holds at every step of the run of the actions from the state. -/
def Along (step : σ → α → Option σ) (P : σ → α → Prop) : σ → List α → Prop
  | _, [] => True
  | s, a :: as => P s a ∧ ∀ s', step s a = some s' → Along step P s' as

@[simp]
theorem run_nil (s : σ) :
  run step s [] = some s
  := rfl

theorem run_cons_eq_some {s t : σ} {a : α} {as : List α} :
  run step s (a :: as) = some t ↔ ∃ s', step s a = some s' ∧ run step s' as = some t
  := Option.bind_eq_some_iff

/-- Two runs, the second from where the first ended, make one. -/
theorem run_append {s t u : σ} {as bs : List α} (has : run step s as = some t)
    (hbs : run step t bs = some u) :
  run step s (as ++ bs) = some u
  := by
  induction as generalizing s with
  | nil =>
      obtain rfl := Option.some.inj has
      apply hbs
  | cons a as ih =>
      obtain ⟨s', hs, has'⟩ := run_cons_eq_some.mp has
      apply run_cons_eq_some.mpr
      use s', hs
      apply ih has'

theorem along_cons {P : σ → α → Prop} {s s' : σ} {a : α} {as : List α} (hP : P s a)
    (hs : step s a = some s') (has : Along step P s' as) :
  Along step P s (a :: as)
  := by
  constructor
  · apply hP
  · intro t ht
    obtain rfl := Option.some.inj (hs.symm.trans ht)
    apply has

/-- A property of the actions alone holds along every run of them. -/
theorem along_of_mem {P : α → Prop} {s : σ} {as : List α} (h : ∀ a ∈ as, P a) :
  Along step (fun _ a => P a) s as
  := by
  induction as generalizing s with
  | nil => trivial
  | cons a as ih =>
      constructor
      · apply h a (List.mem_cons_self ..)
      · intro s' _
        apply ih
        intro b hb
        apply h b (List.mem_cons_of_mem _ hb)

theorem Along.and {P Q : σ → α → Prop} {s : σ} {as : List α} (hP : Along step P s as)
    (hQ : Along step Q s as) :
  Along step (fun s a => P s a ∧ Q s a) s as
  := by
  induction as generalizing s with
  | nil => trivial
  | cons a as ih =>
      constructor
      · exact ⟨hP.1, hQ.1⟩
      · intro s' hs
        apply ih (hP.2 s' hs) (hQ.2 s' hs)

theorem Along.mono {P Q : σ → α → Prop} {s : σ} {as : List α} (h : Along step P s as)
    (hPQ : ∀ s a, P s a → Q s a) :
  Along step Q s as
  := by
  induction as generalizing s with
  | nil => trivial
  | cons a as ih =>
      constructor
      · apply hPQ s a h.1
      · intro s' hs
        apply ih (h.2 s' hs)

/-- What holds at every step of a run holds at every step of its second part. -/
theorem Along.right {P : σ → α → Prop} {s t : σ} {as bs : List α}
    (h : Along step P s (as ++ bs)) (hrun : run step s as = some t) :
  Along step P t bs
  := by
  induction as generalizing s with
  | nil =>
      obtain rfl := Option.some.inj hrun
      apply h
  | cons a as ih =>
      obtain ⟨s', hs, hrun'⟩ := run_cons_eq_some.mp hrun
      apply ih (h.2 s' hs) hrun'

/-- An invariant that every step meeting the condition `C` preserves holds at the end of a
run whose steps all meet `C`. -/
theorem run_invariant {I : σ → Prop} {C : σ → α → Prop}
    (hstep : ∀ s a s', I s → C s a → step s a = some s' → I s') {s t : σ} {as : List α}
    (hs : I s) (hC : Along step C s as) (hrun : run step s as = some t) :
  I t
  := by
  induction as generalizing s with
  | nil =>
      obtain rfl := Option.some.inj hrun
      apply hs
  | cons a as ih =>
      obtain ⟨s', hs', hrun'⟩ := run_cons_eq_some.mp hrun
      apply ih (hstep s a s' hs hC.1 hs') (hC.2 s' hs') hrun'

/-- A property of the steps that follows from an invariant and the condition `C` holds at
every step of a run whose steps all meet `C`. -/
theorem along_of_invariant {I : σ → Prop} {C P : σ → α → Prop}
    (hstep : ∀ s a s', I s → C s a → step s a = some s' → I s')
    (hP : ∀ s a, I s → C s a → P s a) {s : σ} {as : List α} (hs : I s)
    (hC : Along step C s as) :
  Along step P s as
  := by
  induction as generalizing s with
  | nil => trivial
  | cons a as ih =>
      constructor
      · apply hP s a hs hC.1
      · intro s' hs'
        apply ih (hstep s a s' hs hC.1 hs') (hC.2 s' hs')

end Run
