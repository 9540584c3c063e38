import SocketToRdma.Lib.Run

/-!
# Simulations between step functions

A step of one system shows a list of labels, each an action of another system; a step that
shows none is internal. A relation between the states of the two is a simulation under a
condition on the steps when every step that meets the condition is answered by the actions it
shows. Then the labels that a run shows are a run of the other system.

A measure that every step meeting a condition lowers bounds the length of a run whose steps all
meet it.
-/

namespace Run

variable {σ τ α β : Type*} {step : σ → α → Option σ} {step' : τ → β → Option τ}

/-- The labels that a run shows, in order. -/
def observed (step : σ → α → Option σ) (obs : σ → α → List β) : σ → List α → List β
  | _, [] => []
  | s, a :: as => obs s a ++ ((step s a).map fun s' => observed step obs s' as).getD []

theorem observed_cons {obs : σ → α → List β} {s s' : σ} {a : α} (hs : step s a = some s')
    (as : List α) :
  observed step obs s (a :: as) = obs s a ++ observed step obs s' as
  := by
  rw [observed, hs]
  rfl

/-- The other system answers every step that meets the condition with the actions it shows. -/
def Simulates (step : σ → α → Option σ) (step' : τ → β → Option τ) (obs : σ → α → List β)
    (C : σ → α → Prop) (R : σ → τ → Prop) : Prop :=
  ∀ s a s' t, R s t → C s a → step s a = some s' →
    ∃ t', run step' t (obs s a) = some t' ∧ R s' t'

/-- The other system runs through what a run shows. -/
theorem Simulates.run {obs : σ → α → List β} {C : σ → α → Prop} {R : σ → τ → Prop}
    (h : Simulates step step' obs C R) {s s' : σ} {t : τ} {as : List α} (hR : R s t)
    (hC : Along step C s as) (hrun : run step s as = some s') :
  ∃ t', Run.run step' t (observed step obs s as) = some t' ∧ R s' t'
  := by
  induction as generalizing s t with
  | nil =>
      obtain rfl := Option.some.inj hrun
      exact ⟨t, rfl, hR⟩
  | cons a as ih =>
      obtain ⟨s₁, hs₁, hrun₁⟩ := run_cons_eq_some.mp hrun
      obtain ⟨t₁, ht₁, hR₁⟩ := h s a s₁ t hR hC.1 hs₁
      obtain ⟨t', ht', hR'⟩ := ih hR₁ (hC.2 s₁ hs₁) hrun₁
      use t'
      constructor
      · rw [observed_cons hs₁]
        apply run_append ht₁ ht'
      · apply hR'

/-- A run is no longer than the measure that its steps lower. -/
theorem length_le_of_decreasing {I : σ → Prop} {C : σ → α → Prop} {measure : σ → ℕ}
    (hinv : ∀ s a s', I s → C s a → step s a = some s' → I s')
    (hdec : ∀ s a s', I s → C s a → step s a = some s' → measure s' < measure s)
    {s s' : σ} {as : List α} (hs : I s) (hC : Along step C s as)
    (hrun : run step s as = some s') :
  as.length + measure s' ≤ measure s
  := by
  induction as generalizing s with
  | nil =>
      obtain rfl := Option.some.inj hrun
      apply Nat.le_of_eq (Nat.zero_add _)
  | cons a as ih =>
      obtain ⟨s₁, hs₁, hrun₁⟩ := run_cons_eq_some.mp hrun
      have hlen := ih (hinv s a s₁ hs hC.1 hs₁) (hC.2 s₁ hs₁) hrun₁
      have hlt := hdec s a s₁ hs hC.1 hs₁
      rw [List.length_cons]
      omega

end Run
