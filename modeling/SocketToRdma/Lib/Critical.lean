import SocketToRdma.Lib.Parallel
import SocketToRdma.Lib.RwLock

/-!
# Operations under a read-write lock

Threads call operations on data that they share. A call takes the lock of the data, for writing or
for reading, works on the data step by step, and leaves its section with the last of these steps,
which releases the lock, or leaves it taken for ever. What the call returns may still be read off
the data after that, when others are at work on them.

If a section that is entered at some data leaves what a function of these data says, and those
that only read change nothing, then the operations happen at once: threads whose calls are applied
to the data at one moment simulate them, in every run in which nobody changes what a call that has
left its section is about to return.
-/

namespace Critical

open Run

variable {ι ω γ χ ψ ρ : Type*}

/-- Operations `ω` on data `γ`: which of them write, where a section starts, one step of it, which
leaves the data and goes on or leaves the section, whether the lock is then kept, and what is
returned. -/
structure Sections (ω γ χ ψ ρ : Type*) where
  writes : ω → Bool
  enter : χ
  work : ω → γ → χ → γ × (χ ⊕ ψ)
  keeps : ψ → Bool
  result : ω → γ → ψ → ρ

/-- Where a thread is: it calls nothing, waits for the lock, is inside the section, or has left
it. -/
inductive Phase (ω χ ψ : Type*) where
  | idle
  | waiting (o : ω)
  | inside (o : ω) (x : χ)
  | left (o : ω) (y : ψ)

/-- Data and their lock. -/
structure Guarded (γ : Type*) where
  data : γ
  lock : RwLock

/-- What a thread does: it calls an operation, takes the lock, does a step of the section, or
returns. -/
inductive Act (ω : Type*) where
  | call (o : ω)
  | lock
  | step
  | ret

/-- The threads, and the data with their lock. -/
abbrev Threads (ι ω γ χ ψ : Type*) : Type _ := (ι → Phase ω χ ψ) × Guarded γ

/-- Where a thread is whose calls happen at once. -/
inductive AtomicPhase (ω ρ : Type*) where
  | idle
  | called (o : ω)
  | answered (r : ρ)

/-- What a thread does whose calls happen at once. -/
inductive AtomicAct (ω ρ : Type*) where
  | call (o : ω)
  | exec
  | ret (r : ρ)

/-- A step of a thread whose calls are applied at once. -/
def atomicStep [DecidableEq ρ] (effect : ω → γ → γ × ρ) :
    AtomicPhase ω ρ × γ → AtomicAct ω ρ → Option (AtomicPhase ω ρ × γ)
  | (.idle, g), .call o => some (.called o, g)
  | (.called o, g), .exec => some (.answered (effect o g).2, (effect o g).1)
  | (.answered r, g), .ret r' => if r = r' then some (.idle, g) else none
  | _, _ => none

namespace Sections

variable (S : Sections ω γ χ ψ ρ)

/-- The lock taken by an operation. -/
def acquire (o : ω) (l : RwLock) : Option RwLock :=
  if S.writes o then l.wrlock else l.rdlock

/-- A step of a thread. -/
def threadStep : Phase ω χ ψ × Guarded γ → Act ω → Option (Phase ω χ ψ × Guarded γ)
  | (.idle, g), .call o => some (.waiting o, g)
  | (.waiting o, g), .lock =>
      (S.acquire o g.lock).map fun lock => (.inside o S.enter, { g with lock })
  | (.inside o x, g), .step =>
      match S.work o g.data x with
      | (data, .inl x) => some (.inside o x, { g with data })
      | (data, .inr y) => some (.left o y, ⟨data, if S.keeps y then g.lock else g.lock.unlock⟩)
  | (.left _ _, g), .ret => some (.idle, g)
  | _, _ => none

/-- What a step of a thread shows; its call is applied when it leaves the section. -/
def threadShows : Phase ω χ ψ × Guarded γ → Act ω → List (AtomicAct ω ρ)
  | (.idle, _), .call o => [.call o]
  | (.inside o x, g), .step =>
      match (S.work o g.data x).2 with
      | .inl _ => []
      | .inr _ => [.exec]
  | (.left o y, g), .ret => [.ret (S.result o g.data y)]
  | _, _ => []

/-- A step of one of the threads. -/
def step [DecidableEq ι] : Threads ι ω γ χ ψ → ι × Act ω → Option (Threads ι ω γ χ ψ) :=
  parallel S.threadStep

/-- What a step of one of the threads shows. -/
def shows : Threads ι ω γ χ ψ → ι × Act ω → List (ι × AtomicAct ω ρ) :=
  parallelObs S.threadShows

/-- The step leaves what the calls return that have left their sections. -/
def Undisturbed [DecidableEq ι] (s : Threads ι ω γ χ ψ) (a : ι × Act ω) : Prop :=
  ∀ s', S.step s a = some s' → ∀ j o y, s.1 j = .left o y →
    S.result o s'.2.data y = S.result o s.2.data y

/-- The sections are those of a function on data with an invariant: `D o g d x` says where a call
is that has entered at the data `g`. -/
structure Refines (effect : ω → γ → γ × ρ) (I : γ → Prop) (D : ω → γ → γ → χ → Prop) : Prop where
  inv : ∀ o g, I g → I (effect o g).1
  enter : ∀ o g, I g → D o g g S.enter
  stay : ∀ o g d x d' x', D o g d x → S.work o d x = (d', .inl x') → D o g d' x'
  leave : ∀ o g d x d' y, D o g d x → S.work o d x = (d', .inr y) →
    effect o g = (d', S.result o d' y)
  reads : ∀ o d x, S.writes o = false → (S.work o d x).1 = d

end Sections

/-- How a thread holds the lock. -/
def Phase.holds (S : Sections ω γ χ ψ ρ) : Phase ω χ ψ → Option Bool
  | .inside o _ => some (S.writes o)
  | _ => none

namespace Sections

variable {S : Sections ω γ χ ψ ρ} {effect : ω → γ → γ × ρ} {I : γ → Prop}
  {D : ω → γ → γ → χ → Prop}

/-- A thread is with the same call as one whose calls happen at once, on the data `g`. -/
def SameCall (S : Sections ω γ χ ψ ρ) (D : ω → γ → γ → χ → Prop) (g d : γ) :
    Phase ω χ ψ → AtomicPhase ω ρ → Prop
  | .idle, .idle => True
  | .waiting o, .called o' => o = o'
  | .inside o x, .called o' => o = o' ∧ D o g d x
  | .left o y, .answered r => r = S.result o d y
  | _, _ => False

/-- The threads are with the same calls, and the data are the same unless somebody writes. -/
structure Related (S : Sections ω γ χ ψ ρ) (I : γ → Prop) (D : ω → γ → γ → χ → Prop)
    (s : Threads ι ω γ χ ψ) (t : (ι → AtomicPhase ω ρ) × γ) : Prop where
  inv : I t.2
  same : ∀ i, S.SameCall D t.2 s.2.data (s.1 i) (t.1 i)
  held : s.2.lock.Held fun i => (s.1 i).holds S
  quiet : (∀ i, (s.1 i).holds S ≠ some true) → t.2 = s.2.data

/-- A thread that is not inside stays with its call when its result stays. -/
theorem sameCall_of_outside {g d g' d' : γ} {p : Phase ω χ ψ} {q : AtomicPhase ω ρ}
    (h : S.SameCall D g d p q) (hout : p.holds S = none)
    (hleft : ∀ o y, p = .left o y → S.result o d' y = S.result o d y) :
  S.SameCall D g' d' p q
  := by
  cases p with
  | inside o x => cases hout
  | left o y =>
      cases q with
      | answered r => apply Eq.trans h (hleft o y rfl).symm
      | _ => cases h
  | _ =>
      cases q with
      | _ => exact h

/-- A section that reads finds the data as they were and leaves them; one that writes is alone. -/
theorem Related.reader_or_alone (href : S.Refines effect I D) {s : Threads ι ω γ χ ψ}
    {t : (ι → AtomicPhase ω ρ) × γ} (h : S.Related I D s t) {i : ι} {o : ω} {x : χ}
    (hs : s.1 i = .inside o x) :
  (t.2 = s.2.data ∧ (S.work o s.2.data x).1 = s.2.data) ∨
    (S.writes o = true ∧ ∀ j ≠ i, (s.1 j).holds S = none)
  := by
  have hholds : (s.1 i).holds S = some (S.writes o) := by
    rw [hs]
    rfl
  cases hw : S.writes o with
  | true =>
      rw [hw] at hholds
      exact Or.inr ⟨rfl, fun j hj => h.held.alone hholds hj⟩
  | false =>
      rw [hw] at hholds
      exact Or.inl ⟨h.quiet (h.held.no_writer hholds), href.reads o _ _ hw⟩

variable [DecidableEq ι]

/-- Only a step inside a section changes the data. -/
theorem data_of_step {s s' : Threads ι ω γ χ ψ} {a : ι × Act ω} (h : S.step s a = some s') :
  s'.2.data = s.2.data ∨
    ∃ o x, s.1 a.1 = .inside o x ∧ s'.2.data = (S.work o s.2.data x).1
  := by
  obtain ⟨i, a⟩ := a
  obtain ⟨p, hp, rfl⟩ := parallel_eq_some.mp h
  simp only at hp ⊢
  cases hs : s.1 i with
  | inside o x =>
      rw [hs] at hp
      cases a with
      | step =>
          right
          refine ⟨o, x, rfl, ?_⟩
          simp only [threadStep] at hp
          split at hp
          all_goals
            rename_i hwork
            obtain rfl := Option.some.inj hp
            rw [hwork]
      | _ => cases hp
  | waiting o =>
      rw [hs] at hp
      cases a with
      | lock =>
          obtain ⟨l, -, rfl⟩ := Option.map_eq_some_iff.mp hp
          exact Or.inl rfl
      | _ => cases hp
  | _ =>
      rw [hs] at hp
      left
      cases a with
      | _ => cases hp <;> rfl

/-- A call that has left its section had left it before, or leaves it with this step. -/
theorem left_of_step {s s' : Threads ι ω γ χ ψ} {a : ι × Act ω} (h : S.step s a = some s') {j : ι}
    {o : ω} {y : ψ} (hj : s'.1 j = .left o y) :
  s.1 j = .left o y ∨
    ∃ x, s.1 j = .inside o x ∧ S.work o s.2.data x = (s'.2.data, .inr y)
  := by
  obtain ⟨i, a⟩ := a
  obtain ⟨p, hp, rfl⟩ := parallel_eq_some.mp h
  simp only at hp hj ⊢
  by_cases hji : j = i
  · subst hji
    rw [Function.update_self] at hj
    cases hs : s.1 j with
    | inside o' x =>
        rw [hs] at hp
        cases a with
        | step =>
            simp only [threadStep] at hp
            split at hp
            all_goals
              rename_i hwork
              obtain rfl := Option.some.inj hp
              cases hj
            right
            exact ⟨x, rfl, hwork⟩
        | _ => cases hp
    | waiting o =>
        rw [hs] at hp
        cases a with
        | lock =>
            obtain ⟨l, -, rfl⟩ := Option.map_eq_some_iff.mp hp
            cases hj
        | _ => cases hp
    | _ =>
        rw [hs] at hp
        cases a with
        | _ =>
            cases hp
            all_goals cases hj
  · rw [Function.update_of_ne hji] at hj
    exact Or.inl hj

theorem holds_update (f : ι → Phase ω χ ψ) (i : ι) (p : Phase ω χ ψ) :
  (fun j => (Function.update f i p j).holds S) =
    Function.update (fun j => (f j).holds S) i (p.holds S)
  := by
  funext j
  by_cases hji : j = i
  · rw [hji, Function.update_self, Function.update_self]
  · rw [Function.update_of_ne hji, Function.update_of_ne hji]

/-- The other threads stay with their calls when the data are what they were, or when none of them
is inside and they return what they would have. -/
theorem Related.update {s : Threads ι ω γ χ ψ} {t : (ι → AtomicPhase ω ρ) × γ}
    (h : S.Related I D s t) {i : ι} {p : Phase ω χ ψ} {q : AtomicPhase ω ρ} {g d : γ}
    (hp : S.SameCall D g d p q)
    (hothers : (g = t.2 ∧ d = s.2.data) ∨ ∀ j ≠ i, (s.1 j).holds S = none)
    (hleft : ∀ j o y, s.1 j = .left o y → S.result o d y = S.result o s.2.data y) (j : ι) :
  S.SameCall D g d (Function.update s.1 i p j) (Function.update t.1 i q j)
  := by
  by_cases hji : j = i
  · rw [hji, Function.update_self, Function.update_self]
    apply hp
  · rw [Function.update_of_ne hji, Function.update_of_ne hji]
    obtain ⟨rfl, rfl⟩ | hnone := hothers
    · apply h.same j
    · apply sameCall_of_outside (h.same j) (hnone j hji) (hleft j)

/-- A thread calls an operation. -/
theorem Related.call {s : Threads ι ω γ χ ψ} {t : (ι → AtomicPhase ω ρ) × γ}
    (h : S.Related I D s t) {i : ι} (o : ω) (hs : s.1 i = .idle) :
  S.Related I D (Function.update s.1 i (.waiting o), s.2) (Function.update t.1 i (.called o), t.2) ∧
    t.1 i = .idle
  := by
  have hsame := h.same i
  rw [hs] at hsame
  have hholds : (fun j => (Function.update s.1 i (.waiting o) j).holds S) =
      fun j => (s.1 j).holds S := by
    rw [holds_update, Function.update_eq_self_iff, hs]
    rfl
  constructor
  · constructor
    · apply h.inv
    · apply h.update (p := .waiting o) (q := .called o) rfl (Or.inl ⟨rfl, rfl⟩) fun _ _ _ _ => rfl
    · rw [hholds]
      apply h.held
    · intro hquiet
      apply h.quiet
      intro j
      rw [← congrFun hholds j]
      apply hquiet j
  · cases ht : t.1 i with
    | idle => rfl
    | _ =>
        rw [ht] at hsame
        cases hsame

/-- A thread takes the lock. -/
theorem Related.lock (href : S.Refines effect I D) {s : Threads ι ω γ χ ψ}
    {t : (ι → AtomicPhase ω ρ) × γ} (h : S.Related I D s t) {i : ι} {o : ω} {l : RwLock}
    (hs : s.1 i = .waiting o) (hl : S.acquire o s.2.lock = some l) :
  S.Related I D (Function.update s.1 i (.inside o S.enter), { s.2 with lock := l }) t
  := by
  have hquiet : ∀ j, (s.1 j).holds S ≠ some true := by
    intro j
    rw [acquire] at hl
    split at hl
    · rw [h.held.nobody_of_wrlock hl j]
      simp
    · apply h.held.no_writer_of_rdlock hl
  have hdata := h.quiet hquiet
  constructor
  · apply h.inv
  · have hsame := h.same i
    rw [hs] at hsame
    have hcalled : S.SameCall D t.2 s.2.data (.inside o S.enter) (t.1 i) := by
      cases ht : t.1 i with
      | called o' =>
          rw [ht] at hsame
          obtain rfl : o = o' := hsame
          refine ⟨rfl, ?_⟩
          rw [← hdata]
          apply href.enter o _ h.inv
      | _ =>
          rw [ht] at hsame
          cases hsame
    have hupdate := h.update (i := i) hcalled (Or.inl ⟨rfl, rfl⟩) fun _ _ _ _ => rfl
    rw [Function.update_eq_self] at hupdate
    apply hupdate
  · rw [holds_update]
    rw [acquire] at hl
    simp only [Phase.holds]
    cases hw : S.writes o with
    | true =>
        rw [hw, if_pos rfl] at hl
        apply h.held.wrlock hl
    | false =>
        rw [hw, if_neg Bool.false_ne_true] at hl
        apply h.held.rdlock hl
  · intro _
    apply hdata

/-- A thread goes on inside its section. -/
theorem Related.stay (href : S.Refines effect I D) {s : Threads ι ω γ χ ψ}
    {t : (ι → AtomicPhase ω ρ) × γ} (h : S.Related I D s t) {i : ι} {o : ω} {x x' : χ} {d : γ}
    (hs : s.1 i = .inside o x) (hwork : S.work o s.2.data x = (d, .inl x'))
    (hleft : ∀ j o y, s.1 j = .left o y → S.result o d y = S.result o s.2.data y) :
  S.Related I D (Function.update s.1 i (.inside o x'), { s.2 with data := d }) t
  := by
  have hholds : (fun j => (Function.update s.1 i (.inside o x') j).holds S) =
      fun j => (s.1 j).holds S := by
    rw [holds_update, Function.update_eq_self_iff, hs]
    rfl
  have hcases := h.reader_or_alone href hs
  rw [hwork] at hcases
  constructor
  · apply h.inv
  · have hsame := h.same i
    rw [hs] at hsame
    have hcalled : S.SameCall D t.2 d (.inside o x') (t.1 i) := by
      cases ht : t.1 i with
      | called o' =>
          rw [ht] at hsame
          obtain ⟨rfl, hD⟩ := hsame
          exact ⟨rfl, href.stay _ _ _ _ _ _ hD hwork⟩
      | _ =>
          rw [ht] at hsame
          cases hsame
    have hupdate := h.update hcalled (hcases.imp (fun hr => ⟨rfl, hr.2⟩) And.right) hleft
    rw [Function.update_eq_self] at hupdate
    apply hupdate
  · rw [hholds]
    apply h.held
  · intro hquiet
    obtain ⟨hdata, hd⟩ | ⟨hwrites, -⟩ := hcases
    · rw [hdata]
      apply hd.symm
    · have hi := congrFun hholds i
      simp only [Function.update_self, Phase.holds] at hi
      apply absurd _ (hquiet i)
      simp only [Function.update_self, Phase.holds, hwrites]

/-- A thread leaves its section, and its call is applied. -/
theorem Related.leave (href : S.Refines effect I D) {s : Threads ι ω γ χ ψ}
    {t : (ι → AtomicPhase ω ρ) × γ} (h : S.Related I D s t) {i : ι} {o : ω} {x : χ} {y : ψ} {d : γ}
    (hs : s.1 i = .inside o x) (hwork : S.work o s.2.data x = (d, .inr y))
    (hleft : ∀ j o y, s.1 j = .left o y → S.result o d y = S.result o s.2.data y) :
  S.Related I D
      (Function.update s.1 i (.left o y),
        ⟨d, if S.keeps y then s.2.lock else s.2.lock.unlock⟩)
      (Function.update t.1 i (.answered (effect o t.2).2), (effect o t.2).1) ∧
    t.1 i = .called o
  := by
  have hsame := h.same i
  rw [hs] at hsame
  obtain ⟨hcalled, hD⟩ : t.1 i = .called o ∧ D o t.2 s.2.data x := by
    cases ht : t.1 i with
    | called o' =>
        rw [ht] at hsame
        obtain ⟨rfl, hD⟩ := hsame
        exact ⟨rfl, hD⟩
    | _ =>
        rw [ht] at hsame
        cases hsame
  have happly := href.leave _ _ _ _ _ _ hD hwork
  have hcases := h.reader_or_alone href hs
  rw [hwork] at hcases
  constructor
  · constructor
    · apply href.inv o t.2 h.inv
    · rw [happly]
      refine h.update (p := .left o y) (q := .answered (S.result o d y)) rfl ?_ hleft
      obtain ⟨hdata, hd⟩ | ⟨-, halone⟩ := hcases
      · exact Or.inl ⟨hd.trans hdata.symm, hd⟩
      · exact Or.inr halone
    · rw [holds_update]
      simp only [Phase.holds]
      split
      · apply h.held.gone
      · apply h.held.unlock
        simp only [hs, Phase.holds]
        simp
    · intro _
      rw [happly]
  · apply hcalled

/-- A thread returns. -/
theorem Related.ret {s : Threads ι ω γ χ ψ} {t : (ι → AtomicPhase ω ρ) × γ}
    (h : S.Related I D s t) {i : ι} {o : ω} {y : ψ} (hs : s.1 i = .left o y) :
  S.Related I D (Function.update s.1 i .idle, s.2) (Function.update t.1 i .idle, t.2) ∧
    t.1 i = .answered (S.result o s.2.data y)
  := by
  have hsame := h.same i
  rw [hs] at hsame
  have hholds : (fun j => (Function.update s.1 i .idle j).holds S) =
      fun j => (s.1 j).holds S := by
    rw [holds_update, Function.update_eq_self_iff, hs]
    rfl
  constructor
  · constructor
    · apply h.inv
    · apply h.update (p := .idle) (q := .idle) trivial (Or.inl ⟨rfl, rfl⟩) fun _ _ _ _ => rfl
    · rw [hholds]
      apply h.held
    · intro hquiet
      apply h.quiet
      intro j
      rw [← congrFun hholds j]
      apply hquiet j
  · cases ht : t.1 i with
    | answered r =>
        rw [ht] at hsame
        rw [show r = _ from hsame]
    | _ =>
        rw [ht] at hsame
        cases hsame

variable [DecidableEq ρ]

/-- Threads whose calls happen at once simulate those whose calls are sections under the lock. -/
theorem simulates (href : S.Refines effect I D) :
  Simulates (S.step (ι := ι)) (parallel (atomicStep effect)) S.shows S.Undisturbed (S.Related I D)
  := by
  rintro s ⟨i, a⟩ s' t hrel hundisturbed hstep
  obtain ⟨p, hp, rfl⟩ := parallel_eq_some.mp hstep
  have hleft := hundisturbed _ hstep
  have hone : ∀ {b q}, atomicStep effect (t.1 i, t.2) b = some q →
      run (parallel (atomicStep effect)) t [(i, b)] = some (Function.update t.1 i q.1, q.2) := by
    intro b q hq
    apply run_cons_eq_some.mpr
    exact ⟨_, parallel_eq_some.mpr ⟨q, hq, rfl⟩, rfl⟩
  cases hs : s.1 i with
  | idle =>
      rw [hs] at hp
      cases a with
      | call o =>
          obtain rfl := Option.some.inj hp
          obtain ⟨hrel', ht⟩ := hrel.call o hs
          refine ⟨_, ?_, hrel'⟩
          simp only [shows, parallelObs, hs, threadShows, List.map_cons, List.map_nil]
          apply hone (q := (.called o, t.2))
          rw [ht]
          rfl
      | _ => cases hp
  | waiting o =>
      rw [hs] at hp
      cases a with
      | lock =>
          obtain ⟨l, hl, rfl⟩ := Option.map_eq_some_iff.mp hp
          refine ⟨t, ?_, hrel.lock href hs hl⟩
          simp only [shows, parallelObs, hs, threadShows, List.map_nil, run_nil]
      | _ => cases hp
  | inside o x =>
      rw [hs] at hp
      cases a with
      | step =>
          simp only [threadStep] at hp
          cases hwork : S.work o s.2.data x with
          | mk d r =>
              rw [hwork] at hp
              cases r with
              | inl x' =>
                  obtain rfl := Option.some.inj hp
                  refine ⟨t, ?_, hrel.stay href hs hwork hleft⟩
                  simp only [shows, parallelObs, hs, threadShows, hwork, List.map_nil, run_nil]
              | inr y =>
                  obtain rfl := Option.some.inj hp
                  obtain ⟨hrel', ht⟩ := hrel.leave href hs hwork hleft
                  refine ⟨_, ?_, hrel'⟩
                  simp only [shows, parallelObs, hs, threadShows, hwork, List.map_cons,
                    List.map_nil]
                  apply hone (q := (.answered (effect o t.2).2, (effect o t.2).1))
                  rw [ht]
                  rfl
      | _ => cases hp
  | left o y =>
      rw [hs] at hp
      cases a with
      | ret =>
          obtain rfl := Option.some.inj hp
          obtain ⟨hrel', ht⟩ := hrel.ret hs
          refine ⟨_, ?_, hrel'⟩
          simp only [shows, parallelObs, hs, threadShows, List.map_cons, List.map_nil]
          apply hone (q := (.idle, t.2))
          rw [ht]
          simp only [atomicStep, if_true]
      | _ => cases hp

end Sections

end Critical
