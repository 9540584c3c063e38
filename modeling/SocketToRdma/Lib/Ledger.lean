import Mathlib.Data.Finset.Union
import Mathlib.Data.List.Infix
import Mathlib.Logic.Relation

/-!
# Resources that rest on others

A ledger is the set of resources that are held. Some rest on others, and a release is refused
while something held rests on the resource. When a list of resources is released with the users of
each before it, what is left is what rests under a resource that is not in the list.

A set-up acquires resources one after the other and stops at the first step that fails. What it
holds is then a prefix of what it acquires when no step fails.
-/

namespace Ledger

variable {α : Type*} [DecidableEq α]

/-! ### Releasing -/

section Release

variable (rests : α → α → Prop)

/-- No resource of the list rests on one before it. -/
def UsersFirst (l : List α) : Prop :=
  l.Pairwise fun a b => ¬ rests b a

/-- The resource `b` rests on `a`, which is held. -/
def RestsIn (held : Finset α) (b a : α) : Prop :=
  rests b a ∧ a ∈ held

variable {rests} {held : Finset α} {a b : α}

/-- What rests on others through resources held is not lost by a release of something on which
nothing held rests. -/
theorem RestsIn.erase {c : α} (hc : ∀ d ∈ held, ¬ rests d c) (hb : b ∈ held) (hbc : b ≠ c)
    (h : Relation.ReflTransGen (RestsIn rests held) b a) :
  Relation.ReflTransGen (RestsIn rests (held.erase c)) b a ∧ a ∈ held.erase c
  := by
  induction h with
  | refl => exact ⟨.refl, Finset.mem_erase.mpr ⟨hbc, hb⟩⟩
  | @tail d a _ hstep ih =>
      obtain ⟨hpath, hmem⟩ := ih
      obtain ⟨hrests, ha⟩ := hstep
      have hac : a ≠ c := by
        rintro rfl
        apply hc d (Finset.mem_of_mem_erase hmem) hrests
      have herase := Finset.mem_erase.mpr ⟨hac, ha⟩
      exact ⟨hpath.tail ⟨hrests, herase⟩, herase⟩

variable (rests) [DecidableRel rests]

/-- A release is refused while something held rests on the resource. -/
def release (held : Finset α) (a : α) : Finset α :=
  if ∃ b ∈ held, rests b a then held else held.erase a

/-- The resources are released one after the other; a refusal does not stop this. -/
def releaseAll (held : Finset α) (l : List α) : Finset α :=
  l.foldl (release rests) held

variable {rests}

/-- When the users come first, a resource is left exactly if it lies under one that is not
released. -/
theorem mem_releaseAll (hirrefl : ∀ a, ¬ rests a a) {l : List α} (hl : UsersFirst rests l) :
  a ∈ releaseAll rests held l ↔
    ∃ b ∈ held, b ∉ l ∧ Relation.ReflTransGen (RestsIn rests held) b a
  := by
  induction l generalizing held with
  | nil =>
      constructor
      · intro ha
        exact ⟨a, ha, List.not_mem_nil, .refl⟩
      · rintro ⟨b, hb, -, h⟩
        cases h with
        | refl => apply hb
        | tail _ hstep => apply hstep.2
  | cons c l ih =>
      obtain ⟨hc, hl⟩ := List.pairwise_cons.mp hl
      have hstep : releaseAll rests held (c :: l) = releaseAll rests (release rests held c) l := rfl
      rw [hstep, ih hl, release]
      split
      · rename_i huser
        obtain ⟨d, hd, hdc⟩ := huser
        constructor
        · rintro ⟨b, hb, hbl, h⟩
          by_cases hbc : b = c
          · -- the release was refused because of `d`, which comes neither later nor first
            subst hbc
            refine ⟨d, hd, ?_, .head ⟨hdc, hb⟩ h⟩
            rw [List.mem_cons, not_or]
            constructor
            · rintro rfl
              apply hirrefl _ hdc
            · intro hdl
              apply hc d hdl hdc
          · exact ⟨b, hb, by simp [hbc, hbl], h⟩
        · rintro ⟨b, hb, hbl, h⟩
          exact ⟨b, hb, fun hmem => hbl (List.mem_cons_of_mem _ hmem), h⟩
      · rename_i huser
        simp only [not_exists, not_and] at huser
        constructor
        · rintro ⟨b, hb, hbl, h⟩
          obtain ⟨hbc, hb⟩ := Finset.mem_erase.mp hb
          have hsub : RestsIn rests (held.erase c) ≤ RestsIn rests held :=
            fun _ _ hxy => ⟨hxy.1, Finset.mem_of_mem_erase hxy.2⟩
          exact ⟨b, hb, by simp [hbc, hbl], Relation.ReflTransGen.mono hsub _ _ h⟩
        · rintro ⟨b, hb, hbl, h⟩
          rw [List.mem_cons, not_or] at hbl
          exact ⟨b, Finset.mem_erase.mpr ⟨hbl.1, hb⟩, hbl.2, (RestsIn.erase huser hb hbl.1 h).1⟩

end Release

/-! ### Acquiring -/

variable {ρ : Type*} {ok : ρ → Prop}

/-- A step that acquires the resource, or fails with a value that is returned. -/
def acquire (outcome : Option ρ) (a : α) (k : Finset α → ρ × Finset α) (held : Finset α) :
    ρ × Finset α :=
  match outcome with
  | some r => (r, held)
  | none => k (insert a held)

/-- A step that acquires nothing, or fails with a value that is returned. -/
def check (outcome : Option ρ) (k : Finset α → ρ × Finset α) (held : Finset α) : ρ × Finset α :=
  match outcome with
  | some r => (r, held)
  | none => k held

/-- The second set-up follows if the first one returned a value that is `ok`. -/
def andThen (ok : ρ → Prop) [DecidablePred ok] (f g : Finset α → ρ × Finset α)
    (held : Finset α) : ρ × Finset α :=
  if ok (f held).1 then g (f held).2 else f held

/-- The set-up acquires a prefix of the list, and the whole list if it returns a value that is `ok`.
What it does is the same whatever is held before. -/
def Acquires (ok : ρ → Prop) (l : List α) (f : Finset α → ρ × Finset α) : Prop :=
  ∃ r l', l' <+: l ∧ (ok r → l' = l) ∧ ∀ held, f held = (r, held ∪ l'.toFinset)

namespace Acquires

variable {l l₁ l₂ : List α} {f g k : Finset α → ρ × Finset α} {outcome : Option ρ}

theorem done (r : ρ) :
  Acquires ok ([] : List α) fun held => (r, held)
  := by
  refine ⟨r, [], List.nil_prefix, fun _ => rfl, ?_⟩
  simp

theorem acquire (a : α) (ho : ∀ r ∈ outcome, ¬ ok r) (h : Acquires ok l k) :
  Acquires ok (a :: l) (Ledger.acquire outcome a k)
  := by
  cases outcome with
  | some r =>
      refine ⟨r, [], List.nil_prefix, fun hr => absurd hr (ho r rfl), ?_⟩
      simp [Ledger.acquire]
  | none =>
      obtain ⟨r, l', hl', hok, hk⟩ := h
      refine ⟨r, a :: l', List.cons_prefix_cons.mpr ⟨rfl, hl'⟩, ?_, ?_⟩
      · intro hr
        rw [hok hr]
      · intro held
        rw [Ledger.acquire, hk, List.toFinset_cons, Finset.insert_union, Finset.union_insert]

theorem check (ho : ∀ r ∈ outcome, ¬ ok r) (h : Acquires ok l k) :
  Acquires ok l (Ledger.check outcome k)
  := by
  cases outcome with
  | some r =>
      refine ⟨r, [], List.nil_prefix, fun hr => absurd hr (ho r rfl), ?_⟩
      simp [Ledger.check]
  | none => apply h

theorem andThen [DecidablePred ok] (hf : Acquires ok l₁ f) (hg : Acquires ok l₂ g) :
  Acquires ok (l₁ ++ l₂) (Ledger.andThen ok f g)
  := by
  obtain ⟨r, l', hl', hok, hf⟩ := hf
  by_cases hr : ok r
  · obtain ⟨r₂, l₂', hl₂', hok₂, hg⟩ := hg
    obtain rfl := hok hr
    refine ⟨r₂, l' ++ l₂', (List.prefix_append_right_inj _).mpr hl₂', ?_, ?_⟩
    · intro hr₂
      rw [hok₂ hr₂]
    · intro held
      rw [Ledger.andThen, hf, if_pos hr, hg, List.toFinset_append, Finset.union_assoc]
  · refine ⟨r, l', hl'.trans (List.prefix_append _ _), fun h => absurd h hr, ?_⟩
    intro held
    rw [Ledger.andThen, hf, if_neg hr]

end Acquires

end Ledger
