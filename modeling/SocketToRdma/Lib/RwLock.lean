import Mathlib.Data.Finset.Card
import Mathlib.Logic.Function.Basic

/-!
# Read-write locks

A read-write lock is free, or held by readers or by one writer. Taking it is a partial
function of its state: where the function has no value the caller waits. What is released by
its holder becomes free again, whichever way it was taken. `Held` relates a lock to those who hold
it: many for reading, or one for writing.
-/

/-- The state of a read-write lock; `read n` is a lock held by `n + 1` readers. -/
inductive RwLock where
  | free
  | read (n : ℕ)
  | write
  deriving DecidableEq

namespace RwLock

/-- The lock taken for reading. -/
def rdlock : RwLock → Option RwLock
  | free => some (read 0)
  | read n => some (read (n + 1))
  | write => none

/-- The lock taken for writing. -/
def wrlock : RwLock → Option RwLock
  | free => some write
  | read _ => none
  | write => none

/-- The lock released by one of its holders. -/
def unlock : RwLock → RwLock
  | read (n + 1) => read n
  | read 0 => free
  | write => free
  | free => free

/-! ### Who holds a lock -/

section Held

variable {ι : Type*}

/-- A lock and those who hold it: `some true` holds it for writing, `some false` for reading. A lock
may count a holder that is gone without releasing it. -/
def Held (holds : ι → Option Bool) : RwLock → Prop
  | free => ∀ i, holds i = none
  | read n => (∀ i, holds i ≠ some true) ∧
      ∃ R : Finset ι, R.card ≤ n + 1 ∧ ∀ i, holds i ≠ none → i ∈ R
  | write => (∀ i, holds i ≠ some false) ∧ ∀ i j, holds i ≠ none → holds j ≠ none → i = j

variable {holds : ι → Option Bool} {l l' : RwLock} {i : ι}

/-- A writer is alone. -/
theorem Held.alone (h : l.Held holds) (hi : holds i = some true) {j : ι} (hj : j ≠ i) :
  holds j = none
  := by
  cases l with
  | free =>
      rw [h i] at hi
      cases hi
  | read n => exact absurd hi (h.1 i)
  | write =>
      by_contra hne
      apply hj (h.2 j i hne (by rw [hi]; simp))

/-- With a reader there is no writer. -/
theorem Held.no_writer (h : l.Held holds) (hi : holds i = some false) (j : ι) :
  holds j ≠ some true
  := by
  intro hj
  by_cases hij : i = j
  · rw [hij, hj] at hi
    cases hi
  · rw [h.alone hj hij] at hi
    cases hi

/-- Whoever takes a lock for reading finds no writer. -/
theorem Held.no_writer_of_rdlock (h : l.Held holds) (hl : l.rdlock = some l') (j : ι) :
  holds j ≠ some true
  := by
  cases l with
  | free => rw [h j]; simp
  | read n => apply h.1
  | write => cases hl

/-- Whoever takes a lock for writing finds nobody. -/
theorem Held.nobody_of_wrlock (h : l.Held holds) (hl : l.wrlock = some l') (j : ι) :
  holds j = none
  := by
  cases l with
  | free => apply h
  | read n => cases hl
  | write => cases hl

variable [DecidableEq ι]

theorem Held.rdlock (h : l.Held holds) (hl : l.rdlock = some l') (i : ι) :
  l'.Held (Function.update holds i (some false))
  := by
  have hmem : ∀ (R : Finset ι), (∀ j, holds j ≠ none → j ∈ R) →
      ∀ j, Function.update holds i (some false) j ≠ none → j ∈ insert i R := by
    intro R hR j hj
    by_cases hji : j = i
    · rw [hji]
      apply Finset.mem_insert_self
    · rw [Function.update_of_ne hji] at hj
      apply Finset.mem_insert_of_mem (hR j hj)
  have hwriter : ∀ j, Function.update holds i (some false) j ≠ some true := by
    intro j
    by_cases hji : j = i
    · rw [hji, Function.update_self]
      simp
    · rw [Function.update_of_ne hji]
      apply h.no_writer_of_rdlock hl
  cases l with
  | free =>
      obtain rfl := Option.some.inj hl
      refine ⟨hwriter, insert i ∅, by simp, ?_⟩
      apply hmem
      intro j hj
      exact absurd (h j) hj
  | read n =>
      obtain rfl := Option.some.inj hl
      obtain ⟨-, R, hcard, hR⟩ := h
      refine ⟨hwriter, insert i R, ?_, hmem R hR⟩
      have hle := Finset.card_insert_le i R
      omega
  | write => cases hl

theorem Held.wrlock (h : l.Held holds) (hl : l.wrlock = some l') (i : ι) :
  l'.Held (Function.update holds i (some true))
  := by
  have hnobody := h.nobody_of_wrlock hl
  have honly : ∀ j, Function.update holds i (some true) j ≠ none → j = i := by
    intro j hj
    by_contra hji
    rw [Function.update_of_ne hji] at hj
    apply hj (hnobody j)
  cases l with
  | free =>
      obtain rfl := Option.some.inj hl
      constructor
      · intro j
        by_cases hji : j = i
        · rw [hji, Function.update_self]
          simp
        · rw [Function.update_of_ne hji, hnobody j]
          simp
      · intro j k hj hk
        rw [honly j hj, honly k hk]
  | read n => cases hl
  | write => cases hl

/-- A holder is gone and the lock is as it was. -/
theorem Held.gone (h : l.Held holds) (i : ι) :
  l.Held (Function.update holds i none)
  := by
  have hsub : ∀ {j b}, Function.update holds i none j = some b → holds j = some b := by
    intro j b hj
    by_cases hji : j = i
    · rw [hji, Function.update_self] at hj
      cases hj
    · rwa [Function.update_of_ne hji] at hj
  have hne : ∀ j, Function.update holds i none j ≠ none → holds j ≠ none := by
    intro j hj
    obtain ⟨b, hb⟩ := Option.ne_none_iff_exists'.mp hj
    rw [hsub hb]
    simp
  cases l with
  | free =>
      intro j
      by_contra hj
      apply hne j hj (h j)
  | read n =>
      obtain ⟨hwriter, R, hcard, hR⟩ := h
      exact ⟨fun j hj => hwriter j (hsub hj), R, hcard, fun j hj => hR j (hne j hj)⟩
  | write => exact ⟨fun j hj => h.1 j (hsub hj), fun j k hj hk => h.2 j k (hne j hj) (hne k hk)⟩

/-- A holder releases the lock. -/
theorem Held.unlock (h : l.Held holds) (hi : holds i ≠ none) :
  l.unlock.Held (Function.update holds i none)
  := by
  have hgone := h.gone i
  have hfree : (∀ j, j ≠ i → holds j = none) → free.Held (Function.update holds i none) := by
    intro hothers j
    by_cases hji : j = i
    · rw [hji, Function.update_self]
    · rw [Function.update_of_ne hji, hothers j hji]
  cases l with
  | free => apply hgone
  | read n =>
      obtain ⟨-, R, hcard, hR⟩ := h
      have herase : ∀ j, Function.update holds i none j ≠ none → j ∈ R.erase i := by
        intro j hj
        by_cases hji : j = i
        · rw [hji, Function.update_self] at hj
          cases hj rfl
        · rw [Function.update_of_ne hji] at hj
          apply Finset.mem_erase.mpr ⟨hji, hR j hj⟩
      have hcard' := Finset.card_erase_of_mem (hR i hi)
      cases n with
      | zero =>
          apply hfree
          intro j hji
          by_contra hj
          have hmem := Finset.mem_erase.mpr ⟨hji, hR j hj⟩
          rw [Finset.card_eq_zero.mp (by omega : (R.erase i).card = 0)] at hmem
          cases hmem
      | succ n => exact ⟨hgone.1, R.erase i, by omega, herase⟩
  | write =>
      apply hfree
      intro j hji
      by_contra hj
      apply hji (h.2 j i hj hi)

end Held

end RwLock
