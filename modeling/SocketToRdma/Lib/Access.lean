import Mathlib.Data.List.Basic

/-!
# Accesses to objects

A program that copies bytes reads or writes a range of an object of a certain size. `Access`
is such a range, and a list of accesses is what a piece of code touches; it stays inside its
objects when every range does.
-/

/-- A range of `length` bytes from `offset` on, of an object of `capacity` bytes. -/
structure Access where
  capacity : ℕ
  offset : ℕ
  length : ℕ
  deriving DecidableEq

namespace Access

/-- The range ends inside the object. -/
def InBounds (a : Access) : Prop :=
  a.offset + a.length ≤ a.capacity

instance (a : Access) : Decidable a.InBounds :=
  inferInstanceAs (Decidable (a.offset + a.length ≤ a.capacity))

/-- All the ranges end inside their objects. -/
def AllInBounds (l : List Access) : Prop :=
  ∀ a ∈ l, a.InBounds

instance (l : List Access) : Decidable (AllInBounds l) :=
  inferInstanceAs (Decidable (∀ a ∈ l, a.InBounds))

@[simp]
theorem allInBounds_nil :
  AllInBounds []
  := fun _ h => absurd h List.not_mem_nil

@[simp]
theorem allInBounds_cons (a : Access) (l : List Access) :
  AllInBounds (a :: l) ↔ a.offset + a.length ≤ a.capacity ∧ AllInBounds l
  := List.forall_mem_cons

@[simp]
theorem allInBounds_append (l l' : List Access) :
  AllInBounds (l ++ l') ↔ AllInBounds l ∧ AllInBounds l'
  := List.forall_mem_append

end Access
