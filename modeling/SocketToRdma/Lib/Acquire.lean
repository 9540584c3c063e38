import Mathlib.Data.List.Count
import Mathlib.Data.List.Pairwise

/-!
# Acquiring and releasing

A trace lists the acquisitions, the uses and the releases of resources. In a settled trace
every resource that was acquired is released exactly once, the resource released is always the
one that was acquired last, and no resource is used after its release.

The trace that acquires a resource, uses it and releases it is settled, and settled traces that
have no resource in common follow each other in a settled trace.
-/

namespace Acquire

/-- A step of a trace. -/
inductive Act (α : Type) where
  | acquire (a : α)
  | use (a : α)
  | release (a : α)
  deriving DecidableEq, Repr

variable {α : Type}

/-- The resource that a step is about. -/
def Act.resource : Act α → α
  | .acquire a => a
  | .use a => a
  | .release a => a

/-- Every resource released is the one acquired last, when `cur` was the last one before. -/
def ReleasesLast (cur : Option α) : List (Act α) → Prop
  | [] => True
  | .acquire a :: t => ReleasesLast (some a) t
  | .use _ :: t => ReleasesLast cur t
  | .release a :: t => cur = some a ∧ ReleasesLast cur t

/-- What holds of a trace on its own holds of it after another one. -/
theorem ReleasesLast.of_none {cur : Option α} {t : List (Act α)} (h : ReleasesLast none t) :
  ReleasesLast cur t
  := by
  induction t with
  | nil => trivial
  | cons x t ih =>
      cases x with
      | acquire a => exact h
      | use a => exact ih h
      | release a =>
          have := h.1
          contradiction

theorem ReleasesLast.append {cur : Option α} {t₁ t₂ : List (Act α)}
    (h₁ : ReleasesLast cur t₁) (h₂ : ReleasesLast none t₂) :
  ReleasesLast cur (t₁ ++ t₂)
  := by
  induction t₁ generalizing cur with
  | nil => exact h₂.of_none
  | cons x t ih =>
      cases x with
      | acquire a =>
          have h₁ : ReleasesLast (some a) t := h₁
          exact ih h₁
      | use a =>
          have h₁ : ReleasesLast cur t := h₁
          exact ih h₁
      | release a => exact ⟨h₁.1, ih h₁.2⟩

/-- A resource that is released was acquired in the trace, or last before it. -/
theorem ReleasesLast.acquired {cur : Option α} {t : List (Act α)} {a : α}
    (h : ReleasesLast cur t) (ha : .release a ∈ t) :
  cur = some a ∨ .acquire a ∈ t
  := by
  induction t generalizing cur with
  | nil => simp at ha
  | cons x t ih =>
      cases x with
      | acquire b =>
          have ha : .release a ∈ t := by simpa using ha
          have h : ReleasesLast (some b) t := h
          obtain hb | hb := ih h ha
          · simp_all
          · simp [hb]
      | use b =>
          have ha : .release a ∈ t := by simpa using ha
          have h : ReleasesLast cur t := h
          obtain hb | hb := ih h ha
          · exact .inl hb
          · simp [hb]
      | release b =>
          obtain ha | ha := List.mem_cons.mp ha
          · obtain rfl : a = b := by simpa using ha
            exact .inl h.1
          · obtain hb | hb := ih h.2 ha
            · exact .inl hb
            · simp [hb]

variable [DecidableEq α]

/-- Every resource acquired is released exactly once, what is released is what was acquired
last, and nothing is used after its release. -/
structure Settled (t : List (Act α)) : Prop where
  once : ∀ a, .acquire a ∈ t → t.count (.release a) = 1
  own : ReleasesLast none t
  live : t.Pairwise fun x y => ∀ a, x = .release a → y ≠ .use a

/-- The trace in which nothing happens is settled. -/
theorem settled_nil :
  Settled ([] : List (Act α))
  where
  once := by simp
  own := trivial
  live := .nil

/-- What is released in a settled trace was acquired in it. -/
theorem Settled.acquired {t : List (Act α)} {a : α} (h : Settled t) (ha : .release a ∈ t) :
  .acquire a ∈ t
  := by
  simpa using h.own.acquired ha

/-- A resource acquired, used any number of times, and released. -/
def bracket (a : α) (n : ℕ) : List (Act α) :=
  .acquire a :: (List.replicate n (.use a) ++ [.release a])

theorem settled_bracket (a : α) (n : ℕ) :
  Settled (bracket a n)
  := by
  have hown (n : ℕ) : ReleasesLast (some a) (List.replicate n (.use a) ++ [.release a]) := by
    induction n with
    | zero => exact ⟨rfl, trivial⟩
    | succ n ih => exact ih
  constructor
  · intro b hb
    obtain rfl : b = a := by simpa [bracket] using hb
    simp [bracket, List.count_replicate]
  · exact hown n
  · simp [bracket, List.pairwise_append, List.pairwise_replicate]

/-- Settled traces without a common resource follow each other in a settled trace. -/
theorem Settled.append {t₁ t₂ : List (Act α)} (h₁ : Settled t₁) (h₂ : Settled t₂)
    (hdisj : ∀ x ∈ t₁, ∀ y ∈ t₂, x.resource ≠ y.resource) :
  Settled (t₁ ++ t₂)
  := by
  constructor
  · intro a ha
    rw [List.count_append]
    obtain ha | ha := List.mem_append.mp ha
    · have hn : .release a ∉ t₂ := fun hr => hdisj _ ha _ hr rfl
      rw [h₁.once a ha, List.count_eq_zero_of_not_mem hn]
    · have hn : .release a ∉ t₁ := fun hr => hdisj _ hr _ ha rfl
      rw [h₂.once a ha, List.count_eq_zero_of_not_mem hn]
  · exact h₁.own.append h₂.own
  · apply List.pairwise_append.mpr
    refine ⟨h₁.live, h₂.live, ?_⟩
    rintro x hx y hy a rfl rfl
    exact hdisj _ hx _ hy rfl

end Acquire
