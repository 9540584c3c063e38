import Mathlib.Data.Nat.Notation

/-!
# Completion queues with notifications

A completion queue that is bound to a completion channel. A completion that is added while the
queue is armed queues one event and disarms it; an event is taken from the channel, which blocks
as long as there is none. A queue is watched when it is armed or has an event: then the next
completion is there together with an event. `α` is the type of the completions.
-/

namespace CompletionQueue

/-- A completion queue: the completions that are not polled, whether it is armed, and the number
of events that are queued. -/
structure Cq (α : Type*) where
  queue : List α
  armed : Bool
  events : ℕ

namespace Cq

variable {α : Type*}

/-- `ibv_create_cq` -/
def create : Cq α :=
  ⟨[], false, 0⟩

/-- `ibv_req_notify_cq` -/
def reqNotify (q : Cq α) : Cq α :=
  { q with armed := true }

/-- `ibv_get_cq_event`; none as long as it blocks. -/
def getEvent (q : Cq α) : Option (Cq α) :=
  match q.events with
  | 0 => none
  | events + 1 => some { q with events }

/-- `ibv_poll_cq`, for at most `n` completions. -/
def poll (q : Cq α) (n : ℕ) : List α × Cq α :=
  (q.queue.take n, { q with queue := q.queue.drop n })

/-- A completion is added. -/
def complete (q : Cq α) (a : α) : Cq α where
  queue := q.queue ++ [a]
  armed := false
  events := if q.armed then q.events + 1 else q.events

/-- The queue is armed, or has an event. -/
def Watched (q : Cq α) : Prop :=
  q.armed ∨ 0 < q.events

variable {q q' : Cq α}

theorem getEvent_eq_some :
  q.getEvent = some q' ↔ q.events = q'.events + 1 ∧ q'.queue = q.queue ∧ q'.armed = q.armed
  := by
  obtain ⟨queue, armed, events⟩ := q
  obtain ⟨queue', armed', events'⟩ := q'
  cases events with
  | zero => simp [getEvent]
  | succ events =>
      simp only [getEvent, Option.some.injEq, mk.injEq, Nat.add_right_cancel_iff]
      constructor
      · rintro ⟨rfl, rfl, rfl⟩
        exact ⟨rfl, rfl, rfl⟩
      · rintro ⟨rfl, rfl, rfl⟩
        exact ⟨rfl, rfl, rfl⟩

/-- An event is taken unless there is none. -/
theorem isSome_getEvent :
  q.getEvent.isSome ↔ 0 < q.events
  := by
  obtain ⟨queue, armed, events⟩ := q
  cases events with
  | zero => simp [getEvent]
  | succ events => simp [getEvent]

/-- When nothing is polled, nothing is left. -/
theorem queue_poll_of_nil (h : (q.poll 1).1 = []) :
  (q.poll 1).2.queue = []
  := by
  obtain ⟨queue, armed, events⟩ := q
  cases queue with
  | nil => rfl
  | cons a queue => cases h

/-! ### Watched queues -/

theorem watched_reqNotify (q : Cq α) :
  q.reqNotify.Watched
  := Or.inl rfl

theorem Watched.poll (h : q.Watched) (n : ℕ) :
  (q.poll n).2.Watched
  := h

/-- A completion of a watched queue comes with an event. -/
theorem Watched.events_pos (h : q.Watched) (a : α) :
  0 < (q.complete a).events
  := by
  simp only [complete]
  obtain harmed | hevents := h
  · rw [if_pos harmed]
    omega
  · split
    · omega
    · apply hevents

theorem Watched.complete (h : q.Watched) (a : α) :
  (q.complete a).Watched
  := Or.inr (h.events_pos a)

end Cq

end CompletionQueue
