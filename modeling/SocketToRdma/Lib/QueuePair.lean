import Mathlib.Data.List.Count

/-!
# Queue pairs

One end of a reliable connection between two queue pairs. A posted message is in flight until
it arrives at the other end, in the order of posting. There it takes one posted receive and
completes it; afterwards, at any time, the message itself is completed. Completions are polled
in their order. `α` is the type of the data of a message that is sent, `β` the type of the
immediate data of a message that is received.
-/

namespace QueuePair

/-- A message: of a send, or of an RDMA write with immediate data. -/
inductive Msg (α : Type*) where
  | send
  | writeWithImm (data : α)

/-- A work completion. -/
inductive Wc (β : Type*) where
  | send
  | rdmaWrite
  | recv
  | recvRdmaWithImm (imm : β)

/-- The completion of a message at the end that posted it. -/
@[simp]
def Msg.wc {α β : Type*} : Msg α → Wc β
  | .send => .send
  | .writeWithImm _ => .rdmaWrite

/-- The completion of the receive that a message takes. -/
@[simp]
def Msg.recvWc {α β : Type*} (imm : α → β) : Msg α → Wc β
  | .send => .recv
  | .writeWithImm data => .recvRdmaWithImm (imm data)

/-- A queue pair: the number of posted receives, the messages in flight, the messages that have
arrived and are not completed, and the completions that are not polled. -/
structure Qp (α β : Type*) where
  recvs : ℕ
  inFlight : List (Msg α)
  arrived : List (Msg α)
  cq : List (Wc β)

namespace Qp

variable {α β : Type*}

/-- A queue pair on which nothing was posted. -/
def create : Qp α β :=
  ⟨0, [], [], []⟩

/-- `ibv_post_recv` -/
def postRecv (q : Qp α β) : Qp α β :=
  { q with recvs := q.recvs + 1 }

/-- `ibv_post_send` -/
def postSend (q : Qp α β) (m : Msg α) : Qp α β :=
  { q with inFlight := q.inFlight ++ [m] }

/-- `ibv_poll_cq`, for one completion; none if there is none. -/
def poll (q : Qp α β) : Option (Wc β × Qp α β) :=
  match q.cq with
  | [] => none
  | wc :: cq => some (wc, { q with cq })

/-- The next message arrives. -/
def depart (q : Qp α β) : Option (Msg α × Qp α β) :=
  match q.inFlight with
  | [] => none
  | m :: inFlight => some (m, { q with inFlight, arrived := q.arrived ++ [m] })

/-- A message arrives, and takes a posted receive; none if no receive is posted. -/
def receive (q : Qp α β) (wc : Wc β) : Option (Qp α β) :=
  match q.recvs with
  | 0 => none
  | recvs + 1 => some { q with recvs, cq := q.cq ++ [wc] }

/-- A message that has arrived is completed. -/
def complete (q : Qp α β) : Option (Qp α β) :=
  match q.arrived with
  | [] => none
  | m :: arrived => some { q with arrived, cq := q.cq ++ [m.wc] }

end Qp

/-! ### Counting messages and completions -/

/-- The message is a send. -/
@[simp]
def Msg.isSend {α : Type*} : Msg α → Bool
  | .send => true
  | .writeWithImm _ => false

/-- The completion is of a receive that a send took. -/
@[simp]
def Wc.isRecv {β : Type*} : Wc β → Bool
  | .recv => true
  | _ => false

/-- The completion is of a receive that an RDMA write took. -/
@[simp]
def Wc.isRecvRdmaWithImm {β : Type*} : Wc β → Bool
  | .recvRdmaWithImm _ => true
  | _ => false

/-- The immediate data of a completion. -/
@[simp]
def Wc.immData {β : Type*} : Wc β → Option β
  | .recvRdmaWithImm imm => some imm
  | _ => none

namespace Qp

variable {α β : Type*}

/-- The number of sends in flight. -/
def sends (q : Qp α β) : ℕ :=
  q.inFlight.countP Msg.isSend

/-- The number of RDMA writes in flight. -/
def writes (q : Qp α β) : ℕ :=
  q.inFlight.countP (fun m => ! m.isSend)

/-- The number of messages that have arrived and are not completed. -/
def uncompleted (q : Qp α β) : ℕ :=
  q.arrived.length

/-- The number of unpolled completions. -/
def wcs (q : Qp α β) : ℕ :=
  q.cq.length

/-- The number of unpolled completions of receives that sends took. -/
def recvWcs (q : Qp α β) : ℕ :=
  q.cq.countP Wc.isRecv

/-- The number of unpolled completions of receives that RDMA writes took. -/
def immWcs (q : Qp α β) : ℕ :=
  q.cq.countP Wc.isRecvRdmaWithImm

variable {q q' : Qp α β} {m : Msg α} {wc : Wc β}

@[simp]
theorem counts_create :
  (create : Qp α β).recvs = 0 ∧ (create : Qp α β).uncompleted = 0 ∧ (create : Qp α β).wcs = 0 ∧
    (create : Qp α β).sends = 0 ∧ (create : Qp α β).writes = 0 ∧
    (create : Qp α β).recvWcs = 0 ∧ (create : Qp α β).immWcs = 0
  := ⟨rfl, rfl, rfl, rfl, rfl, rfl, rfl⟩

@[simp]
theorem counts_postRecv (q : Qp α β) :
  q.postRecv.recvs = q.recvs + 1 ∧ q.postRecv.uncompleted = q.uncompleted ∧ q.postRecv.wcs = q.wcs ∧
    q.postRecv.sends = q.sends ∧ q.postRecv.writes = q.writes ∧
    q.postRecv.recvWcs = q.recvWcs ∧ q.postRecv.immWcs = q.immWcs
  := ⟨rfl, rfl, rfl, rfl, rfl, rfl, rfl⟩

@[simp]
theorem counts_postSend (q : Qp α β) (m : Msg α) :
  (q.postSend m).recvs = q.recvs ∧ (q.postSend m).uncompleted = q.uncompleted ∧
    (q.postSend m).wcs = q.wcs ∧ (q.postSend m).sends = q.sends + (if m.isSend then 1 else 0) ∧
    (q.postSend m).writes = q.writes + (if m.isSend then 0 else 1) ∧
    (q.postSend m).recvWcs = q.recvWcs ∧ (q.postSend m).immWcs = q.immWcs
  := by
  refine ⟨rfl, rfl, rfl, ?_, ?_, rfl, rfl⟩
  · simp [sends, postSend, List.countP_singleton]
  · cases m with
    | send => simp [writes, postSend]
    | writeWithImm data => simp [writes, postSend]

/-- Polling takes the first completion. -/
theorem counts_poll (h : q.poll = some (wc, q')) :
  q'.recvs = q.recvs ∧ q'.uncompleted = q.uncompleted ∧ q.wcs = q'.wcs + 1 ∧
    q'.sends = q.sends ∧ q'.writes = q.writes ∧
    q.recvWcs = q'.recvWcs + (if wc.isRecv then 1 else 0) ∧
    q.immWcs = q'.immWcs + (if wc.isRecvRdmaWithImm then 1 else 0)
  := by
  rw [poll] at h
  split at h
  · simp at h
  · rename_i hcq
    simp only [Option.some.injEq, Prod.mk.injEq] at h
    obtain ⟨rfl, rfl⟩ := h
    simp [sends, writes, uncompleted, wcs, recvWcs, immWcs, hcq, List.countP_cons]

/-- The message that arrives is the one posted first. -/
theorem counts_depart (h : q.depart = some (m, q')) :
  q'.recvs = q.recvs ∧ q'.uncompleted = q.uncompleted + 1 ∧ q'.wcs = q.wcs ∧
    q.sends = q'.sends + (if m.isSend then 1 else 0) ∧
    q.writes = q'.writes + (if m.isSend then 0 else 1) ∧
    q'.recvWcs = q.recvWcs ∧ q'.immWcs = q.immWcs
  := by
  rw [depart] at h
  split at h
  · simp at h
  · rename_i hflight
    simp only [Option.some.injEq, Prod.mk.injEq] at h
    obtain ⟨hm, rfl⟩ := h
    rw [hm] at hflight ⊢
    cases m with
    | send => simp [sends, writes, uncompleted, wcs, recvWcs, immWcs, hflight, List.countP_cons]
    | writeWithImm data => simp [sends, writes, uncompleted, wcs, recvWcs, immWcs, hflight]

/-- A message that arrives takes a posted receive and completes it. -/
theorem counts_receive (h : q.receive wc = some q') :
  q.recvs = q'.recvs + 1 ∧ q'.uncompleted = q.uncompleted ∧ q'.wcs = q.wcs + 1 ∧
    q'.sends = q.sends ∧ q'.writes = q.writes ∧
    q'.recvWcs = q.recvWcs + (if wc.isRecv then 1 else 0) ∧
    q'.immWcs = q.immWcs + (if wc.isRecvRdmaWithImm then 1 else 0)
  := by
  rw [receive] at h
  split at h
  · simp at h
  · rename_i hrecvs
    obtain rfl := Option.some.inj h
    simp [sends, writes, uncompleted, wcs, recvWcs, immWcs, hrecvs, List.countP_singleton]

/-- The message that is completed is the one that arrived first. -/
theorem counts_complete (h : q.complete = some q') :
  q'.recvs = q.recvs ∧ q.uncompleted = q'.uncompleted + 1 ∧ q'.wcs = q.wcs + 1 ∧
    q'.sends = q.sends ∧ q'.writes = q.writes ∧
    q'.recvWcs = q.recvWcs ∧ q'.immWcs = q.immWcs
  := by
  rw [complete] at h
  split at h
  · simp at h
  · rename_i m arrived harrived
    obtain rfl := Option.some.inj h
    cases m with
    | send => simp [sends, writes, uncompleted, wcs, recvWcs, immWcs, harrived]
    | writeWithImm data => simp [sends, writes, uncompleted, wcs, recvWcs, immWcs, harrived]

/-- A message in flight may arrive. -/
theorem exists_depart (h : q.inFlight ≠ []) :
  ∃ m q', q.depart = some (m, q') ∧ q.inFlight.head? = some m
  := by
  obtain ⟨recvs, inFlight, arrived, cq⟩ := q
  cases inFlight with
  | nil => exact absurd rfl h
  | cons m inFlight => exact ⟨m, _, rfl, rfl⟩

/-- The messages in flight are the sends and the writes. -/
theorem inFlight_eq_nil (hsends : q.sends = 0) (hwrites : q.writes = 0) :
  q.inFlight = []
  := by
  by_contra hflight
  obtain ⟨m, q', hdepart, -⟩ := exists_depart hflight
  obtain ⟨-, -, -, hsends', hwrites', -⟩ := counts_depart hdepart
  cases m with
  | send => simp [hsends] at hsends'
  | writeWithImm data => simp [hwrites] at hwrites'

/-- A completion is of one kind. -/
theorem recvWcs_add_immWcs_le (q : Qp α β) :
  q.recvWcs + q.immWcs ≤ q.wcs
  := by
  rw [recvWcs, immWcs, wcs]
  induction q.cq with
  | nil => simp
  | cons wc cq ih =>
      have hwc : (if wc.isRecv then 1 else 0) + (if wc.isRecvRdmaWithImm then 1 else 0) ≤ 1 := by
        cases wc with
        | _ => simp
      simp only [List.countP_cons, List.length_cons]
      omega

/-! ### The immediate data -/

/-- The immediate data of the unpolled completions, in order. -/
def imms (q : Qp α β) : List β :=
  q.cq.filterMap Wc.immData

@[simp]
theorem imms_postRecv (q : Qp α β) :
  q.postRecv.imms = q.imms
  := rfl

@[simp]
theorem imms_postSend (q : Qp α β) (m : Msg α) :
  (q.postSend m).imms = q.imms
  := rfl

@[simp]
theorem inFlight_postSend (q : Qp α β) (m : Msg α) :
  (q.postSend m).inFlight = q.inFlight ++ [m]
  := rfl

/-- Polling takes the immediate data of the first completion. -/
theorem imms_poll (h : q.poll = some (wc, q')) :
  q.imms = wc.immData.toList ++ q'.imms ∧ q'.inFlight = q.inFlight ∧ q'.recvs = q.recvs
  := by
  rw [poll] at h
  split at h
  · simp at h
  · rename_i hcq
    simp only [Option.some.injEq, Prod.mk.injEq] at h
    obtain ⟨rfl, rfl⟩ := h
    rw [imms, hcq, List.filterMap_cons]
    refine ⟨?_, rfl, rfl⟩
    split <;> rename_i himm
    · rw [himm]
      rfl
    · rw [himm]
      rfl

/-- A message that departs leaves the completions and the receives. -/
theorem imms_depart (h : q.depart = some (m, q')) :
  q.inFlight = m :: q'.inFlight ∧ q'.imms = q.imms ∧ q'.recvs = q.recvs
  := by
  rw [depart] at h
  split at h
  · simp at h
  · rename_i hflight
    simp only [Option.some.injEq, Prod.mk.injEq] at h
    obtain ⟨rfl, rfl⟩ := h
    exact ⟨hflight, rfl, rfl⟩

/-- A message that arrives takes a receive, and completes with its immediate data. -/
theorem imms_receive (h : q.receive wc = some q') :
  q'.imms = q.imms ++ wc.immData.toList ∧ q'.inFlight = q.inFlight ∧ q.recvs = q'.recvs + 1
  := by
  rw [receive] at h
  split at h
  · simp at h
  · rename_i hrecvs
    obtain rfl := Option.some.inj h
    refine ⟨?_, rfl, hrecvs⟩
    rw [imms, List.filterMap_append, imms]
    cases wc with
    | _ => simp

/-- The completion of a message that was posted carries no immediate data. -/
theorem imms_complete (h : q.complete = some q') :
  q'.imms = q.imms ∧ q'.inFlight = q.inFlight ∧ q'.recvs = q.recvs
  := by
  rw [complete] at h
  split at h
  · simp at h
  · rename_i m arrived harrived
    obtain rfl := Option.some.inj h
    refine ⟨?_, rfl, rfl⟩
    rw [imms, List.filterMap_append, imms]
    cases m with
    | _ => simp

/-! ### What is left to happen -/

/-- The steps that a queue pair still has before it, a message in flight counting as `k`. -/
def load (k : ℕ) (q : Qp α β) : ℕ :=
  k * q.inFlight.length + 2 * q.arrived.length + q.cq.length

@[simp]
theorem load_postRecv (k : ℕ) (q : Qp α β) :
  q.postRecv.load k = q.load k
  := rfl

@[simp]
theorem load_postSend (k : ℕ) (q : Qp α β) (m : Msg α) :
  (q.postSend m).load k = q.load k + k
  := by
  simp only [load, postSend, List.length_append, List.length_singleton, Nat.mul_add]
  omega

theorem load_poll (k : ℕ) (h : q.poll = some (wc, q')) :
  q.load k = q'.load k + 1
  := by
  rw [poll] at h
  split at h
  · simp at h
  · rename_i hcq
    simp only [Option.some.injEq, Prod.mk.injEq] at h
    obtain ⟨-, rfl⟩ := h
    simp only [load, hcq, List.length_cons]
    omega

theorem load_depart (k : ℕ) (h : q.depart = some (m, q')) :
  q.load k + 2 = q'.load k + k
  := by
  rw [depart] at h
  split at h
  · simp at h
  · rename_i hflight
    simp only [Option.some.injEq, Prod.mk.injEq] at h
    obtain ⟨-, rfl⟩ := h
    simp only [load, hflight, List.length_cons, List.length_append, List.length_nil, Nat.mul_add]
    omega

theorem load_receive (k : ℕ) (h : q.receive wc = some q') :
  q'.load k = q.load k + 1
  := by
  rw [receive] at h
  split at h
  · simp at h
  · obtain rfl := Option.some.inj h
    simp only [load, List.length_append, List.length_singleton]
    omega

theorem load_complete (k : ℕ) (h : q.complete = some q') :
  q.load k = q'.load k + 1
  := by
  rw [complete] at h
  split at h
  · simp at h
  · rename_i harrived
    obtain rfl := Option.some.inj h
    simp only [load, harrived, List.length_cons, List.length_append, List.length_nil]
    omega

/-- A message in flight arrives where a receive is posted. -/
theorem exists_receive (hrecvs : 0 < q.recvs) (wc : Wc β) :
  ∃ q', q.receive wc = some q'
  := by
  rw [receive]
  cases hq : q.recvs with
  | zero => omega
  | succ recvs => exact ⟨_, rfl⟩

/-- A completion with immediate data can be polled. -/
theorem exists_poll (h : q.imms ≠ []) :
  ∃ wc q', q.poll = some (wc, q')
  := by
  rw [poll]
  cases hcq : q.cq with
  | nil =>
      rw [imms, hcq] at h
      exact absurd rfl h
  | cons wc cq => exact ⟨wc, _, rfl⟩

end Qp

end QueuePair
