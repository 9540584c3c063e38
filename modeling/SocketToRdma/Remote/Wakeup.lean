import Mathlib.Data.List.Count
import SocketToRdma.Lib.CompletionQueue
import SocketToRdma.Lib.Run

/-!
# Waiting for completions

Both ends wait for the completions of a connection with `ibv_get_cq_event`, and ask for the next
event before they poll. The host polls until it finds a reply and leaves the other completions
for its next call; the server polls until there is none left. A completion that comes between
the event and the polling finds the queue armed, or is polled: so neither end is blocked while
the completion it waits for is in the queue.

The calls of the verbs succeed. The completions are those of the network card, at any time: a
completion of the set-up is one of the work requests posted by then, and a reply is one to a
request that was sent.
-/

namespace SocketToRdma

open CompletionQueue Run

/-- A successful work completion: of a receive that an RDMA write with immediate data took, with
the number of the request, or another one, of a message that was sent or of a receive of the
set-up. -/
inductive Completion where
  | recvRdmaWithImm (request : ℕ)
  | other
  deriving DecidableEq

/-- The numbers of the requests whose completions are among these. -/
def completedRequests (wcs : List Completion) : List ℕ :=
  wcs.filterMap fun
    | .recvRdmaWithImm n => some n
    | .other => none

/-! ### The set-up -/

/-- Where a thread is in `process_work_completion_events`, with the number of completions that it
still waits for. -/
inductive SetUpPc where
  | getCqEvent
  | reqNotifyCq
  | pollCq (left : ℕ)
  | done

/-- The completions that are still waited for. -/
def SetUpPc.left (maxWc : ℕ) : SetUpPc → ℕ
  | getCqEvent | reqNotifyCq => maxWc
  | pollCq left => left
  | done => 0

/-- A thread that sets its connection up, its completion queue, and the number of posted work
requests that are not completed. -/
structure SetUp where
  pc : SetUpPc
  cq : Cq Completion
  outstanding : ℕ

/-- A step of the thread, or a completion. -/
inductive SetUpAct where
  | thread
  | complete

namespace SetUp

/-- The set-up once the completion queue was created and armed, and `maxWc` work requests were
posted. -/
def start (maxWc : ℕ) : SetUp :=
  ⟨.getCqEvent, Cq.create.reqNotify, maxWc⟩

/-- `process_work_completion_events` -/
def threadStep (maxWc : ℕ) (s : SetUp) : Option SetUp :=
  match s.pc with
  | .getCqEvent => s.cq.getEvent.map fun cq => { s with pc := .reqNotifyCq, cq }
  | .reqNotifyCq => some { s with pc := .pollCq maxWc, cq := s.cq.reqNotify }
  | .pollCq left =>
      let (wcs, cq) := s.cq.poll left
      some { s with pc := if wcs.length < left then .pollCq (left - wcs.length) else .done, cq }
  | .done => none

/-- The state after an action. -/
def step (maxWc : ℕ) (s : SetUp) : SetUpAct → Option SetUp
  | .thread => s.threadStep maxWc
  | .complete =>
      match s.outstanding with
      | 0 => none
      | outstanding + 1 => some ⟨s.pc, s.cq.complete .other, outstanding⟩

/-- Exactly the completions that are waited for are still to come, and the queue is watched. -/
structure Inv (maxWc : ℕ) (s : SetUp) : Prop where
  watched : s.pc ≠ .reqNotifyCq → s.cq.Watched
  left : s.cq.queue.length + s.outstanding = s.pc.left maxWc

theorem inv_start (maxWc : ℕ) :
  (start maxWc).Inv maxWc
  := by
  constructor
  · intro _
    apply Cq.watched_reqNotify
  · apply Nat.zero_add

theorem inv_step {maxWc : ℕ} {s s' : SetUp} {a : SetUpAct} (h : s.Inv maxWc)
    (hs : step maxWc s a = some s') :
  s'.Inv maxWc
  := by
  cases a with
  | complete =>
      simp only [step] at hs
      split at hs
      · cases hs
      case h_2 outstanding hout =>
        obtain rfl := Option.some.inj hs
        constructor
        · intro hpc
          apply (h.watched hpc).complete
        · have hleft := h.left
          simp only [Cq.complete, List.length_append, List.length_singleton]
          omega
  | thread =>
      simp only [step, threadStep] at hs
      split at hs
      case h_1 hpc =>
        obtain ⟨cq, hcq, rfl⟩ := Option.map_eq_some_iff.mp hs
        obtain ⟨-, hqueue, -⟩ := Cq.getEvent_eq_some.mp hcq
        constructor
        · intro hne
          contradiction
        · rw [hqueue, h.left, hpc]
          rfl
      case h_2 hpc =>
        obtain rfl := Option.some.inj hs
        constructor
        · intro _
          apply Cq.watched_reqNotify
        · have hleft := h.left
          rw [hpc] at hleft
          apply hleft
      case h_3 left hpc =>
        obtain rfl := Option.some.inj hs
        have hwatched := h.watched (by rw [hpc]; simp)
        have hleft := h.left
        simp only [hpc, SetUpPc.left] at hleft
        constructor
        · intro _
          apply hwatched
        · simp only [Cq.poll, List.length_take, List.length_drop]
          split
          · simp only [SetUpPc.left]
            omega
          · simp only [SetUpPc.left]
            omega
      · cases hs

end SetUp

/-- A completion queue as the set-up of its connection leaves it, for which `maxWc` completions were
waited for. -/
def LeftBySetUp (maxWc : ℕ) (cq : Cq Completion) : Prop :=
  ∃ as s, run (SetUp.step maxWc) (.start maxWc) as = some s ∧ s.pc = .done ∧ s.cq = cq

/-- The set-up leaves an empty queue that is watched. -/
theorem LeftBySetUp.queue_watched {maxWc : ℕ} {cq : Cq Completion} (h : LeftBySetUp maxWc cq) :
  cq.queue = [] ∧ cq.Watched
  := by
  obtain ⟨as, s, hrun, hpc, rfl⟩ := h
  have hinv : s.Inv maxWc := run_invariant (fun _ _ _ hinv _ hs => SetUp.inv_step hinv hs)
    (SetUp.inv_start maxWc) (along_of_mem fun _ _ => trivial) hrun
  have hleft := hinv.left
  rw [hpc] at hleft
  constructor
  · apply List.eq_nil_of_length_eq_zero
    apply Nat.eq_zero_of_add_eq_zero_right hleft
  · apply hinv.watched
    rw [hpc]
    simp

/-! ### The host -/

/-- Where the thread of the host is: between two calls, or in `process_poll_cq_imm` and
`process_rdma_get_cq_event`. -/
inductive HostWaitPc where
  | idle
  | getCqEvent
  | reqNotifyCq
  | pollCq

/-- The thread of the host, its completion queue, and the number of requests it sent. -/
structure HostWait where
  pc : HostWaitPc
  cq : Cq Completion
  requests : ℕ

/-- A step of the thread, a call, which sends a request, the removal of a completion by a call that
has no room to send its request, or a completion. -/
inductive HostWaitAct where
  | thread
  | call
  | makeRoom
  | complete (wc : Completion)

namespace HostWait

/-- The host after the set-up. -/
def start (cq : Cq Completion) : HostWait :=
  ⟨.idle, cq, 0⟩

/-- `process_poll_cq_imm` of the host: it returns at a reply, and waits for an event again when
there is no completion. -/
def threadStep (s : HostWait) : Option HostWait :=
  match s.pc with
  | .idle => none
  | .getCqEvent => s.cq.getEvent.map fun cq => { s with pc := .reqNotifyCq, cq }
  | .reqNotifyCq => some { s with pc := .pollCq, cq := s.cq.reqNotify }
  | .pollCq =>
      match s.cq.poll 1 with
      | ([], cq) => some { s with pc := .getCqEvent, cq }
      -- such a completion always has the flag `IBV_WC_WITH_IMM`
      | (.recvRdmaWithImm _ :: _, cq) => some { s with pc := .idle, cq }
      | (.other :: _, cq) => some { s with cq }

/-- The completion is not a reply to a request that was not sent. -/
def Sent (s : HostWait) : Completion → Prop
  | .recvRdmaWithImm n => n ≤ s.requests
  | .other => True

instance (s : HostWait) : DecidablePred s.Sent := fun wc => by
  cases wc <;> unfold Sent <;> infer_instance

/-- The state after an action. -/
def step (s : HostWait) : HostWaitAct → Option HostWait
  | .thread => s.threadStep
  | .call =>
      match s.pc with
      | .idle => some ⟨.getCqEvent, s.cq, s.requests + 1⟩
      | _ => none
  | .makeRoom =>
      match s.pc with
      | .idle => some { s with cq := (s.cq.poll 1).2 }
      | _ => none
  | .complete wc => if s.Sent wc then some { s with cq := s.cq.complete wc } else none

/-- The thread is blocked: it waits for an event, and there is none. -/
def Blocked (s : HostWait) : Prop :=
  s.pc = .getCqEvent ∧ s.cq.events = 0

/-- The queue is watched except before the next event is asked for, its replies are to requests
that were sent, and the one that is waited for comes with an event. -/
structure Inv (s : HostWait) : Prop where
  watched : s.pc ≠ .reqNotifyCq → s.cq.Watched
  sent : ∀ wc ∈ s.cq.queue, s.Sent wc
  announced : s.pc = .getCqEvent → .recvRdmaWithImm s.requests ∈ s.cq.queue → 0 < s.cq.events

theorem inv_start {cq : Cq Completion} (h : LeftBySetUp 2 cq) :
  (start cq).Inv
  := by
  obtain ⟨hqueue, hwatched⟩ := h.queue_watched
  constructor
  · intro _
    apply hwatched
  · simp [start, hqueue]
  · intro hpc
    cases hpc

theorem inv_complete {s : HostWait} {wc : Completion} (h : s.Inv) (hsent : s.Sent wc) :
  Inv { s with cq := s.cq.complete wc }
  := by
  constructor
  · intro hpc
    apply (h.watched hpc).complete
  · intro wc' hmem
    obtain hmem | hmem := List.mem_append.mp hmem
    · apply h.sent wc' hmem
    · obtain rfl := List.mem_singleton.mp hmem
      apply hsent
  · intro hpc _
    apply (h.watched _).events_pos
    intro hne
    cases hpc.symm.trans hne

/-- The reply to a new request is not in the queue. -/
theorem inv_call {s : HostWait} (h : s.Inv) (hpc : s.pc = .idle) :
  Inv ⟨.getCqEvent, s.cq, s.requests + 1⟩
  := by
  constructor
  · intro _
    apply h.watched
    rw [hpc]
    simp
  · intro wc hmem
    have hsent := h.sent wc hmem
    cases wc with
    | recvRdmaWithImm n => apply Nat.le_succ_of_le hsent
    | other => trivial
  · intro _ hmem
    have hsent := h.sent _ hmem
    simp only [Sent] at hsent
    omega

/-- The thread leaves a part of the queue, and waits for an event when nothing is left. -/
theorem inv_pollCq {s : HostWait} (h : s.Inv) (hpc : s.pc ≠ .reqNotifyCq) {pc : HostWaitPc} {n : ℕ}
    (hempty : pc = .getCqEvent → (s.cq.poll n).2.queue = []) :
  Inv { s with pc, cq := (s.cq.poll n).2 }
  := by
  constructor
  · intro _
    apply h.watched hpc
  · intro wc hmem
    apply h.sent wc (List.mem_of_mem_drop hmem)
  · intro hget hmem
    simp only [hempty hget] at hmem
    cases hmem

theorem inv_step {s s' : HostWait} {a : HostWaitAct} (h : s.Inv) (hs : s.step a = some s') :
  s'.Inv
  := by
  cases a with
  | complete wc =>
      simp only [step] at hs
      split at hs
      case isTrue hsent =>
        obtain rfl := Option.some.inj hs
        apply inv_complete h hsent
      case isFalse => cases hs
  | call =>
      simp only [step] at hs
      split at hs
      case h_1 hpc =>
        obtain rfl := Option.some.inj hs
        apply inv_call h hpc
      case h_2 => cases hs
  | makeRoom =>
      simp only [step] at hs
      split at hs
      case h_1 hpc =>
        obtain rfl := Option.some.inj hs
        apply inv_pollCq (n := 1) h (by rw [hpc]; simp)
        intro hget
        cases hpc.symm.trans hget
      case h_2 => cases hs
  | thread =>
      simp only [step, threadStep] at hs
      split at hs
      · cases hs
      case h_2 hpc =>
        obtain ⟨cq, hcq, rfl⟩ := Option.map_eq_some_iff.mp hs
        obtain ⟨-, hqueue, -⟩ := Cq.getEvent_eq_some.mp hcq
        constructor
        · intro hne
          contradiction
        · rw [hqueue]
          apply h.sent
        · intro hne
          cases hne
      case h_3 hpc =>
        obtain rfl := Option.some.inj hs
        constructor
        · intro _
          apply Cq.watched_reqNotify
        · apply h.sent
        · intro hne
          cases hne
      case h_4 hpc =>
        have hne : s.pc ≠ .reqNotifyCq := by
          rw [hpc]
          simp
        split at hs
        case h_1 cq hpoll =>
          obtain rfl := Option.some.inj hs
          obtain ⟨hwcs, rfl⟩ := Prod.mk.inj hpoll
          apply inv_pollCq (n := 1) h hne
          intro _
          apply Cq.queue_poll_of_nil hwcs
        case h_2 hpoll =>
          obtain rfl := Option.some.inj hs
          obtain ⟨-, rfl⟩ := Prod.mk.inj hpoll
          apply inv_pollCq (n := 1) h hne
          intro hget
          cases hget
        case h_3 hpoll =>
          obtain rfl := Option.some.inj hs
          obtain ⟨-, rfl⟩ := Prod.mk.inj hpoll
          apply inv_pollCq (n := 1) h hne
          intro hget
          cases hpc.symm.trans hget

/-- While the thread of the host is blocked, the reply to its request is not in the queue. -/
theorem reply_not_mem {cq : Cq Completion} (hcq : LeftBySetUp 2 cq) {as : List HostWaitAct}
    {s : HostWait} (hrun : run step (start cq) as = some s) (hblocked : s.Blocked) :
  .recvRdmaWithImm s.requests ∉ s.cq.queue
  := by
  have hinv : s.Inv := run_invariant (fun _ _ _ hinv _ hs => inv_step hinv hs) (inv_start hcq)
    (along_of_mem fun _ _ => trivial) hrun
  intro hmem
  have hevents := hinv.announced hblocked.1 hmem
  rw [hblocked.2] at hevents
  cases hevents

end HostWait

/-! ### The server -/

/-- Where the thread of the server is in `process_poll_cq_imm`. -/
inductive ServerWaitPc where
  | getCqEvent
  | reqNotifyCq
  | pollCq

/-- The number of steps until the thread polls. -/
def ServerWaitPc.distance : ServerWaitPc → ℕ
  | getCqEvent => 2
  | reqNotifyCq => 1
  | pollCq => 0

/-- The thread of the server and its completion queue, with the requests that have arrived and
those that were dispatched, in order. -/
structure ServerWait where
  pc : ServerWaitPc
  cq : Cq Completion
  arrived : List ℕ
  dispatched : List ℕ

/-- A step of the thread, or a completion. -/
inductive ServerWaitAct where
  | thread
  | complete (wc : Completion)
  deriving DecidableEq

namespace ServerWait

/-- The server after the set-up. -/
def start (cq : Cq Completion) : ServerWait :=
  ⟨.getCqEvent, cq, [], []⟩

/-- `process_poll_cq_imm` of the server: it dispatches the requests until there is no completion,
and waits for an event again. -/
def threadStep (s : ServerWait) : Option ServerWait :=
  match s.pc with
  | .getCqEvent => s.cq.getEvent.map fun cq => { s with pc := .reqNotifyCq, cq }
  | .reqNotifyCq => some { s with pc := .pollCq, cq := s.cq.reqNotify }
  | .pollCq =>
      match s.cq.poll 1 with
      | ([], cq) => some { s with pc := .getCqEvent, cq }
      | (wcs, cq) => some { s with cq, dispatched := s.dispatched ++ completedRequests wcs }

/-- The state after an action. -/
def step (s : ServerWait) : ServerWaitAct → Option ServerWait
  | .thread => s.threadStep
  | .complete wc =>
      some { s with cq := s.cq.complete wc, arrived := s.arrived ++ completedRequests [wc] }

/-- The thread is blocked: it waits for an event, and there is none. -/
def Blocked (s : ServerWait) : Prop :=
  s.pc = .getCqEvent ∧ s.cq.events = 0

/-- The queue is watched except before the next event is asked for, a queue that is waited for
has an event unless it is empty, and the requests are dispatched in the order of arrival. -/
structure Inv (s : ServerWait) : Prop where
  watched : s.pc ≠ .reqNotifyCq → s.cq.Watched
  announced : s.pc = .getCqEvent → s.cq.queue ≠ [] → 0 < s.cq.events
  once : s.arrived = s.dispatched ++ completedRequests s.cq.queue

theorem inv_start {cq : Cq Completion} (h : LeftBySetUp 1 cq) :
  (start cq).Inv
  := by
  obtain ⟨hqueue, hwatched⟩ := h.queue_watched
  constructor
  · intro _
    apply hwatched
  · intro _ hne
    contradiction
  · simp [start, hqueue, completedRequests]

theorem completedRequests_append (wcs wcs' : List Completion) :
  completedRequests (wcs ++ wcs') = completedRequests wcs ++ completedRequests wcs'
  := List.filterMap_append

/-- What a step of the thread does: it takes an event, asks for the next one, finds the queue empty,
or takes a completion from the queue and dispatches its request. -/
inductive ThreadStep (s : ServerWait) : ServerWait → Prop where
  | getCqEvent {cq} (hpc : s.pc = .getCqEvent) (hcq : s.cq.getEvent = some cq) :
      ThreadStep s { s with pc := .reqNotifyCq, cq }
  | reqNotifyCq (hpc : s.pc = .reqNotifyCq) :
      ThreadStep s { s with pc := .pollCq, cq := s.cq.reqNotify }
  | empty (hpc : s.pc = .pollCq) (hqueue : s.cq.queue = []) :
      ThreadStep s { s with pc := .getCqEvent }
  | dispatch {wc queue} (hpc : s.pc = .pollCq) (hqueue : s.cq.queue = wc :: queue) :
      ThreadStep s
        { s with cq := { s.cq with queue }, dispatched := s.dispatched ++ completedRequests [wc] }

theorem threadStep_cases {s s' : ServerWait} (h : s.threadStep = some s') :
  ThreadStep s s'
  := by
  obtain ⟨pc, ⟨queue, armed, events⟩, arrived, dispatched⟩ := s
  cases pc with
  | getCqEvent =>
      obtain ⟨cq, hcq, rfl⟩ := Option.map_eq_some_iff.mp h
      exact ThreadStep.getCqEvent rfl hcq
  | reqNotifyCq =>
      obtain rfl := Option.some.inj h
      exact ThreadStep.reqNotifyCq rfl
  | pollCq =>
      cases queue with
      | nil =>
          obtain rfl := Option.some.inj h
          exact ThreadStep.empty rfl rfl
      | cons wc queue =>
          obtain rfl := Option.some.inj h
          exact ThreadStep.dispatch rfl rfl

theorem inv_complete {s : ServerWait} (h : s.Inv) (wc : Completion) :
  Inv { s with cq := s.cq.complete wc, arrived := s.arrived ++ completedRequests [wc] }
  := by
  constructor
  · intro hpc
    apply (h.watched hpc).complete
  · intro hpc _
    apply (h.watched _).events_pos
    intro hne
    cases hpc.symm.trans hne
  · simp only [Cq.complete]
    rw [completedRequests_append, ← List.append_assoc, ← h.once]

theorem inv_threadStep {s s' : ServerWait} (h : s.Inv) (hs : ThreadStep s s') :
  s'.Inv
  := by
  cases hs with
  | getCqEvent hpc hcq =>
      obtain ⟨-, hqueue, -⟩ := Cq.getEvent_eq_some.mp hcq
      constructor
      · intro hne
        contradiction
      · intro hne
        cases hne
      · simp only [hqueue]
        apply h.once
  | reqNotifyCq hpc =>
      constructor
      · intro _
        apply Cq.watched_reqNotify
      · intro hne
        cases hne
      · apply h.once
  | empty hpc hqueue =>
      constructor
      · intro _
        apply h.watched
        rw [hpc]
        simp
      · intro _ hne
        contradiction
      · apply h.once
  | dispatch hpc hqueue =>
      constructor
      · intro hne
        apply h.watched hne
      · intro hne
        cases hpc.symm.trans hne
      · rw [h.once, hqueue, List.append_assoc, ← completedRequests_append]
        rfl

theorem inv_step {s s' : ServerWait} {a : ServerWaitAct} (h : s.Inv) (hs : s.step a = some s') :
  s'.Inv
  := by
  cases a with
  | thread => apply inv_threadStep h (threadStep_cases hs)
  | complete wc =>
      obtain rfl := Option.some.inj hs
      apply inv_complete h

/-- The thread takes a step unless it is blocked. -/
theorem isSome_threadStep {s : ServerWait} (h : ¬ s.Blocked) :
  s.threadStep.isSome
  := by
  obtain ⟨pc, ⟨queue, armed, events⟩, arrived, dispatched⟩ := s
  cases pc with
  | getCqEvent =>
      simp only [threadStep, Option.isSome_map]
      rw [Cq.isSome_getEvent]
      apply Nat.pos_of_ne_zero
      intro hevents
      exact h ⟨rfl, hevents⟩
  | reqNotifyCq => rfl
  | pollCq =>
      cases queue with
      | nil => rfl
      | cons wc queue => rfl

/-! ### Every completion is polled -/

theorem dispatched_prefix {as : List ServerWaitAct} {s t : ServerWait}
    (hrun : run step s as = some t) :
  s.dispatched <+: t.dispatched
  := by
  induction as generalizing s with
  | nil =>
      obtain rfl := Option.some.inj hrun
      apply List.prefix_rfl
  | cons a as ih =>
      obtain ⟨s', hs, hrun'⟩ := run_cons_eq_some.mp hrun
      apply List.IsPrefix.trans _ (ih hrun')
      cases a with
      | complete wc =>
          obtain rfl := Option.some.inj hs
          apply List.prefix_rfl
      | thread =>
          cases threadStep_cases hs with
          | dispatch => apply List.prefix_append
          | _ => apply List.prefix_rfl

/-- The completions at the front of the queue are polled after as many steps of the thread as there
are, and those until it polls. -/
theorem dispatched_of_steps {as : List ServerWaitAct} {s t : ServerWait}
    {front back : List Completion} (hrun : run step s as = some t)
    (hqueue : s.cq.queue = front ++ back)
    (hsteps : front.length + s.pc.distance ≤ as.count .thread) :
  s.dispatched ++ completedRequests front <+: t.dispatched
  := by
  induction as generalizing s front back with
  | nil =>
      obtain rfl : front = [] := by
        apply List.eq_nil_of_length_eq_zero
        apply Nat.eq_zero_of_add_eq_zero_right (Nat.eq_zero_of_le_zero hsteps)
      rw [completedRequests, List.filterMap_nil, List.append_nil]
      apply dispatched_prefix hrun
  | cons a as ih =>
      obtain ⟨s', hs, hrun'⟩ := run_cons_eq_some.mp hrun
      cases a with
      | complete wc =>
          obtain rfl := Option.some.inj hs
          have hqueue' : (s.cq.complete wc).queue = front ++ (back ++ [wc]) := by
            simp only [Cq.complete, hqueue, List.append_assoc]
          apply ih hrun' hqueue'
          simpa using hsteps
      | thread =>
          rw [List.count_cons_self] at hsteps
          cases front with
          | nil =>
              rw [completedRequests, List.filterMap_nil, List.append_nil]
              apply dispatched_prefix hrun
          | cons wc front =>
              cases threadStep_cases hs with
              | getCqEvent hpc hcq =>
                  obtain ⟨-, hqueue', -⟩ := Cq.getEvent_eq_some.mp hcq
                  apply ih hrun' (hqueue'.trans hqueue)
                  simp only [hpc, ServerWaitPc.distance] at hsteps ⊢
                  omega
              | reqNotifyCq hpc =>
                  apply ih hrun' hqueue
                  simp only [hpc, ServerWaitPc.distance] at hsteps ⊢
                  omega
              | empty hpc hnil =>
                  rw [hnil] at hqueue
                  cases hqueue
              | dispatch hpc hcons =>
                  rw [hcons, List.cons_append] at hqueue
                  obtain ⟨rfl, hrest⟩ := List.cons.inj hqueue
                  have hprefix := ih hrun' hrest (by
                    simp only [hpc, ServerWaitPc.distance, List.length_cons] at hsteps ⊢
                    omega)
                  rw [List.append_assoc, ← completedRequests_append] at hprefix
                  apply hprefix

/-- An end that was set up satisfies the invariant as long as it runs. -/
theorem inv_run {cq : Cq Completion} (hcq : LeftBySetUp 1 cq) {as : List ServerWaitAct}
    {s : ServerWait} (hrun : run step (start cq) as = some s) :
  s.Inv
  := run_invariant (fun _ _ _ hinv _ hs => inv_step hinv hs) (inv_start hcq)
    (along_of_mem fun _ _ => trivial) hrun

/-- While the thread of the server is blocked, the queue is empty. -/
theorem Inv.queue_eq_nil {s : ServerWait} (h : s.Inv) (hblocked : s.Blocked) :
  s.cq.queue = []
  := by
  by_contra hne
  have hevents := h.announced hblocked.1 hne
  rw [hblocked.2] at hevents
  cases hevents

/-- Every request that has arrived is dispatched when the thread has taken as many steps as there
are completions in the queue, and two. -/
theorem Inv.arrived_prefix {s t : ServerWait} (h : s.Inv) {as : List ServerWaitAct}
    (hrun : run step s as = some t) (hsteps : s.cq.queue.length + 2 ≤ as.count .thread) :
  s.arrived <+: t.dispatched
  := by
  have hqueue : s.cq.queue = s.cq.queue ++ [] := (List.append_nil _).symm
  rw [h.once]
  apply dispatched_of_steps hrun hqueue
  have hdistance : s.pc.distance ≤ 2 := by
    cases s.pc <;> simp [ServerWaitPc.distance]
  omega

end ServerWait

/-! ### Both ends -/

/-- From the queues that the set-up leaves, in every run of either end: the host is not blocked while
the reply to its request is in its queue. The server is not blocked while its queue has a completion;
the requests are dispatched once, in the order of arrival; and those that have arrived are
dispatched after a number of steps of the thread, which takes its next step unless it is
blocked. -/
theorem no_lost_wakeup {hostCq serverCq : Cq Completion} {as : List HostWaitAct}
    {bs : List ServerWaitAct} {h : HostWait} {s : ServerWait} (hhost : LeftBySetUp 2 hostCq)
    (hserver : LeftBySetUp 1 serverCq) (hrun : run HostWait.step (.start hostCq) as = some h)
    (hrun' : run ServerWait.step (.start serverCq) bs = some s) :
  (h.Blocked → .recvRdmaWithImm h.requests ∉ h.cq.queue) ∧
    (s.Blocked → s.cq.queue = []) ∧
    s.arrived = s.dispatched ++ completedRequests s.cq.queue ∧
    (¬ s.Blocked → (s.step .thread).isSome) ∧
    ∀ cs t, run ServerWait.step s cs = some t → s.cq.queue.length + 2 ≤ cs.count .thread →
      s.arrived <+: t.dispatched
  := by
  have hinv := ServerWait.inv_run hserver hrun'
  refine ⟨HostWait.reply_not_mem hhost hrun, hinv.queue_eq_nil, hinv.once,
    ServerWait.isSome_threadStep, ?_⟩
  intro cs t hcs hsteps
  apply hinv.arrived_prefix hcs hsteps

/-- The set-up of an end whose completions come one by one. -/
theorem leftBySetUp_one :
  LeftBySetUp 1 ⟨[], true, 0⟩
  := ⟨[.complete, .thread, .thread, .thread], _, rfl, rfl, rfl⟩

/-- The second completion of the set-up leaves an event behind. -/
theorem leftBySetUp_two :
  LeftBySetUp 2 ⟨[], false, 1⟩
  := ⟨[.complete, .thread, .thread, .complete, .thread], _, rfl, rfl, rfl⟩

/-- A reply that comes between two steps of the thread, and a request that comes while it is
blocked. -/
theorem no_lost_wakeup_call :
  ∃ h s, run HostWait.step (.start ⟨[], false, 1⟩)
      [.call, .thread, .complete (.recvRdmaWithImm 1), .thread] = some h ∧
    run ServerWait.step (.start ⟨[], true, 0⟩) [.complete (.recvRdmaWithImm 1)] = some s ∧
    (h.Blocked → .recvRdmaWithImm h.requests ∉ h.cq.queue) ∧
    (s.Blocked → s.cq.queue = []) ∧
    s.arrived = s.dispatched ++ completedRequests s.cq.queue ∧
    (¬ s.Blocked → (s.step .thread).isSome) ∧
    ∀ cs t, run ServerWait.step s cs = some t → s.cq.queue.length + 2 ≤ cs.count .thread →
      s.arrived <+: t.dispatched
  := by
  have hhost : run HostWait.step (.start ⟨[], false, 1⟩)
    [.call, .thread, .complete (.recvRdmaWithImm 1), .thread] = some _ := rfl
  have hserver : run ServerWait.step (.start ⟨[], true, 0⟩) [.complete (.recvRdmaWithImm 1)] =
    some _ := rfl
  exact ⟨_, _, rfl, rfl, no_lost_wakeup leftBySetUp_two leftBySetUp_one hhost hserver⟩

end SocketToRdma
