import SocketToRdma.Host.Request
import SocketToRdma.Remote.Wakeup

/-!
# Posting a request

`post_write_req` posts a request with `ibv_post_send`, up to four times: when there was no memory
for it, completions are taken from the queue before the next attempt, up to 32 of them. Between
any two steps of the thread the network card can add completions; a reply is one to a request
that was posted, and comes once. The request is posted at most once, and a completion that is
taken from the queue is not the reply to it.
-/

namespace SocketToRdma

open CompletionQueue Run

/-- `max_retries` -/
def maxRetries : ℕ := 3

/-- `cq_poll_attempts` -/
def cqPollAttempts : ℕ := 32

/-- Where the thread is in `post_write_req`: at `ibv_post_send`, at `ibv_poll_cq` after so many
completions were taken, returned with a value, or gone with the process. -/
inductive PostWritePc where
  | postSend (attempt : ℕ)
  | pollCq (attempt i : ℕ)
  | returned (ret : ℤ)
  | exited
  deriving DecidableEq

/-- A thread that posts a request: the completion queue of the connection, the number of requests
sent on it, those whose reply is still to come, the number of calls of `ibv_post_send` and of
those that succeeded, and the completions taken after each attempt. -/
structure PostWrite where
  pc : PostWritePc
  cq : Cq Completion
  requests : ℕ
  due : List ℕ
  attempts : ℕ
  posted : ℕ
  drained : ℕ → List Completion

/-- A step of the thread, with what `ibv_post_send` returns and the value of `errno` after it or
whether `ibv_poll_cq` fails, or a completion. -/
inductive PostWriteAct where
  | postSend (ret errno : ℤ)
  | pollCq (fails : Bool)
  | complete (wc : Completion)

/-- The action is a step of the thread. -/
def PostWriteAct.isThread : PostWriteAct → Bool
  | postSend _ _ | pollCq _ => true
  | complete _ => false

/-- The action is a call of `ibv_post_send`. -/
def PostWriteAct.isPost : PostWriteAct → Bool
  | postSend _ _ => true
  | _ => false

/-- The action is a call of `ibv_post_send` that succeeds. -/
def PostWriteAct.isPosted : PostWriteAct → Bool
  | postSend ret _ => ret == 0
  | _ => false

namespace PostWrite

/-- `ENOMEM` -/
def enomem : ℤ := 12

/-- The start of a call, on a connection in any state. -/
def start (cq : Cq Completion) (requests : ℕ) (due : List ℕ) : PostWrite :=
  ⟨.postSend 0, cq, requests, due, 0, 0, fun _ => []⟩

/-- The next attempt, and the failure after the last one. -/
def retry (attempt : ℕ) : PostWritePc :=
  if attempt < maxRetries then .postSend (attempt + 1) else .returned (-1)

/-- `ibv_post_send`, and what follows its result. -/
def postSend (s : PostWrite) (attempt : ℕ) (ret errno : ℤ) : PostWrite :=
  if ret = 0 then
    { s with
      pc := .returned 1
      requests := s.requests + 1
      due := s.due ++ [s.requests + 1]
      attempts := s.attempts + 1
      posted := s.posted + 1 }
  else if ret = enomem ∨ errno = enomem then
    { s with pc := .pollCq attempt 0, attempts := s.attempts + 1 }
  else { s with pc := .exited, attempts := s.attempts + 1 }

/-- `ibv_poll_cq` for one completion; its status decides only what is logged and how long the
thread sleeps. -/
def pollCq (s : PostWrite) (attempt i : ℕ) (fails : Bool) : PostWrite :=
  if fails then { s with pc := retry attempt }
  else
    match s.cq.poll 1 with
    | ([], cq) => { s with pc := retry attempt, cq }
    | (wc :: _, cq) =>
        { s with
          pc := if i + 1 < cqPollAttempts then .pollCq attempt (i + 1) else retry attempt
          cq
          drained := Function.update s.drained attempt (s.drained attempt ++ [wc]) }

/-- The network card adds a completion. -/
def complete (s : PostWrite) : Completion → Option PostWrite
  | .recvRdmaWithImm n =>
      if n ∈ s.due then
        some { s with cq := s.cq.complete (.recvRdmaWithImm n), due := s.due.erase n }
      else none
  | .other => some { s with cq := s.cq.complete .other }

/-- The state after an action. -/
def step (s : PostWrite) : PostWriteAct → Option PostWrite
  | .postSend ret errno =>
      match s.pc with
      | .postSend attempt => some (s.postSend attempt ret errno)
      | _ => none
  | .pollCq fails =>
      match s.pc with
      | .pollCq attempt i => some (s.pollCq attempt i fails)
      | _ => none
  | .complete wc => s.complete wc

/-! ### What a step can do -/

/-- What a step can do, with the guards it met. -/
inductive Steps (s : PostWrite) : PostWriteAct → PostWrite → Prop where
  | posted {attempt ret errno} (hpc : s.pc = .postSend attempt) (hret : ret = 0) :
      Steps s (.postSend ret errno)
        ⟨.returned 1, s.cq, s.requests + 1, s.due ++ [s.requests + 1], s.attempts + 1,
          s.posted + 1, s.drained⟩
  | noMemory {attempt ret errno} (hpc : s.pc = .postSend attempt) (hret : ret ≠ 0) :
      Steps s (.postSend ret errno) { s with pc := .pollCq attempt 0, attempts := s.attempts + 1 }
  | exited {attempt ret errno} (hpc : s.pc = .postSend attempt) (hret : ret ≠ 0) :
      Steps s (.postSend ret errno) { s with pc := .exited, attempts := s.attempts + 1 }
  | failed {attempt i} (hpc : s.pc = .pollCq attempt i) :
      Steps s (.pollCq true) { s with pc := retry attempt }
  | empty {attempt i} (hpc : s.pc = .pollCq attempt i) (hqueue : s.cq.queue = []) :
      Steps s (.pollCq false) { s with pc := retry attempt, cq := (s.cq.poll 1).2 }
  | drained {attempt i wc queue pc} (hpc : s.pc = .pollCq attempt i)
      (hqueue : s.cq.queue = wc :: queue)
      (hnext : (i + 1 < cqPollAttempts ∧ pc = .pollCq attempt (i + 1)) ∨
        (cqPollAttempts ≤ i + 1 ∧ pc = retry attempt)) :
      Steps s (.pollCq false)
        { s with
          pc
          cq := (s.cq.poll 1).2
          drained := Function.update s.drained attempt (s.drained attempt ++ [wc]) }
  | reply {n} (hdue : n ∈ s.due) :
      Steps s (.complete (.recvRdmaWithImm n))
        { s with cq := s.cq.complete (.recvRdmaWithImm n), due := s.due.erase n }
  | other : Steps s (.complete .other) { s with cq := s.cq.complete .other }

theorem steps_of_step {s s' : PostWrite} {a : PostWriteAct} (h : s.step a = some s') :
  s.Steps a s'
  := by
  cases a with
  | postSend ret errno =>
      simp only [step] at h
      split at h
      case h_1 attempt hpc =>
        obtain rfl := Option.some.inj h
        unfold postSend
        split_ifs with hret hmem
        · exact Steps.posted hpc hret
        · exact Steps.noMemory hpc hret
        · exact Steps.exited hpc hret
      case h_2 => cases h
  | pollCq fails =>
      simp only [step] at h
      split at h
      case h_1 attempt i hpc =>
        obtain rfl := Option.some.inj h
        cases fails with
        | true => exact Steps.failed hpc
        | false =>
            cases hqueue : s.cq.queue with
            | nil =>
                have hpoll : s.cq.poll 1 = ([], (s.cq.poll 1).2) := by
                  simp only [Cq.poll, hqueue, List.take_nil]
                simp only [pollCq]
                rw [hpoll]
                exact Steps.empty hpc hqueue
            | cons wc queue =>
                have hpoll : s.cq.poll 1 = ([wc], (s.cq.poll 1).2) := by
                  simp only [Cq.poll, hqueue, List.take_succ_cons, List.take_zero]
                simp only [pollCq]
                rw [hpoll]
                apply Steps.drained hpc hqueue
                split_ifs with hi
                · left
                  exact ⟨hi, rfl⟩
                · right
                  exact ⟨Nat.not_lt.mp hi, rfl⟩
      case h_2 => cases h
  | complete wc =>
      simp only [step] at h
      cases wc with
      | recvRdmaWithImm n =>
          simp only [complete] at h
          split_ifs at h with hdue
          obtain rfl := Option.some.inj h
          exact Steps.reply hdue
      | other =>
          obtain rfl := Option.some.inj h
          exact Steps.other

/-! ### Attempts -/

/-- The attempts made, the posts that succeeded, and the completions taken after the last attempt,
by the place of the thread. -/
def Counted (s : PostWrite) : PostWritePc → Prop
  | .postSend attempt => attempt ≤ maxRetries ∧ s.attempts = attempt ∧ s.posted = 0
  | .pollCq attempt i =>
      attempt ≤ maxRetries ∧ s.attempts = attempt + 1 ∧ s.posted = 0 ∧ i < cqPollAttempts ∧
        (s.drained attempt).length = i
  | .returned ret =>
      s.attempts ≤ maxRetries + 1 ∧ ((ret = 1 ∧ s.posted = 1) ∨ (ret = -1 ∧ s.posted = 0))
  | .exited => s.attempts ≤ maxRetries + 1 ∧ s.posted = 0

/-- The counts are those of the place of the thread, and no more completions were taken than the
loop allows, none of them for attempts still to come. -/
structure Inv (s : PostWrite) : Prop where
  counted : s.Counted s.pc
  later : ∀ attempt, s.attempts ≤ attempt → s.drained attempt = []
  bounded : ∀ attempt, (s.drained attempt).length ≤ cqPollAttempts

theorem inv_start (cq : Cq Completion) (requests : ℕ) (due : List ℕ) :
  (start cq requests due).Inv
  := by
  constructor
  · exact ⟨Nat.zero_le _, rfl, rfl⟩
  · intro _ _
    rfl
  · intro _
    exact Nat.zero_le _

/-- When the completions were taken, the next attempt is made, or the last one has failed. -/
theorem counted_retry {s : PostWrite} {attempt : ℕ} (hattempt : attempt ≤ maxRetries)
    (hattempts : s.attempts = attempt + 1) (hposted : s.posted = 0) :
  s.Counted (retry attempt)
  := by
  unfold retry
  split_ifs with hmore
  · exact ⟨hmore, hattempts, hposted⟩
  · refine ⟨?_, Or.inr ⟨rfl, hposted⟩⟩
    omega

/-- Taking one more completion keeps the counts. -/
theorem inv_drained {s : PostWrite} {attempt i : ℕ} {wc : Completion} {pc : PostWritePc}
    {cq : Cq Completion} (h : s.Inv) (hpc : s.pc = .pollCq attempt i)
    (hnext : (i + 1 < cqPollAttempts ∧ pc = .pollCq attempt (i + 1)) ∨
      (cqPollAttempts ≤ i + 1 ∧ pc = retry attempt)) :
  Inv { s with
    pc
    cq
    drained := Function.update s.drained attempt (s.drained attempt ++ [wc]) }
  := by
  have hcounted := h.counted
  rw [hpc] at hcounted
  obtain ⟨hattempt, hattempts, hposted, hi, hlength⟩ := hcounted
  have hlength' : (s.drained attempt ++ [wc]).length = i + 1 := by
    rw [List.length_append, hlength, List.length_singleton]
  constructor
  · obtain ⟨hlt, rfl⟩ | ⟨-, rfl⟩ := hnext
    · refine ⟨hattempt, hattempts, hposted, hlt, ?_⟩
      simp only [Function.update_self]
      exact hlength'
    · exact counted_retry hattempt hattempts hposted
  · intro a ha
    simp only at ha ⊢
    rw [Function.update_of_ne (by omega)]
    exact h.later a ha
  · intro a
    by_cases ha : a = attempt
    · subst ha
      simp only [Function.update_self]
      omega
    · simp only [Function.update_of_ne ha]
      exact h.bounded a

theorem inv_step {s s' : PostWrite} {a : PostWriteAct} (h : s.Inv) (hs : s.step a = some s') :
  s'.Inv
  := by
  have hcounted := h.counted
  have hlater : ∀ attempt, s.attempts + 1 ≤ attempt → s.drained attempt = [] := by
    intro attempt hattempt
    exact h.later attempt (by omega)
  cases steps_of_step hs with
  | posted hpc hret =>
      rw [hpc] at hcounted
      obtain ⟨hattempt, hattempts, hposted⟩ := hcounted
      refine ⟨⟨?_, Or.inl ⟨rfl, ?_⟩⟩, hlater, h.bounded⟩
      · simp only
        omega
      · simp only [hposted]
  | @noMemory attempt _ _ hpc hret =>
      rw [hpc] at hcounted
      obtain ⟨hattempt, hattempts, hposted⟩ := hcounted
      refine ⟨⟨hattempt, congrArg (· + 1) hattempts, hposted, by decide, ?_⟩, hlater, h.bounded⟩
      simp only [h.later attempt (Nat.le_of_eq hattempts), List.length_nil]
  | exited hpc hret =>
      rw [hpc] at hcounted
      obtain ⟨hattempt, hattempts, hposted⟩ := hcounted
      refine ⟨⟨?_, hposted⟩, hlater, h.bounded⟩
      simp only
      omega
  | failed hpc =>
      rw [hpc] at hcounted
      obtain ⟨hattempt, hattempts, hposted, -, -⟩ := hcounted
      exact ⟨counted_retry hattempt hattempts hposted, h.later, h.bounded⟩
  | empty hpc hqueue =>
      rw [hpc] at hcounted
      obtain ⟨hattempt, hattempts, hposted, -, -⟩ := hcounted
      exact ⟨counted_retry hattempt hattempts hposted, h.later, h.bounded⟩
  | drained hpc hqueue hnext => exact inv_drained h hpc hnext
  | reply hdue => exact ⟨hcounted, h.later, h.bounded⟩
  | other => exact ⟨hcounted, h.later, h.bounded⟩

/-! ### Termination -/

/-- The steps of the thread that are left at most: `33` for each attempt. -/
def stepsLeft : PostWritePc → ℕ
  | .postSend attempt => (maxRetries + 1 - attempt) * (cqPollAttempts + 1)
  | .pollCq attempt i => (maxRetries - attempt) * (cqPollAttempts + 1) + (cqPollAttempts - i)
  | .returned _ | .exited => 0

/-- The next attempt leaves fewer steps than the polls before it. -/
theorem stepsLeft_retry (attempt : ℕ) {i : ℕ} (hi : i < cqPollAttempts) :
  stepsLeft (retry attempt) + 1 ≤ stepsLeft (.pollCq attempt i)
  := by
  have hpoll : stepsLeft (.pollCq attempt i) =
      (maxRetries - attempt) * (cqPollAttempts + 1) + (cqPollAttempts - i) := rfl
  rw [hpoll]
  unfold retry
  split_ifs with hmore
  · rw [stepsLeft, Nat.add_sub_add_right]
    omega
  · rw [stepsLeft]
    omega

/-- A step of the thread leaves fewer of them, and a completion as many. -/
theorem stepsLeft_step {s s' : PostWrite} {a : PostWriteAct} (h : s.Inv)
    (hs : s.step a = some s') :
  stepsLeft s'.pc + (if a.isThread then 1 else 0) ≤ stepsLeft s.pc
  := by
  have hcounted := h.counted
  have hattempt : ∀ attempt, attempt ≤ maxRetries →
      (maxRetries + 1 - attempt) * (cqPollAttempts + 1) =
        (maxRetries - attempt) * (cqPollAttempts + 1) + (cqPollAttempts + 1) := by
    intro attempt hle
    rw [Nat.succ_sub hle, Nat.succ_mul]
  cases steps_of_step hs with
  | posted hpc hret =>
      rw [hpc] at hcounted ⊢
      simp only [stepsLeft, PostWriteAct.isThread, if_true, hattempt _ hcounted.1]
      omega
  | noMemory hpc hret =>
      rw [hpc] at hcounted ⊢
      simp only [stepsLeft, PostWriteAct.isThread, if_true, hattempt _ hcounted.1]
      omega
  | exited hpc hret =>
      rw [hpc] at hcounted ⊢
      simp only [stepsLeft, PostWriteAct.isThread, if_true, hattempt _ hcounted.1]
      omega
  | failed hpc =>
      rw [hpc] at hcounted ⊢
      exact stepsLeft_retry _ hcounted.2.2.2.1
  | empty hpc hqueue =>
      rw [hpc] at hcounted ⊢
      exact stepsLeft_retry _ hcounted.2.2.2.1
  | drained hpc hqueue hnext =>
      rw [hpc] at hcounted ⊢
      obtain ⟨hlt, rfl⟩ | ⟨-, rfl⟩ := hnext
      · simp only [stepsLeft, PostWriteAct.isThread, if_true]
        omega
      · exact stepsLeft_retry _ hcounted.2.2.2.1
  | reply hdue => exact Nat.le_refl _
  | other => exact Nat.le_refl _

/-- Over a run, the steps of the thread are at most those that were left. -/
theorem countP_isThread_le {s s' : PostWrite} {as : List PostWriteAct} (h : s.Inv)
    (hrun : run step s as = some s') :
  as.countP PostWriteAct.isThread + stepsLeft s'.pc ≤ stepsLeft s.pc
  := by
  induction as generalizing s with
  | nil =>
      obtain rfl := Option.some.inj hrun
      rw [List.countP_nil, Nat.zero_add]
  | cons a as ih =>
      obtain ⟨t, ht, hrun'⟩ := run_cons_eq_some.mp hrun
      have hstep := stepsLeft_step h ht
      have hrest := ih (inv_step h ht) hrun'
      rw [List.countP_cons]
      omega

/-! ### The counts of a run -/

/-- A step counts its call of `ibv_post_send`, and that it succeeded. -/
theorem counts_step {s s' : PostWrite} {a : PostWriteAct} (hs : s.step a = some s') :
  s'.attempts = s.attempts + (if a.isPost then 1 else 0) ∧
    s'.posted = s.posted + (if a.isPosted then 1 else 0)
  := by
  cases steps_of_step hs with
  | posted hpc hret =>
      rw [hret]
      exact ⟨rfl, rfl⟩
  | noMemory hpc hret | exited hpc hret =>
      rw [PostWriteAct.isPosted, beq_false_of_ne hret]
      exact ⟨rfl, rfl⟩
  | failed | empty | drained | reply | other => exact ⟨rfl, rfl⟩

theorem counts_run {s s' : PostWrite} {as : List PostWriteAct} (hrun : run step s as = some s') :
  s'.attempts = s.attempts + as.countP PostWriteAct.isPost ∧
    s'.posted = s.posted + as.countP PostWriteAct.isPosted
  := by
  induction as generalizing s with
  | nil =>
      obtain rfl := Option.some.inj hrun
      exact ⟨rfl, rfl⟩
  | cons a as ih =>
      obtain ⟨t, ht, hrun'⟩ := run_cons_eq_some.mp hrun
      obtain ⟨hattempts, hposted⟩ := counts_step ht
      obtain ⟨hattempts', hposted'⟩ := ih hrun'
      rw [List.countP_cons, List.countP_cons]
      omega

/-! ### Replies -/

/-- The reply to the request `n` is still to come, or is in the queue. -/
def Outstanding (cq : Cq Completion) (due : List ℕ) (n : ℕ) : Prop :=
  n ∈ due ∨ .recvRdmaWithImm n ∈ cq.queue

/-- The replies taken from the queue have a property, and so have those that can be taken as long
as the request is not posted. -/
structure RepliesOf (p : ℕ → Prop) (s : PostWrite) : Prop where
  outstanding : s.posted = 0 → ∀ n, Outstanding s.cq s.due n → p n
  drained : ∀ attempt n, .recvRdmaWithImm n ∈ s.drained attempt → p n

theorem outstanding_poll {cq : Cq Completion} {due : List ℕ} {n : ℕ}
    (h : Outstanding (cq.poll 1).2 due n) :
  Outstanding cq due n
  := by
  obtain hdue | hqueue := h
  · left
    exact hdue
  · right
    exact List.mem_of_mem_drop hqueue

/-- A reply that comes was outstanding. -/
theorem outstanding_reply {cq : Cq Completion} {due : List ℕ} {m n : ℕ} (hm : m ∈ due)
    (h : Outstanding (cq.complete (.recvRdmaWithImm m)) (due.erase m) n) :
  Outstanding cq due n
  := by
  obtain hdue | hqueue := h
  · left
    exact List.mem_of_mem_erase hdue
  · obtain hqueue | hnew := List.mem_append.mp hqueue
    · right
      exact hqueue
    · left
      cases List.mem_singleton.mp hnew
      exact hm

theorem outstanding_other {cq : Cq Completion} {due : List ℕ} {n : ℕ}
    (h : Outstanding (cq.complete .other) due n) :
  Outstanding cq due n
  := by
  obtain hdue | hqueue := h
  · left
    exact hdue
  · obtain hqueue | hnew := List.mem_append.mp hqueue
    · right
      exact hqueue
    · cases List.mem_singleton.mp hnew

/-- A step that takes no reply, and after which no other ones are outstanding. -/
theorem RepliesOf.of_outstanding {p : ℕ → Prop} {s : PostWrite} (h : s.RepliesOf p)
    {pc : PostWritePc} {cq : Cq Completion} {due : List ℕ}
    (hout : ∀ n, Outstanding cq due n → Outstanding s.cq s.due n) :
  RepliesOf p { s with pc, cq, due }
  := by
  constructor
  · intro hposted n hn
    apply h.outstanding hposted n
    apply hout n hn
  · exact h.drained

theorem repliesOf_step {p : ℕ → Prop} {s s' : PostWrite} {a : PostWriteAct} (hinv : s.Inv)
    (h : s.RepliesOf p) (hs : s.step a = some s') :
  s'.RepliesOf p
  := by
  have hcounted := hinv.counted
  cases steps_of_step hs with
  | posted hpc hret =>
      constructor
      · intro hposted
        cases hposted
      · exact h.drained
  | noMemory hpc hret => exact ⟨h.outstanding, h.drained⟩
  | exited hpc hret => exact ⟨h.outstanding, h.drained⟩
  | failed hpc => exact ⟨h.outstanding, h.drained⟩
  | empty hpc hqueue => exact h.of_outstanding fun _ => outstanding_poll
  | @drained attempt i wc queue pc hpc hqueue hnext =>
      rw [hpc] at hcounted
      have hposted := hcounted.2.2.1
      constructor
      · intro _ n hn
        exact h.outstanding hposted n (outstanding_poll hn)
      · intro a n hn
        simp only at hn
        by_cases ha : a = attempt
        · subst ha
          rw [Function.update_self] at hn
          obtain hn | hn := List.mem_append.mp hn
          · exact h.drained a n hn
          · -- it was the first completion of the queue
            apply h.outstanding hposted
            right
            rw [hqueue, ← List.mem_singleton.mp hn]
            exact List.mem_cons_self
        · rw [Function.update_of_ne ha] at hn
          exact h.drained a n hn
  | reply hdue => exact h.of_outstanding fun _ => outstanding_reply hdue
  | other => exact h.of_outstanding fun _ => outstanding_other

theorem repliesOf_start (cq : Cq Completion) (requests : ℕ) (due : List ℕ) :
  (start cq requests due).RepliesOf (Outstanding cq due)
  := by
  constructor
  · intro _ n hn
    exact hn
  · intro attempt n hn
    cases hn

/-! ### Every run -/

theorem inv_run {cq : Cq Completion} {requests : ℕ} {due : List ℕ} {as : List PostWriteAct}
    {s : PostWrite} (hrun : run step (start cq requests due) as = some s) :
  s.Inv ∧ s.RepliesOf (Outstanding cq due)
  := by
  apply run_invariant (I := fun s => s.Inv ∧ s.RepliesOf (Outstanding cq due)) _
    ⟨inv_start cq requests due, repliesOf_start cq requests due⟩
    (along_of_mem (P := fun _ => True) fun _ _ => trivial) hrun
  rintro s a s' ⟨hinv, hreplies⟩ - hs
  exact ⟨inv_step hinv hs, repliesOf_step hinv hreplies hs⟩

/-- The call is over. -/
def Done (s : PostWrite) : Prop :=
  s.pc = .exited ∨ ∃ ret, s.pc = .returned ret

/-- A call posts its request at most once, when after the actions `as` the state is `s`: the thread
made a bounded number of steps and can go on whatever the verbs return, the value returned tells
whether a call of `ibv_post_send` succeeded, these calls and the completions taken after each are
bounded, and no reply is among the completions when none was outstanding. -/
structure PostsOnce (cq : Cq Completion) (due : List ℕ) (as : List PostWriteAct) (s : PostWrite) :
    Prop where
  steps : as.countP PostWriteAct.isThread ≤ 4 * (1 + 32)
  progress : ¬ s.Done → (∀ ret errno, (s.step (.postSend ret errno)).isSome) ∨
    ∀ fails, (s.step (.pollCq fails)).isSome
  once : as.countP PostWriteAct.isPosted ≤ 1
  returned : s.pc = .returned 1 ↔ as.countP PostWriteAct.isPosted = 1
  negative : ∀ ret, s.pc = .returned ret → ret ≠ 1 →
    ret < 0 ∧ as.countP PostWriteAct.isPosted = 0
  exited : s.pc = .exited → as.countP PostWriteAct.isPosted = 0
  attempts : as.countP PostWriteAct.isPost ≤ 4
  drained : ∀ attempt, (s.drained attempt).length ≤ 32
  replies : (∀ n, ¬ Outstanding cq due n) →
    ∀ attempt n, .recvRdmaWithImm n ∉ s.drained attempt

theorem Inv.attempts_le {s : PostWrite} (h : s.Inv) :
  s.attempts ≤ maxRetries + 1
  := by
  have hcounted := h.counted
  cases hpc : s.pc with
  | postSend attempt =>
      rw [hpc] at hcounted
      obtain ⟨hattempt, hattempts, -⟩ := hcounted
      omega
  | pollCq attempt i =>
      rw [hpc] at hcounted
      obtain ⟨hattempt, hattempts, -⟩ := hcounted
      omega
  | returned ret =>
      rw [hpc] at hcounted
      exact hcounted.1
  | exited =>
      rw [hpc] at hcounted
      exact hcounted.1

/-- The request is posted exactly when the value `1` was returned; the only other value is `-1`. -/
theorem Inv.posted_cases {s : PostWrite} (h : s.Inv) :
  (s.pc = .returned 1 ∧ s.posted = 1) ∨
    (s.posted = 0 ∧ ∀ ret, s.pc = .returned ret → ret = -1)
  := by
  have hcounted := h.counted
  cases hpc : s.pc with
  | postSend attempt =>
      rw [hpc] at hcounted
      right
      use hcounted.2.2
      intro ret hret
      cases hret
  | pollCq attempt i =>
      rw [hpc] at hcounted
      right
      use hcounted.2.2.1
      intro ret hret
      cases hret
  | returned ret =>
      rw [hpc] at hcounted
      obtain ⟨-, ⟨rfl, hposted⟩ | ⟨rfl, hposted⟩⟩ := hcounted
      · left
        exact ⟨rfl, hposted⟩
      · right
        use hposted
        rintro ret ⟨⟩
        rfl
  | exited =>
      rw [hpc] at hcounted
      right
      use hcounted.2
      intro ret hret
      cases hret

theorem progress (s : PostWrite) (h : ¬ s.Done) :
  (∀ ret errno, (s.step (.postSend ret errno)).isSome) ∨
    ∀ fails, (s.step (.pollCq fails)).isSome
  := by
  cases hpc : s.pc with
  | postSend attempt =>
      left
      intro ret errno
      rw [step, hpc]
      rfl
  | pollCq attempt i =>
      right
      intro fails
      rw [step, hpc]
      rfl
  | returned ret => exact absurd (Or.inr ⟨ret, hpc⟩) h
  | exited => exact absurd (Or.inl hpc) h

/-- A call of `post_write_req` posts its request at most once, in every run. -/
theorem post_write_req_posts_once (cq : Cq Completion) (requests : ℕ) (due : List ℕ)
    {as : List PostWriteAct} {s : PostWrite}
    (hrun : run step (start cq requests due) as = some s) :
  PostsOnce cq due as s
  := by
  obtain ⟨hinv, hreplies⟩ := inv_run hrun
  have hsteps := countP_isThread_le (inv_start cq requests due) hrun
  obtain ⟨hattempts, hcount⟩ := counts_run hrun
  simp only [start, Nat.zero_add] at hattempts hcount
  have hposted := hinv.posted_cases
  have hmost := hinv.attempts_le
  rw [hcount] at hposted
  rw [hattempts] at hmost
  constructor
  · exact Nat.le_of_add_right_le hsteps
  · exact s.progress
  · omega
  · constructor
    · intro hpc
      obtain ⟨-, hone⟩ | ⟨-, hvalue⟩ := hposted
      · exact hone
      · cases hvalue 1 hpc
    · intro hone
      obtain ⟨hpc, -⟩ | ⟨hzero, -⟩ := hposted
      · exact hpc
      · omega
  · intro ret hpc hret
    obtain ⟨hone, -⟩ | ⟨hzero, hvalue⟩ := hposted
    · rw [hpc] at hone
      cases hone
      exact absurd rfl hret
    · rw [hvalue ret hpc]
      exact ⟨by decide, hzero⟩
  · intro hpc
    obtain ⟨hone, -⟩ | ⟨hzero, -⟩ := hposted
    · cases hpc.symm.trans hone
    · exact hzero
  · exact hmost
  · exact hinv.bounded
  · intro hnone attempt n hn
    exact hnone n (hreplies.drained attempt n hn)

/-- A request is posted after one completion was taken, which came while the thread slept. -/
theorem post_write_req_posts_once_retried :
  ∃ s, run step (start ⟨[], true, 0⟩ 0 [])
      [.postSend (-1) enomem, .complete .other, .pollCq false, .pollCq false, .postSend 0 enomem] =
        some s ∧
    s.pc = .returned 1 ∧ s.drained 0 = [.other] ∧
    PostsOnce ⟨[], true, 0⟩ []
      [.postSend (-1) enomem, .complete .other, .pollCq false, .pollCq false, .postSend 0 enomem] s
  := ⟨_, rfl, rfl, rfl, post_write_req_posts_once _ _ _ rfl⟩

/-! ### The request of `set_req_sock` -/

/-- `set_req_sock` goes on with a posted request exactly when `post_write_req` posted one. -/
theorem exchangeRequest_posted_iff {cq : Cq Completion} {requests : ℕ} {due : List ℕ}
    {as : List PostWriteAct} {s : PostWrite} {ret : ℤ} {x : Exchange} {h : RInfo}
    (hrun : run step (start cq requests due) as = some s) (hpc : s.pc = .returned ret)
    (hx : x.postWriteReq = BitVec.ofInt 32 ret) (hmr : h.rtnMr) (a : ReqArgs) :
  (exchangeRequest x h a).posted ≠ none ↔ s.posted = 1
  := by
  obtain ⟨hone, hposted⟩ | ⟨hposted, hvalue⟩ := (inv_run hrun).1.posted_cases
  · rw [hpc] at hone
    cases hone
    have hpos : 0 ≤ x.postWriteReq.toInt := by
      rw [hx]
      decide
    rw [exchangeRequest_posted hmr hpos, hposted]
    simp only [ne_eq, reduceCtorEq, not_false_eq_true]
  · have hneg : x.postWriteReq.toInt < 0 := by
      rw [hx, hvalue ret hpc]
      decide
    rw [exchangeRequest, if_neg (not_not.mpr hmr), if_pos hneg, hposted]
    simp only [ne_eq, not_true_eq_false, zero_ne_one]

/-! ### The wait for the reply -/

/-- The thread as its wait for the reply sees it: it is between two calls until its request is
posted. -/
def host (s : PostWrite) : HostWait where
  pc := if s.pc = .returned 1 then .getCqEvent else .idle
  cq := s.cq
  requests := s.requests

/-- What an action is for the wait for the reply. -/
def hostActs : PostWriteAct → List HostWaitAct
  | .postSend ret _ => if ret = 0 then [.call] else []
  | .pollCq fails => if fails then [] else [.makeRoom]
  | .complete wc => [.complete wc]

theorem host_of_pc {s : PostWrite} {pc : PostWritePc} (hpc : s.pc = pc) (hne : pc ≠ .returned 1) :
  s.host = ⟨.idle, s.cq, s.requests⟩
  := by
  rw [host, hpc, if_neg hne]

theorem retry_ne (attempt : ℕ) :
  retry attempt ≠ .returned 1
  := by
  unfold retry
  split
  · intro h
    cases h
  · intro h
    cases h

/-- The replies that are to come are to requests that were sent. -/
theorem due_step {s s' : PostWrite} {a : PostWriteAct} (h : ∀ n ∈ s.due, n ≤ s.requests)
    (hs : s.step a = some s') :
  ∀ n ∈ s'.due, n ≤ s'.requests
  := by
  cases steps_of_step hs with
  | posted hpc hret =>
      intro n hn
      obtain hn | hn := List.mem_append.mp hn
      · exact Nat.le_succ_of_le (h n hn)
      · exact Nat.le_of_eq (List.mem_singleton.mp hn)
  | reply hdue =>
      intro n hn
      exact h n (List.mem_of_mem_erase hn)
  | noMemory | exited | failed | empty | drained | other => exact h

/-- Every step is one of the steps of the wait for the reply: a post that succeeds is the call, and
taking a completion makes room for it. -/
theorem host_step {s s' : PostWrite} {a : PostWriteAct} (h : ∀ n ∈ s.due, n ≤ s.requests)
    (hs : s.step a = some s') :
  run HostWait.step s.host (hostActs a) = some s'.host
  := by
  cases steps_of_step hs with
  | posted hpc hret =>
      rw [host_of_pc hpc (by simp), hostActs, if_pos hret]
      rfl
  | noMemory hpc hret =>
      rw [host_of_pc hpc (by simp), hostActs, if_neg hret]
      rfl
  | exited hpc hret =>
      rw [host_of_pc hpc (by simp), hostActs, if_neg hret]
      rfl
  | failed hpc =>
      rw [host_of_pc hpc (by simp), host_of_pc rfl (retry_ne _)]
      rfl
  | empty hpc hqueue =>
      rw [host_of_pc hpc (by simp), host_of_pc rfl (retry_ne _)]
      rfl
  | drained hpc hqueue hnext =>
      rw [host_of_pc hpc (by simp), host_of_pc rfl]
      · rfl
      · obtain ⟨-, rfl⟩ | ⟨-, rfl⟩ := hnext
        · simp
        · exact retry_ne _
  | @reply n hdue =>
      have hsent : s.host.Sent (.recvRdmaWithImm n) := h n hdue
      rw [hostActs, run_cons_eq_some]
      use ⟨s.host.pc, s.cq.complete (.recvRdmaWithImm n), s.requests⟩
      constructor
      · rw [HostWait.step, if_pos hsent]
        rfl
      · rfl
  | other => rfl

/-- A run of `post_write_req` is a run of the wait for the reply. -/
theorem host_run {s s' : PostWrite} {as : List PostWriteAct} (h : ∀ n ∈ s.due, n ≤ s.requests)
    (hrun : run step s as = some s') :
  run HostWait.step s.host (as.flatMap hostActs) = some s'.host
  := by
  induction as generalizing s with
  | nil =>
      obtain rfl := Option.some.inj hrun
      rfl
  | cons a as ih =>
      obtain ⟨t, ht, hrun'⟩ := run_cons_eq_some.mp hrun
      rw [List.flatMap_cons]
      exact run_append (host_step h ht) (ih (due_step h ht) hrun')

end PostWrite

end SocketToRdma
