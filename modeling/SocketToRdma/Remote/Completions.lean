import Mathlib.Data.Int.Notation
import Mathlib.Data.Nat.Notation
import Mathlib.Logic.Basic
import Mathlib.Tactic.SplitIfs
import Mathlib.Tactic.Use

/-!
# Waiting for a number of completions

`process_work_completion_events` takes an event from the completion channel, asks for the next
one, and polls until it has gathered a given number of completions. It acknowledges the event
when they all succeeded. Of the exits before that one, only the first was not given an event: the
others return without an acknowledgement for it.
-/

namespace SocketToRdma

/-- A work completion: the identifier of its work request, and its status. -/
structure WorkCompletion where
  wrId : BitVec 64
  status : ℕ
  deriving DecidableEq

/-- `IBV_WC_SUCCESS` -/
def ibvWcSuccess : ℕ := 0

/-- What a call of `ibv_poll_cq` meets: it fails and returns `-1 - err`, or there are `n`
completions that it can give. -/
inductive PollOutcome where
  | failed (err : ℕ)
  | available (n : ℕ)

/-- What the wait meets: what `ibv_get_cq_event` and `ibv_req_notify_cq` return, the value of
`errno` when one of them failed, the completions of the queue in their order, and the polls. -/
structure WaitEnv where
  getCqEvent : ℤ
  reqNotifyCq : ℤ
  errno : ℕ
  completions : ℕ → WorkCompletion
  polls : List PollOutcome

/-- The calls of the verbs, with what they returned and the number of events acknowledged. -/
inductive WaitCall where
  | getCqEvent (ret : ℤ)
  | reqNotifyCq (ret : ℤ)
  | pollCq (ret : ℤ)
  | ackCqEvents (nevents : ℕ)

/-- The array of the caller, the number of completions taken from the queue, and the calls made. -/
structure Wait where
  wc : ℕ → WorkCompletion
  consumed : ℕ
  calls : List WaitCall

namespace Wait

/-- The call is added. -/
def call (s : Wait) (c : WaitCall) : Wait :=
  { s with calls := s.calls ++ [c] }

/-- A poll that takes the next `n` completions and stores them at the offset `total`. -/
def reap (s : Wait) (completions : ℕ → WorkCompletion) (total n : ℕ) : Wait where
  wc i := if total ≤ i ∧ i < total + n then completions (s.consumed + (i - total)) else s.wc i
  consumed := s.consumed + n
  calls := s.calls ++ [.pollCq n]

/-- The loop over the polls, with `total` completions gathered; none if it has not ended when the
polls have. -/
def pollLoop (completions : ℕ → WorkCompletion) (maxWc : ℕ) :
    List PollOutcome → ℕ → Wait → Option (Except ℤ ℕ × Wait)
  | [], _, _ => none
  | .failed err :: _, _, s => some (.error (Int.negSucc err), s.call (.pollCq (Int.negSucc err)))
  | .available n :: polls, total, s =>
      let ret := min n (maxWc - total)
      let s := s.reap completions total ret
      if total + ret < maxWc then pollLoop completions maxWc polls (total + ret) s
      else some (.ok (total + ret), s)

/-- The statuses are checked, and the event is acknowledged if no completion failed. -/
def finish (s : Wait) (total : ℕ) : ℤ × Wait :=
  match (List.range total).find? (fun i => (s.wc i).status != ibvWcSuccess) with
  | some i => (-((s.wc i).status : ℤ), s)
  | none => (total, s.call (.ackCqEvents 1))

/-- What follows the loop: the value of a poll that failed is returned. -/
def finishLoop : Except ℤ ℕ × Wait → ℤ × Wait
  | (.error ret, s) => (ret, s)
  | (.ok total, s) => s.finish total

end Wait

/-- `process_work_completion_events`: what it returns, and what it did. -/
def processWorkCompletionEvents (env : WaitEnv) (wc : ℕ → WorkCompletion) (maxWc : ℕ) :
    Option (ℤ × Wait) :=
  let s : Wait := ⟨wc, 0, [.getCqEvent env.getCqEvent]⟩
  if env.getCqEvent ≠ 0 then some (-env.errno, s)
  else
    let s := s.call (.reqNotifyCq env.reqNotifyCq)
    if env.reqNotifyCq ≠ 0 then some (-env.errno, s)
    else (Wait.pollLoop env.completions maxWc env.polls 0 s).map Wait.finishLoop

/-! ### Events taken and acknowledged -/

/-- The number of events taken from the channel. -/
def obtained (calls : List WaitCall) : ℕ :=
  calls.countP fun
    | .getCqEvent ret => ret == 0
    | _ => false

/-- The number of events acknowledged. -/
def acknowledged : List WaitCall → ℕ
  | [] => 0
  | .ackCqEvents nevents :: calls => nevents + acknowledged calls
  | _ :: calls => acknowledged calls

theorem obtained_append (calls calls' : List WaitCall) :
  obtained (calls ++ calls') = obtained calls + obtained calls'
  := List.countP_append

theorem acknowledged_append (calls calls' : List WaitCall) :
  acknowledged (calls ++ calls') = acknowledged calls + acknowledged calls'
  := by
  induction calls with
  | nil => rw [List.nil_append, acknowledged, Nat.zero_add]
  | cons c calls ih =>
      cases c with
      | ackCqEvents nevents =>
          rw [List.cons_append, acknowledged, acknowledged, ih, Nat.add_assoc]
      | getCqEvent | reqNotifyCq | pollCq => exact ih

/-- A wait is exact when it returns the number waited for only with the first completions of the
queue, all of them successful, takes no more than that many, returns a negative value otherwise,
and acknowledged the events that it took. -/
structure Wait.Exact (completions : ℕ → WorkCompletion) (maxWc : ℕ) (r : ℤ × Wait) : Prop where
  complete : r.1 = maxWc →
    ∀ i < maxWc, r.2.wc i = completions i ∧ (completions i).status = ibvWcSuccess
  consumed : r.2.consumed ≤ maxWc
  negative : r.1 ≠ maxWc → r.1 < 0
  balanced : acknowledged r.2.calls = obtained r.2.calls

/-! ### The loop -/

/-- The completions gathered are the first ones of the queue, and the polls took no event and
acknowledged none. -/
structure Wait.Gathered (completions : ℕ → WorkCompletion) (calls : List WaitCall) (total : ℕ)
    (s : Wait) : Prop where
  consumed : s.consumed = total
  wc : ∀ i < total, s.wc i = completions i
  obtained : obtained s.calls = obtained calls
  acknowledged : acknowledged s.calls = acknowledged calls

/-- The number of completions that the polls before the first one that fails can give. -/
def yielded : List PollOutcome → ℕ
  | [] | .failed _ :: _ => 0
  | .available n :: polls => n + yielded polls

namespace Wait.Gathered

variable {completions : ℕ → WorkCompletion} {calls : List WaitCall} {total : ℕ} {s : Wait}

/-- A poll gathers the next completions behind the others. -/
theorem reap (h : s.Gathered completions calls total) (n : ℕ) :
  (s.reap completions total n).Gathered completions calls (total + n)
  := by
  constructor
  · exact congrArg (· + n) h.consumed
  · intro i hi
    simp only [Wait.reap]
    by_cases hlow : total ≤ i
    · have hplace : s.consumed + (i - total) = i := by
        rw [h.consumed]
        omega
      rw [if_pos ⟨hlow, hi⟩, hplace]
    · rw [if_neg fun hrange => hlow hrange.1]
      exact h.wc i (by omega)
  · rw [← h.obtained]
    exact obtained_append _ _
  · rw [← h.acknowledged]
    exact acknowledged_append _ _

/-- A poll that fails gathers nothing. -/
theorem pollCq (h : s.Gathered completions calls total) (ret : ℤ) :
  (s.call (.pollCq ret)).Gathered completions calls total
  := by
  constructor
  · exact h.consumed
  · exact h.wc
  · rw [← h.obtained]
    exact obtained_append _ _
  · rw [← h.acknowledged]
    exact acknowledged_append _ _

end Wait.Gathered

/-- The loop ends with the number of completions waited for exactly when the polls before the first
one that fails yield that many, and with the negative value of that poll otherwise. -/
theorem pollLoop_gathers {completions : ℕ → WorkCompletion} {calls : List WaitCall} {maxWc : ℕ}
    {polls : List PollOutcome} {total : ℕ} {s s' : Wait} {r : Except ℤ ℕ}
    (h : s.Gathered completions calls total) (hlt : total < maxWc)
    (hloop : Wait.pollLoop completions maxWc polls total s = some (r, s')) :
  (maxWc ≤ total + yielded polls ∧ r = .ok maxWc ∧ s'.Gathered completions calls maxWc) ∨
    (total + yielded polls < maxWc ∧
      ∃ total' err, r = .error (Int.negSucc err) ∧ total' ≤ maxWc ∧
        s'.Gathered completions calls total')
  := by
  induction polls generalizing total s with
  | nil => cases hloop
  | cons poll polls ih =>
      cases poll with
      | failed err =>
          obtain ⟨rfl, rfl⟩ := Prod.mk.inj (Option.some.inj hloop)
          right
          exact ⟨hlt, total, err, rfl, by omega, h.pollCq _⟩
      | available n =>
          have hreap := h.reap (min n (maxWc - total))
          simp only [Wait.pollLoop] at hloop
          rw [yielded, ← Nat.add_assoc]
          split_ifs at hloop with hmore
          · -- all that were available were taken
            have hn : min n (maxWc - total) = n := by omega
            rw [hn] at hreap hloop hmore
            exact ih hreap hmore hloop
          · obtain ⟨rfl, rfl⟩ := Prod.mk.inj (Option.some.inj hloop)
            have htotal : total + min n (maxWc - total) = maxWc := by omega
            rw [htotal] at hreap ⊢
            left
            exact ⟨by omega, rfl, hreap⟩

/-! ### The exits -/

/-- What is left after the polls: the number waited for when all completions succeeded, with one
event acknowledged, and the negative status of one that did not, with none. -/
theorem Wait.finish_cases (s : Wait) (total : ℕ) :
  ((∀ i < total, (s.wc i).status = ibvWcSuccess) ∧
      s.finish total = ((total : ℤ), s.call (.ackCqEvents 1))) ∨
    ∃ i < total, (s.wc i).status ≠ ibvWcSuccess ∧
      s.finish total = (-((s.wc i).status : ℤ), s)
  := by
  unfold Wait.finish
  cases hfind : (List.range total).find? (fun i => (s.wc i).status != ibvWcSuccess) with
  | none =>
      left
      refine ⟨?_, rfl⟩
      intro i hi
      have hi' := List.find?_eq_none.mp hfind i (List.mem_range.mpr hi)
      simpa using hi'
  | some i =>
      right
      have hi := List.find?_some hfind
      refine ⟨i, List.mem_range.mp (List.mem_of_find?_eq_some hfind), ?_, rfl⟩
      simpa using hi

/-- The wait meets no failure after it was given an event: the next one is asked for, the polls
before the first one that fails yield the completions waited for, and these are successful. -/
structure WaitEnv.Succeeds (env : WaitEnv) (maxWc : ℕ) : Prop where
  getCqEvent : env.getCqEvent = 0
  reqNotifyCq : env.reqNotifyCq = 0
  polls : maxWc ≤ yielded env.polls
  status : ∀ i < maxWc, (env.completions i).status = ibvWcSuccess

/-- A wait that was not given an event is exact when `errno` is set. -/
theorem exact_getCqEvent_iff (env : WaitEnv) (wc : ℕ → WorkCompletion) {maxWc : ℕ}
    (hmax : 1 ≤ maxWc) (hget : env.getCqEvent ≠ 0) :
  Wait.Exact env.completions maxWc (-env.errno, ⟨wc, 0, [.getCqEvent env.getCqEvent]⟩) ↔
    0 < env.errno
  := by
  constructor
  · intro h
    have hnegative : (-(env.errno : ℤ)) < 0 := h.negative (by simp only; omega)
    omega
  · intro herrno
    constructor
    · intro hret
      simp only at hret
      omega
    · exact Nat.zero_le _
    · intro _
      simp only
      omega
    · simp [acknowledged, obtained, hget]

/-- A wait that took one event and acknowledged none is not exact. -/
theorem not_exact_of_calls {completions : ℕ → WorkCompletion} {maxWc : ℕ} {r : ℤ × Wait}
    (hobtained : obtained r.2.calls = 1) (hacknowledged : acknowledged r.2.calls = 0) :
  ¬ Wait.Exact completions maxWc r
  := by
  intro h
  have hbalanced := h.balanced
  rw [hobtained, hacknowledged] at hbalanced
  cases hbalanced

/-- A wait that gathered successful completions is exact. -/
theorem exact_of_gathered {completions : ℕ → WorkCompletion} {calls : List WaitCall} {maxWc : ℕ}
    {s : Wait} (h : s.Gathered completions calls maxWc) (hobtained : obtained calls = 1)
    (hacknowledged : acknowledged calls = 0)
    (hstatus : ∀ i < maxWc, (completions i).status = ibvWcSuccess) :
  Wait.Exact completions maxWc (maxWc, s.call (.ackCqEvents 1))
  := by
  constructor
  · intro _ i hi
    exact ⟨h.wc i hi, hstatus i hi⟩
  · exact Nat.le_of_eq h.consumed
  · intro hret
    exact absurd rfl hret
  · simp only [Wait.call]
    rw [acknowledged_append, obtained_append, h.acknowledged, h.obtained, hobtained, hacknowledged]
    rfl

/-- Once an event was taken and the next one asked for, the wait is exact exactly when the polls
yield the completions waited for and these are successful. -/
theorem exact_finishLoop_iff {completions : ℕ → WorkCompletion} {calls : List WaitCall}
    {maxWc : ℕ} (hmax : 1 ≤ maxWc) {polls : List PollOutcome} {s : Wait}
    {loop : Except ℤ ℕ × Wait} (hstart : s.Gathered completions calls 0)
    (hobtained : obtained calls = 1) (hacknowledged : acknowledged calls = 0)
    (hloop : Wait.pollLoop completions maxWc polls 0 s = some loop) :
  Wait.Exact completions maxWc (Wait.finishLoop loop) ↔
    maxWc ≤ yielded polls ∧ ∀ i < maxWc, (completions i).status = ibvWcSuccess
  := by
  have hunbalanced : ∀ {total s'} (ret : ℤ), s'.Gathered completions calls total →
      ¬ Wait.Exact completions maxWc (ret, s') := by
    intro total s' ret hgathered
    exact not_exact_of_calls (hgathered.obtained.trans hobtained)
      (hgathered.acknowledged.trans hacknowledged)
  obtain ⟨ret, s'⟩ := loop
  obtain ⟨hyield, rfl, hgathered⟩ | ⟨hyield, total, err, rfl, -, hgathered⟩ :=
    pollLoop_gathers hstart hmax hloop
  · rw [Nat.zero_add] at hyield
    rw [Wait.finishLoop]
    obtain ⟨hstatus, hfinish⟩ | ⟨i, hi, hstatus, hfinish⟩ := s'.finish_cases maxWc
    · have hsuccess : ∀ i < maxWc, (completions i).status = ibvWcSuccess := by
        intro i hi
        rw [← hgathered.wc i hi]
        exact hstatus i hi
      rw [hfinish]
      constructor
      · intro _
        exact ⟨hyield, hsuccess⟩
      · intro _
        exact exact_of_gathered hgathered hobtained hacknowledged hsuccess
    · rw [hfinish]
      constructor
      · intro h
        cases hunbalanced _ hgathered h
      · rintro ⟨-, hsuccess⟩
        rw [hgathered.wc i hi] at hstatus
        exact absurd (hsuccess i hi) hstatus
  · rw [Nat.zero_add] at hyield
    constructor
    · intro h
      cases hunbalanced _ hgathered h
    · rintro ⟨hyield', -⟩
      exact absurd hyield' (Nat.not_le.mpr hyield)

/-- A wait is exact exactly when it was not given an event, with `errno` set, or meets no
failure. -/
theorem completion_wait_exact_iff (env : WaitEnv) (wc : ℕ → WorkCompletion) {maxWc : ℕ}
    (hmax : 1 ≤ maxWc) {r : ℤ × Wait}
    (hr : processWorkCompletionEvents env wc maxWc = some r) :
  Wait.Exact env.completions maxWc r ↔
    (env.getCqEvent ≠ 0 ∧ 0 < env.errno) ∨ env.Succeeds maxWc
  := by
  simp only [processWorkCompletionEvents] at hr
  split_ifs at hr with hget hnotify
  · obtain rfl := Option.some.inj hr
    rw [exact_getCqEvent_iff env wc hmax hget]
    constructor
    · intro herrno
      left
      exact ⟨hget, herrno⟩
    · rintro (⟨-, herrno⟩ | hsucceeds)
      · exact herrno
      · exact absurd hsucceeds.getCqEvent hget
  · obtain rfl := Option.some.inj hr
    rw [not_not] at hget
    constructor
    · intro h
      cases not_exact_of_calls (by simp [Wait.call, obtained, hget])
        (by simp [Wait.call, acknowledged]) h
    · rintro (⟨hget', -⟩ | hsucceeds)
      · exact absurd hget hget'
      · exact absurd hsucceeds.reqNotifyCq hnotify
  · rw [not_not] at hget hnotify
    obtain ⟨loop, hloop, rfl⟩ := Option.map_eq_some_iff.mp hr
    have hstart : (Wait.call ⟨wc, 0, [.getCqEvent env.getCqEvent]⟩
        (.reqNotifyCq env.reqNotifyCq)).Gathered env.completions
        [.getCqEvent env.getCqEvent, .reqNotifyCq env.reqNotifyCq] 0 :=
      ⟨rfl, fun i hi => absurd hi (Nat.not_lt_zero i), rfl, rfl⟩
    rw [exact_finishLoop_iff hmax hstart (by simp [obtained, hget]) rfl hloop]
    constructor
    · rintro ⟨hyield, hsuccess⟩
      right
      exact ⟨hget, hnotify, hyield, hsuccess⟩
    · rintro (⟨hget', -⟩ | hsucceeds)
      · exact absurd hget hget'
      · exact ⟨hsucceeds.polls, hsucceeds.status⟩

/-- Two successful completions, the second of which comes after the first was polled. -/
def oneByOne : WaitEnv where
  getCqEvent := 0
  reqNotifyCq := 0
  errno := 0
  completions := fun n => ⟨BitVec.ofNat 64 n, 0⟩
  polls := [.available 1, .available 0, .available 1]

theorem completion_wait_exact_oneByOne :
  ∃ r, processWorkCompletionEvents oneByOne (fun _ => ⟨7, 7⟩) 2 = some r ∧
    Wait.Exact oneByOne.completions 2 r
  := by
  refine ⟨_, rfl, ?_⟩
  apply (completion_wait_exact_iff oneByOne (fun _ => ⟨7, 7⟩) (by decide) rfl).mpr
  right
  exact ⟨rfl, rfl, by decide, fun _ _ => rfl⟩

/-- One completion, of a work request that was flushed. -/
def flushed : WaitEnv where
  getCqEvent := 0
  reqNotifyCq := 0
  errno := 0
  completions := fun n => ⟨BitVec.ofNat 64 n, 5⟩
  polls := [.available 1]

/-- The event of a completion that failed is not acknowledged. -/
theorem event_not_acknowledged :
  (processWorkCompletionEvents flushed (fun _ => ⟨0, 0⟩) 1).map
      (fun r => (r.1, obtained r.2.calls, acknowledged r.2.calls)) = some (-5, 1, 0) ∧
    ∃ r, processWorkCompletionEvents flushed (fun _ => ⟨0, 0⟩) 1 = some r ∧
      ¬ Wait.Exact flushed.completions 1 r
  := by
  refine ⟨rfl, _, rfl, ?_⟩
  apply not_exact_of_calls
  · rfl
  · rfl

end SocketToRdma
