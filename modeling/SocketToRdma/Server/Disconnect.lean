import Mathlib.Data.List.Basic
import SocketToRdma.Server.Connection

/-!
# Waiting for the disconnection

The threads of the server share the event channel of `s_info`. Each thread serves the requests of
one `client_r_info`, after `start_thread` or another thread has set the connection up; on
`DEL_RDMA_CONN` it waits until the status of its `client_r_info` says that the host has
disconnected. The status is set by the set-up of a connection only, to `CONNECT_REQUEST` and to
`ESTABLISHED`: what would set it to `DISCONNECTED` are `process_rdma_cm_event_with_global`, whose
call is commented out in `rdma_req_event`, and `disconnect_and_cleanup`, which `rdma_req_event` does
not call. So a thread that waits does so for ever, even when the event is there.

The set-up is cut where it takes an event and where it writes the status, so that other threads can
take the events in between. The other requests and the verbs leave the channel and the status alone.
A status that was not written yet is `none`; no thread serves a `client_r_info` that has it.
-/

namespace SocketToRdma

open Run

/-! ### The parts of a set-up -/

/-- What `accept_client_connection` fails with before the second event. -/
def acceptFails (env : ConnectEnv) (c : Endpoint) : Option ℤ :=
  if c.cmClientId.isNone ∨ ¬ c.clientQp then some (-einval)
  else if ¬ env.registerMetadata then some (-enomem)
  else (env.postRecv.or env.accept).map fun e => -e.val

/-- The part of `connect_client_r_info` between the two events, for a `client_r_info` that was bound
to a request: the value returned if it fails. -/
def prepareConnection (env : ConnectEnv) (c : Endpoint) : Option ℤ × Endpoint :=
  if negErrno env.ackRequest ≠ 0 then (some (negErrno env.ackRequest), c)
  else
    match setupClientResources env c with
    | (ret, c) => if ret ≠ 0 then (some ret, c) else ((acceptFails env c).map (- ·), c)

/-- The end of `accept_client_connection`, after the second event. -/
def establish (env : ConnectEnv) (c : Endpoint) : ℤ × Endpoint :=
  if c.status = some .established then (-env.errno, c)
  else
    let c := { c with status := some .established }
    match env.ackEstablished with
    | some e => (-e.val, c)
    | none => (if env.workCompletions ≠ 1 then env.workCompletions else 1, c)

/-- The part of `connect_client_r_info` after the second event, and its value. -/
def finishConnection (env : ConnectEnv) (c : Endpoint) : ℤ × Endpoint :=
  match establish env c with
  | (ret, c) => (if ret < 0 then -ret else negErrno env.sendMetadata, c)

theorem awaitEstablished_eq (env : ConnectEnv) (s : SInfo) (c : Endpoint) :
  awaitEstablished env s c =
    (processRdmaCmEvent env.getEstablished .established s).map fun r =>
      ((establish env c).1, r.2, (establish env c).2)
  := by
  cases hget : processRdmaCmEvent env.getEstablished .established s with
  | none => simp only [awaitEstablished, hget, Option.map_none]
  | some r =>
      simp only [awaitEstablished, establish, hget, Option.map_some]
      by_cases hstatus : c.status = some .established
      · simp only [hstatus, if_true]
      · simp only [hstatus, if_false]
        cases env.ackEstablished with
        | none => rfl
        | some e => rfl

theorem acceptClientConnection_eq (env : ConnectEnv) (s : SInfo) (c : Endpoint) :
  acceptClientConnection env s c =
    match acceptFails env c with
    | some ret => some (ret, s, c)
    | none => awaitEstablished env s c
  := by
  unfold acceptClientConnection acceptFails
  split_ifs with hc hreg
  · rfl
  · cases env.postRecv with
    | some e => rfl
    | none =>
        cases env.accept with
        | some e => rfl
        | none => rfl
  · rfl

theorem acceptFails_neg {env : ConnectEnv} {c : Endpoint} {ret : ℤ}
    (h : acceptFails env c = some ret) :
  ret < 0
  := by
  unfold acceptFails at h
  split_ifs at h with hc hreg
  · obtain rfl := Option.some.inj h
    decide
  · obtain ⟨e, _, rfl⟩ := Option.map_eq_some_iff.mp h
    have := e.2
    omega
  · obtain rfl := Option.some.inj h
    decide

/-- `connect_client_r_info` is the sequence of its parts. -/
theorem connectClientRInfo_eq (env : ConnectEnv) (s : SInfo) (c : Endpoint) :
  connectClientRInfo env s c =
    (processRdmaCmEvent env.getRequest .connectRequest s).bind fun r =>
      r.2.cmEvent.bind fun ev =>
        match prepareConnection env
          { c with status := some .connectRequest, cmClientId := some ev.id } with
        | (some ret, c) => some (ret, r.2, c)
        | (none, c) =>
            (processRdmaCmEvent env.getEstablished .established r.2).map fun r =>
              ((finishConnection env c).1, r.2, (finishConnection env c).2)
  := by
  unfold connectClientRInfo waitingClientConn
  cases processRdmaCmEvent env.getRequest .connectRequest s with
  | none => rfl
  | some r =>
      obtain ⟨_, s'⟩ := r
      simp only [Option.bind_some]
      cases s'.cmEvent with
      | none => rfl
      | some ev =>
          simp only [Option.bind_some, prepareConnection]
          by_cases hack : negErrno env.ackRequest ≠ 0
          · simp only [if_pos hack]
          · simp only [if_neg hack]
            obtain ⟨ret, c'⟩ := setupClientResources env
              { c with status := some .connectRequest, cmClientId := some ev.id }
            by_cases hret : ret ≠ 0
            · simp only [if_pos hret]
            · simp only [if_neg hret, acceptClientConnection_eq]
              cases hfails : acceptFails env c' with
              | some ret' => simp only [if_pos (acceptFails_neg hfails), Option.map_some]
              | none =>
                  simp only [awaitEstablished_eq, Option.map_none]
                  cases processRdmaCmEvent env.getEstablished .established s' with
                  | none => rfl
                  | some r =>
                      simp only [Option.map_some, finishConnection]
                      split_ifs with hneg
                      · rfl
                      · rfl

/-! ### The threads -/

/-- A set-up: the number of the new `client_r_info`, what the calls of the set-up return, and what
`pthread_create` returns after it. -/
structure ThreadSetUp where
  cInfo : ℕ
  env : ConnectEnv
  pthreadCreate : BitVec 32

/-- Where a thread of the server is: before or after one of the two events of a set-up, in
`process_poll_cq_imm`, in the loop of `global_disconnect_and_cleanup`, or at its end. -/
inductive ServerPhase where
  | getRequest (u : ThreadSetUp)
  | bindRequest (u : ThreadSetUp)
  | getEstablished (u : ThreadSetUp)
  | setEstablished (u : ThreadSetUp)
  | polling
  | waitDisconnected
  | finished

/-- A thread, with the number of the `client_r_info` whose requests it serves; `start_thread` has
none before its set-up. -/
structure ServerThread where
  cInfo : Option ℕ
  phase : ServerPhase

/-- All threads of the server, with what they share and the `client_r_info`s allocated. -/
structure ServerThreads where
  sInfo : SInfo
  cInfos : List Endpoint
  threads : List ServerThread

/-- What a thread does next: it serves a request or returns, when it polls, and else it goes on. -/
inductive ThreadAct where
  | newRdmaConn (env : ConnectEnv) (pthreadCreate : BitVec 32)
  | delRdmaConn
  | otherRequest
  | exit
  | goOn

/-- An event is delivered, or a thread makes a step. -/
inductive ThreadsAct where
  | deliver (ev : CmEvent)
  | thread (i : ℕ) (a : ThreadAct)

/-- The step is one of the server. -/
def ThreadsAct.Own : ThreadsAct → Prop
  | .deliver _ => False
  | .thread _ _ => True

namespace ServerThreads

/-- `start_thread` when the server listens: it sets up the connection of `global_c_info`. -/
def start (env : ConnectEnv) : ServerThreads where
  sInfo := ⟨[], none, []⟩
  cInfos := [nullClientRInfo]
  threads := [⟨none, .getRequest ⟨0, env, 0⟩⟩]

/-- A thread is somewhere else. -/
def setPhase (s : ServerThreads) (i : ℕ) (t : ServerThread) (phase : ServerPhase) :
    ServerThreads :=
  { s with threads := s.threads.set i { t with phase } }

/-- The thread after a set-up that returned `ret`: it serves its new connection if it had none, and
else a new thread does. -/
def returned (s : ServerThreads) (i : ℕ) (t : ServerThread) (u : ThreadSetUp) (ret : ℤ) :
    ServerThreads :=
  match t.cInfo with
  | none =>
      if ret ≠ 0 then s.setPhase i t .finished
      else s.setPhase i { t with cInfo := some u.cInfo } .polling
  | some _ =>
      let s := s.setPhase i t .polling
      if ret ≠ 0 ∨ u.pthreadCreate ≠ 0 then s
      else { s with threads := s.threads ++ [⟨some u.cInfo, .polling⟩] }

/-- The `client_r_info` with the number is written. -/
def setCInfo (s : ServerThreads) (n : ℕ) (c : Endpoint) : ServerThreads :=
  { s with cInfos := s.cInfos.set n c }

/-- The status of a `client_r_info`. -/
def status (s : ServerThreads) (n : ℕ) : Option CmEventType :=
  s.cInfos[n]?.bind Endpoint.status

/-- A step of the thread `t`, which is the one with the number `i`. -/
def stepThread (s : ServerThreads) (i : ℕ) (t : ServerThread) (a : ThreadAct) :
    Option ServerThreads :=
  match t.phase, a with
  | .polling, .newRdmaConn env pthreadCreate =>
      let s' := { s with cInfos := s.cInfos ++ [nullClientRInfo] }
      some (s'.setPhase i t (.getRequest ⟨s.cInfos.length, env, pthreadCreate⟩))
  | .polling, .delRdmaConn => some (s.setPhase i t .waitDisconnected)
  | .polling, .otherRequest => some s
  | .polling, .exit => some (s.setPhase i t .finished)
  | .getRequest u, .goOn =>
      (processRdmaCmEvent u.env.getRequest .connectRequest s.sInfo).map fun r =>
        { s with sInfo := r.2 }.setPhase i t (.bindRequest u)
  | .bindRequest u, .goOn =>
      match s.cInfos[u.cInfo]?, s.sInfo.cmEvent with
      | some c, some ev =>
          match prepareConnection u.env
              { c with status := some .connectRequest, cmClientId := some ev.id } with
          | (some ret, c) => some ((s.setCInfo u.cInfo c).returned i t u ret)
          | (none, c) => some ((s.setCInfo u.cInfo c).setPhase i t (.getEstablished u))
      | _, _ => none
  | .getEstablished u, .goOn =>
      (processRdmaCmEvent u.env.getEstablished .established s.sInfo).map fun r =>
        { s with sInfo := r.2 }.setPhase i t (.setEstablished u)
  | .setEstablished u, .goOn =>
      s.cInfos[u.cInfo]?.map fun c =>
        match finishConnection u.env c with
        | (ret, c) => (s.setCInfo u.cInfo c).returned i t u ret
  | .waitDisconnected, .goOn =>
      -- the loop ends with the status, and the thread polls again after the clean-up
      if t.cInfo.bind s.status = some .disconnected then some (s.setPhase i t .polling)
      else some s
  | _, _ => none

/-- A step of the server and its environment. -/
def step (s : ServerThreads) : ThreadsAct → Option ServerThreads
  | .deliver ev => some { s with sInfo := { s.sInfo with channel := s.sInfo.channel ++ [ev] } }
  | .thread i a => s.threads[i]?.bind fun t => s.stepThread i t a

/-- The thread is in the wait loop of `global_disconnect_and_cleanup` for the `client_r_info`. -/
def InWaitLoop (s : ServerThreads) (i n : ℕ) : Prop :=
  s.threads[i]? = some ⟨some n, .waitDisconnected⟩

/-- The event that the host of the `client_r_info` has disconnected is on the channel. -/
def DisconnectPending (s : ServerThreads) (n : ℕ) : Prop :=
  ∃ c id ev, s.cInfos[n]? = some c ∧ c.cmClientId = some id ∧ ev ∈ s.sInfo.channel ∧
    ev.id = id ∧ ev.event = .disconnected

/-- Some continuation of the steps of the server lets the wait loop exit. -/
def CanComplete (s : ServerThreads) (n : ℕ) : Prop :=
  ∃ acts s', (∀ a ∈ acts, ThreadsAct.Own a) ∧ run step s acts = some s' ∧
    s'.status n = some .disconnected

/-! ### A set-up without interruption -/

theorem getElem?_threads_setPhase_self {s : ServerThreads} {i : ℕ} {t t' : ServerThread}
    (ht : s.threads[i]? = some t') (phase : ServerPhase) :
  (s.setPhase i t phase).threads[i]? = some { t with phase }
  := List.getElem?_set_self (List.getElem?_eq_some_iff.mp ht).1

/-- The steps from the second event on are the second part of the set-up. -/
theorem run_establish {s : ServerThreads} {i : ℕ} {n : Option ℕ} {u : ThreadSetUp} {c : Endpoint}
    {r : ℤ × SInfo} (ht : s.threads[i]? = some ⟨n, .getEstablished u⟩)
    (hc : s.cInfos[u.cInfo]? = some c)
    (hget : processRdmaCmEvent u.env.getEstablished .established s.sInfo = some r) :
  run step s [.thread i .goOn, .thread i .goOn] =
    some (({ s with sInfo := r.2 }.setCInfo u.cInfo (finishConnection u.env c).2).returned i
      ⟨n, .getEstablished u⟩ u (finishConnection u.env c).1)
  := by
  let s' := { s with sInfo := r.2 }.setPhase i ⟨n, .getEstablished u⟩ (.setEstablished u)
  have ht' : s'.threads[i]? = some ⟨n, .setEstablished u⟩ := getElem?_threads_setPhase_self ht _
  have hc' : s'.cInfos[u.cInfo]? = some c := hc
  have hfirst : s.step (.thread i .goOn) = some s' := by
    simp only [step, ht, Option.bind_some, stepThread, hget, Option.map_some, s']
  simp only [run, hfirst, Option.bind_some]
  simp only [step, ht', stepThread, hc', Option.map_some, Option.bind_some]
  simp only [returned, setPhase, setCInfo, List.set_set, s']

/-- The steps of a set-up that no other thread interrupts are those of `connect_client_r_info`. -/
theorem run_setUp {s : ServerThreads} {i : ℕ} {n : Option ℕ} {u : ThreadSetUp} {c c' : Endpoint}
    {ret : ℤ} {sInfo : SInfo} (ht : s.threads[i]? = some ⟨n, .getRequest u⟩)
    (hc : s.cInfos[u.cInfo]? = some c)
    (hconnect : connectClientRInfo u.env s.sInfo c = some (ret, sInfo, c')) :
  ∃ k, run step s (.replicate k (.thread i .goOn)) =
    some (({ s with sInfo }.setCInfo u.cInfo c').returned i ⟨n, .getRequest u⟩ u ret)
  := by
  rw [connectClientRInfo_eq] at hconnect
  obtain ⟨⟨_, sInfo₁⟩, hget, hconnect⟩ := Option.bind_eq_some_iff.mp hconnect
  obtain ⟨ev, hev, hconnect⟩ := Option.bind_eq_some_iff.mp hconnect
  let s₁ := { s with sInfo := sInfo₁ }.setPhase i ⟨n, .getRequest u⟩ (.bindRequest u)
  have ht₁ : s₁.threads[i]? = some ⟨n, .bindRequest u⟩ := getElem?_threads_setPhase_self ht _
  have hc₁ : s₁.cInfos[u.cInfo]? = some c := hc
  have hev₁ : s₁.sInfo.cmEvent = some ev := hev
  have hfirst : s.step (.thread i .goOn) = some s₁ := by
    simp only [step, ht, Option.bind_some, stepThread, hget, Option.map_some, s₁]
  cases hprepare : prepareConnection u.env
      { c with status := some .connectRequest, cmClientId := some ev.id } with
  | mk fails c₂ =>
      rw [hprepare] at hconnect
      cases fails with
      | some ret' =>
          obtain ⟨rfl, rfl, rfl⟩ : ret' = ret ∧ sInfo₁ = sInfo ∧ c₂ = c' := by simpa using hconnect
          use 2
          simp only [List.replicate, run, hfirst, Option.bind_some]
          simp only [step, ht₁, Option.bind_some, stepThread, hc₁, hev₁, hprepare]
          simp only [returned, setPhase, setCInfo, List.set_set, s₁]
      | none =>
          obtain ⟨⟨_, sInfo₂⟩, hget₂, hfinish⟩ := Option.map_eq_some_iff.mp hconnect
          obtain ⟨rfl, rfl, rfl⟩ : (finishConnection u.env c₂).1 = ret ∧ sInfo₂ = sInfo ∧
            (finishConnection u.env c₂).2 = c' := by simpa using hfinish
          let s₂ := (s₁.setCInfo u.cInfo c₂).setPhase i ⟨n, .bindRequest u⟩ (.getEstablished u)
          have hsecond : s₁.step (.thread i .goOn) = some s₂ := by
            simp only [step, ht₁, Option.bind_some, stepThread, hc₁, hev₁, hprepare, s₂]
          have hrest := run_establish (s := s₂) (getElem?_threads_setPhase_self ht₁ _)
            (List.getElem?_set_self (List.getElem?_eq_some_iff.mp hc).1) hget₂
          use 4
          rw [List.replicate, List.replicate, run, hfirst, Option.bind_some, run, hsecond,
            Option.bind_some]
          refine hrest.trans ?_
          simp only [returned, setPhase, setCInfo, List.set_set, s₂, s₁]

/-! ### The status of a `client_r_info` -/

/-- No status is `DISCONNECTED`, and that of the `client_r_info` of a thread has been written. -/
structure Connected (s : ServerThreads) : Prop where
  status_ne : ∀ n, s.status n ≠ some .disconnected
  written : ∀ t ∈ s.threads, ∀ n, t.cInfo = some n → (s.status n).isSome

theorem status_prepareConnection (env : ConnectEnv) (c : Endpoint) :
  (prepareConnection env c).2.status = c.status
  := by
  unfold prepareConnection setupClientResources
  split_ifs with hack hid
  · rfl
  · rfl
  · cases env.setupClientResources with
    | none => rfl
    | some e => simp only; split_ifs <;> rfl

theorem status_finishConnection (env : ConnectEnv) (c : Endpoint) :
  (finishConnection env c).2.status = some .established
  := by
  unfold finishConnection establish
  by_cases hstatus : c.status = some .established
  · simp only [hstatus, if_true]
  · simp only [hstatus, if_false]
    cases env.ackEstablished with
    | none => rfl
    | some e => rfl

theorem status_setCInfo {s : ServerThreads} {n : ℕ} {c c' : Endpoint}
    (hc : s.cInfos[n]? = some c) (m : ℕ) :
  (s.setCInfo n c').status m = if n = m then c'.status else s.status m
  := by
  have hn : n < s.cInfos.length := (List.getElem?_eq_some_iff.mp hc).1
  unfold status setCInfo
  rw [List.getElem?_set]
  split_ifs with h
  · rfl
  · rfl

/-- The invariant is about the statuses of the `client_r_info`s of the threads. -/
theorem Connected.of_cInfos {s s' : ServerThreads} (h : s.Connected)
    (hcInfos : s'.cInfos = s.cInfos)
    (hthreads : ∀ t ∈ s'.threads, ∀ n, t.cInfo = some n →
      (∃ t ∈ s.threads, t.cInfo = some n) ∨ (s.status n).isSome) :
  s'.Connected
  := by
  have hstatus (n : ℕ) : s'.status n = s.status n := by rw [status, status, hcInfos]
  constructor
  · intro n
    rw [hstatus]
    exact h.status_ne n
  · intro t ht n hn
    rw [hstatus]
    obtain ⟨t', ht', hn'⟩ | hn' := hthreads t ht n hn
    · exact h.written t' ht' n hn'
    · exact hn'

/-- A thread may be somewhere else. -/
theorem Connected.setPhase {s : ServerThreads} {i : ℕ} {t : ServerThread} (h : s.Connected)
    (ht : ∀ n, t.cInfo = some n → (s.status n).isSome) (phase : ServerPhase) :
  (s.setPhase i t phase).Connected
  := by
  refine h.of_cInfos rfl ?_
  intro t' ht' n hn
  obtain ht' | rfl := List.mem_or_eq_of_mem_set ht'
  · exact Or.inl ⟨t', ht', hn⟩
  · exact Or.inr (ht n hn)

/-- A set-up writes a status that is not `DISCONNECTED`. -/
theorem Connected.setCInfo {s : ServerThreads} {n : ℕ} {c c' : Endpoint} {e : CmEventType}
    (h : s.Connected) (hc : s.cInfos[n]? = some c) (hstatus : c'.status = some e)
    (he : e ≠ .disconnected) :
  (s.setCInfo n c').Connected
  := by
  constructor
  · intro m
    rw [status_setCInfo hc]
    split_ifs with hm
    · rw [hstatus]
      exact fun h => he (Option.some.inj h)
    · exact h.status_ne m
  · intro t ht m htm
    rw [status_setCInfo hc]
    split_ifs with hm
    · rw [hstatus]
      rfl
    · exact h.written t ht m htm

/-- The thread that serves a new connection has a `client_r_info` whose status was written. -/
theorem Connected.returned {s : ServerThreads} {i : ℕ} {t : ServerThread} {u : ThreadSetUp}
    (h : s.Connected) (ht : ∀ n, t.cInfo = some n → (s.status n).isSome)
    (hu : (s.status u.cInfo).isSome) (ret : ℤ) :
  (s.returned i t u ret).Connected
  := by
  unfold ServerThreads.returned
  cases hcInfo : t.cInfo with
  | none =>
      simp only
      split_ifs with hret
      · exact h.setPhase ht _
      · apply h.setPhase
        intro n hn
        obtain rfl := Option.some.inj hn
        exact hu
  | some n =>
      simp only
      have hpolling := h.setPhase (i := i) ht .polling
      split_ifs with hret
      · exact hpolling
      · refine hpolling.of_cInfos rfl ?_
        intro t' ht' m hm
        obtain ht' | ht' := List.mem_append.mp ht'
        · exact Or.inl ⟨t', ht', hm⟩
        · obtain rfl := List.mem_singleton.mp ht'
          obtain rfl := Option.some.inj hm
          exact Or.inr hu

/-- The `client_r_info` of a new connection has no status. -/
theorem Connected.alloc {s : ServerThreads} (h : s.Connected) :
  Connected { s with cInfos := s.cInfos ++ [nullClientRInfo] }
  := by
  constructor
  · intro n
    obtain hn | hn := Nat.lt_or_ge n s.cInfos.length
    · simpa only [status, List.getElem?_append_left hn] using h.status_ne n
    · simp only [status, List.getElem?_append_right hn]
      cases n - s.cInfos.length with
      | zero =>
          intro h
          cases h
      | succ k =>
          intro h
          cases h
  · intro t ht n hn
    obtain ⟨st, hst⟩ := Option.isSome_iff_exists.mp (h.written t ht n hn)
    obtain ⟨c, hc, hst⟩ := Option.bind_eq_some_iff.mp hst
    have hlt := (List.getElem?_eq_some_iff.mp hc).1
    simp only [status, List.getElem?_append_left hlt, hc, Option.bind_some, hst,
      Option.isSome_some]

/-- A step of a thread. -/
theorem Connected.stepThread {s s' : ServerThreads} {i : ℕ} {t : ServerThread} {a : ThreadAct}
    (h : s.Connected) (ht : t ∈ s.threads) (hstep : s.stepThread i t a = some s') :
  s'.Connected
  := by
  have hwritten := h.written t ht
  unfold ServerThreads.stepThread at hstep
  split at hstep
  · -- `NEW_RDMA_CONN`
    obtain rfl := Option.some.inj hstep
    exact h.alloc.setPhase (h.alloc.written t ht) _
  · -- `DEL_RDMA_CONN`
    obtain rfl := Option.some.inj hstep
    exact h.setPhase hwritten _
  · -- another request
    obtain rfl := Option.some.inj hstep
    exact h
  · -- the end of the thread
    obtain rfl := Option.some.inj hstep
    exact h.setPhase hwritten _
  · -- an event for the request
    obtain ⟨r, _, rfl⟩ := Option.map_eq_some_iff.mp hstep
    have hsInfo : Connected { s with sInfo := r.2 } :=
      h.of_cInfos rfl fun t ht n hn => Or.inl ⟨t, ht, hn⟩
    exact hsInfo.setPhase hwritten _
  · -- the `client_r_info` is bound to the event
    rename_i u _
    split at hstep
    · rename_i c ev hc hev
      have hstatus := status_prepareConnection u.env
        { c with status := some .connectRequest, cmClientId := some ev.id }
      have hsetUp := h.setCInfo hc hstatus (by decide)
      split at hstep
      · rename_i ret c' hprepare
        rw [hprepare] at hstatus hsetUp
        obtain rfl := Option.some.inj hstep
        apply hsetUp.returned (hsetUp.written t ht)
        rw [status_setCInfo hc, if_pos rfl, hstatus]
        rfl
      · rename_i c' hprepare
        rw [hprepare] at hsetUp
        obtain rfl := Option.some.inj hstep
        exact hsetUp.setPhase (hsetUp.written t ht) _
    · cases hstep
  · -- an event for the establishment
    obtain ⟨r, _, rfl⟩ := Option.map_eq_some_iff.mp hstep
    have hsInfo : Connected { s with sInfo := r.2 } :=
      h.of_cInfos rfl fun t ht n hn => Or.inl ⟨t, ht, hn⟩
    exact hsInfo.setPhase hwritten _
  · -- the connection is established
    rename_i u _
    obtain ⟨c, hc, rfl⟩ := Option.map_eq_some_iff.mp hstep
    have hstatus := status_finishConnection u.env c
    have hsetUp := h.setCInfo hc hstatus (by decide)
    apply hsetUp.returned (hsetUp.written t ht)
    rw [status_setCInfo hc, if_pos rfl, hstatus]
    rfl
  · -- the wait loop
    split_ifs at hstep with hexit
    · obtain rfl := Option.some.inj hstep
      exact h.setPhase hwritten _
    · obtain rfl := Option.some.inj hstep
      exact h
  · cases hstep

/-- A step of the server and its environment. -/
theorem Connected.step {s s' : ServerThreads} {a : ThreadsAct} (h : s.Connected)
    (hstep : s.step a = some s') :
  s'.Connected
  := by
  cases a with
  | deliver ev =>
      obtain rfl := Option.some.inj hstep
      exact h.of_cInfos rfl fun t ht n hn => Or.inl ⟨t, ht, hn⟩
  | thread i a =>
      obtain ⟨t, ht, hstep⟩ := Option.bind_eq_some_iff.mp hstep
      exact h.stepThread (List.mem_of_getElem? ht) hstep

theorem connected_start (env : ConnectEnv) :
  (start env).Connected
  := by
  constructor
  · intro n
    cases n with
    | zero =>
        intro h
        cases h
    | succ n =>
        intro h
        cases h
  · intro t ht n hn
    obtain rfl := List.mem_singleton.mp ht
    cases hn

/-- Whatever the threads do, no status is `DISCONNECTED`. -/
theorem Connected.of_run {s s' : ServerThreads} {acts : List ThreadsAct} (h : s.Connected)
    (hrun : run ServerThreads.step s acts = some s') :
  s'.Connected
  := run_invariant (C := fun _ _ => True) (fun _ _ _ h _ hstep => h.step hstep) h
    (along_of_mem fun _ _ => trivial) hrun

/-! ### The wait loop -/

theorem Connected.not_canComplete {s : ServerThreads} (h : s.Connected) (n : ℕ) :
  ¬ s.CanComplete n
  := by
  rintro ⟨acts, s', -, hrun, hstatus⟩
  exact (h.of_run hrun).status_ne n hstatus

theorem getElem?_threads_setPhase {s : ServerThreads} {i j : ℕ} (hij : i ≠ j) (t : ServerThread)
    (phase : ServerPhase) :
  (s.setPhase i t phase).threads[j]? = s.threads[j]?
  := List.getElem?_set_ne hij

/-- The end of a set-up leaves the other threads where they are. -/
theorem getElem?_threads_returned {s : ServerThreads} {i j : ℕ} (hij : i ≠ j) {t t' : ServerThread}
    (ht' : s.threads[j]? = some t') (u : ThreadSetUp) (ret : ℤ) :
  (s.returned i t u ret).threads[j]? = some t'
  := by
  unfold ServerThreads.returned
  cases t.cInfo with
  | none =>
      simp only
      split_ifs with hret
      · exact (getElem?_threads_setPhase hij ..).trans ht'
      · exact (getElem?_threads_setPhase hij ..).trans ht'
  | some n =>
      have hpolling := (getElem?_threads_setPhase hij t .polling).trans ht'
      simp only
      split_ifs with hret
      · exact hpolling
      · rw [List.getElem?_append_left (List.getElem?_eq_some_iff.mp hpolling).1]
        exact hpolling

/-- A step of one thread leaves the other threads where they are. -/
theorem getElem?_threads_stepThread {s s' : ServerThreads} {i j : ℕ} (hij : i ≠ j)
    {t t' : ServerThread} (ht' : s.threads[j]? = some t') {a : ThreadAct}
    (hstep : s.stepThread i t a = some s') :
  s'.threads[j]? = some t'
  := by
  unfold stepThread at hstep
  split at hstep
  · obtain rfl := Option.some.inj hstep
    exact (getElem?_threads_setPhase hij ..).trans ht'
  · obtain rfl := Option.some.inj hstep
    exact (getElem?_threads_setPhase hij ..).trans ht'
  · obtain rfl := Option.some.inj hstep
    exact ht'
  · obtain rfl := Option.some.inj hstep
    exact (getElem?_threads_setPhase hij ..).trans ht'
  · obtain ⟨r, _, rfl⟩ := Option.map_eq_some_iff.mp hstep
    exact (getElem?_threads_setPhase hij ..).trans ht'
  · split at hstep
    · split at hstep
      · obtain rfl := Option.some.inj hstep
        refine getElem?_threads_returned hij ?_ _ _
        exact ht'
      · obtain rfl := Option.some.inj hstep
        exact (getElem?_threads_setPhase hij ..).trans ht'
    · cases hstep
  · obtain ⟨r, _, rfl⟩ := Option.map_eq_some_iff.mp hstep
    exact (getElem?_threads_setPhase hij ..).trans ht'
  · obtain ⟨c, _, rfl⟩ := Option.map_eq_some_iff.mp hstep
    refine getElem?_threads_returned hij ?_ _ _
    exact ht'
  · split_ifs at hstep with hexit
    · obtain rfl := Option.some.inj hstep
      exact (getElem?_threads_setPhase hij ..).trans ht'
    · obtain rfl := Option.some.inj hstep
      exact ht'
  · cases hstep

/-- A thread that waits goes on waiting. -/
theorem InWaitLoop.step {s s' : ServerThreads} {i n : ℕ} {a : ThreadsAct}
    (hwait : s.InWaitLoop i n) (h : s.Connected) (hstep : s.step a = some s') :
  s'.InWaitLoop i n
  := by
  cases a with
  | deliver ev =>
      obtain rfl := Option.some.inj hstep
      exact hwait
  | thread j a =>
      obtain ⟨t, ht, hstep⟩ := Option.bind_eq_some_iff.mp hstep
      by_cases hij : j = i
      · subst hij
        obtain rfl := Option.some.inj (ht.symm.trans hwait)
        cases a with
        | goOn =>
            have hstatus : ¬ (some n).bind s.status = some .disconnected := h.status_ne n
            simp only [stepThread, if_neg hstatus] at hstep
            obtain rfl := Option.some.inj hstep
            exact hwait
        | newRdmaConn | delRdmaConn | otherRequest | exit => cases hstep
      · exact getElem?_threads_stepThread hij hwait hstep

/-- In every continuation of a run of the server the thread still waits. -/
theorem waits_forever {env : ConnectEnv} {acts acts' : List ThreadsAct} {s s' : ServerThreads}
    {i n : ℕ} (hrun : run ServerThreads.step (start env) acts = some s)
    (hwait : s.InWaitLoop i n) (hrun' : run ServerThreads.step s acts' = some s') :
  s'.InWaitLoop i n
  := by
  have h : s.Connected ∧ s.InWaitLoop i n := ⟨(connected_start env).of_run hrun, hwait⟩
  have hinv := run_invariant (I := fun s => s.Connected ∧ s.InWaitLoop i n)
    (C := fun _ _ => True) (fun _ _ _ h _ hstep => ⟨h.1.step hstep, h.2.step h.1 hstep⟩) h
    (along_of_mem fun _ _ => trivial) hrun'
  exact hinv.2

/-- From no state that the server can reach does the wait loop exit. -/
theorem cleanup_never_completes {env : ConnectEnv} {acts : List ThreadsAct} {s : ServerThreads}
    {i n : ℕ} (hrun : run ServerThreads.step (start env) acts = some s)
    (_hwait : s.InWaitLoop i n) (_hpending : s.DisconnectPending n) :
  ¬ s.CanComplete n
  := ((connected_start env).of_run hrun).not_canComplete n

/-- Two clients connect, and the second disconnects. -/
def secondDisconnects : List ThreadsAct :=
  let goOn : ThreadsAct := .thread 0 .goOn
  [.deliver ⟨7, .connectRequest, 0⟩, .deliver ⟨7, .established, 0⟩, goOn, goOn, goOn, goOn,
    .thread 0 (.newRdmaConn (.ofSetup none) 0),
    .deliver ⟨8, .connectRequest, 0⟩, .deliver ⟨8, .established, 0⟩, goOn, goOn, goOn, goOn,
    .thread 1 .delRdmaConn, .deliver ⟨8, .disconnected, 0⟩]

/-- The threads after it: the second one is in the wait loop. -/
def secondDisconnected : ServerThreads where
  sInfo := ⟨[⟨8, .disconnected, 0⟩], some ⟨8, .established, 0⟩,
    [⟨7, .connectRequest, 0⟩, ⟨7, .established, 0⟩, ⟨8, .connectRequest, 0⟩, ⟨8, .established, 0⟩]⟩
  cInfos := [⟨some 7, some .established, true⟩, ⟨some 8, some .established, true⟩]
  threads := [⟨some 0, .polling⟩, ⟨some 1, .waitDisconnected⟩]

theorem run_secondDisconnects :
  run ServerThreads.step (start (.ofSetup none)) secondDisconnects = some secondDisconnected
  := rfl

theorem disconnectPending_secondDisconnected :
  secondDisconnected.DisconnectPending 1
  := ⟨_, 8, _, rfl, rfl, .head _, rfl, rfl⟩

theorem cleanup_never_completes_second :
  ¬ secondDisconnected.CanComplete 1
  := cleanup_never_completes (i := 1) run_secondDisconnects rfl disconnectPending_secondDisconnected

/-- The second client has disconnected and the event is on the channel, but the thread that serves
the client waits for ever. -/
theorem second_cleanup_waits :
  run ServerThreads.step (start (.ofSetup none)) secondDisconnects = some secondDisconnected ∧
    secondDisconnected.InWaitLoop 1 1 ∧ secondDisconnected.DisconnectPending 1 ∧
    ¬ secondDisconnected.CanComplete 1
  := by
  refine ⟨run_secondDisconnects, rfl, disconnectPending_secondDisconnected, ?_⟩
  exact ((connected_start _).of_run run_secondDisconnects).not_canComplete 1

end ServerThreads

end SocketToRdma
