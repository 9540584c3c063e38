import Mathlib.Tactic.Ring
import SocketToRdma.Lib.Acquire
import SocketToRdma.Server.Connection

/-!
# Acknowledging the events

`rdma_get_cm_event` hands out an event, which is to be given back by `rdma_ack_cm_event`.
`process_rdma_cm_event` gives back an event that it refuses, and leaves one that it accepts to
its caller. Six functions call it. The events that the two sides retrieve, read and give back
are listed in a trace; they are numbered in the order in which they are retrieved, which may
be from different channels.

The outcomes of all the other calls are taken from the environment. An `rdma_ack_cm_event` of
a null pointer gives back no event, and reading through one stops the call. Only what is done
with the events is followed here; what `connect_client_r_info` stores is modelled with it, and
the values returned are the same.
-/

namespace SocketToRdma

namespace CmEvents

open Acquire

/-- What `rdma_get_cm_event` does: it fails, or it hands out an event. -/
inductive GetCmEvent where
  | failed (e : Errno)
  | event (type : CmEventType) (status : ℤ)
  deriving DecidableEq, Repr

/-- The `cm_event` of a `client_r_info` or a `server_r_info`, which points to an event that
was retrieved earlier, or is null, with the number of events retrieved and the trace. -/
structure CmState where
  cmEvent : Option ℕ
  next : ℕ
  trace : List (Act ℕ)
  older : ∀ e ∈ cmEvent, e < next

namespace CmState

/-- A successful `rdma_get_cm_event` stores the pointer to a new event. -/
def retrieve (s : CmState) : CmState :=
  ⟨some s.next, s.next + 1, s.trace ++ [.acquire s.next], by simp⟩

/-- A field of the event is read. -/
def read (s : CmState) : CmState :=
  { s with trace := s.trace ++ (s.cmEvent.map .use).toList }

/-- `rdma_ack_cm_event` -/
def ack (s : CmState) : CmState :=
  { s with trace := s.trace ++ (s.cmEvent.map .release).toList }

end CmState

/-- The call that failed with `r` is followed by a `return`, and by `k` otherwise. -/
def orReturn (r : Option Errno) (s : CmState) (k : ℤ × CmState) : ℤ × CmState :=
  match r with
  | some e => (-e.val, s)
  | none => k

/-- The call of `process_rdma_cm_event` is followed by a `return` of what it returned unless
this is zero, and by an `rdma_ack_cm_event` and `k` otherwise. -/
def ackOrReturn (p : ℤ × CmState) (k : CmState → ℤ × CmState) : ℤ × CmState :=
  if p.1 ≠ 0 then p else k p.2.ack

/-- `process_rdma_cm_event`; the fields are read by the comparisons and by the messages. -/
def processRdmaCmEvent (get : GetCmEvent) (expectedEvent : CmEventType) (s : CmState) :
    ℤ × CmState :=
  match get with
  | .failed e => (-e.val, s)
  | .event type status =>
      let s := s.retrieve.read
      if status ≠ 0 then (-status, s.read.read.ack)
      else
        let s := s.read
        if type ≠ expectedEvent then (-1, s.read.ack)
        else (0, s.read)

/-- What the calls of `client_prepare_connection` return. -/
structure PrepareEnv where
  createEventChannel : Option Errno
  createId : Option Errno
  resolveAddr : Option Errno
  addrResolved : GetCmEvent
  ackAddrResolved : Option Errno
  resolveRoute : Option Errno
  routeResolved : GetCmEvent
  ackRouteResolved : Option Errno
  allocPd : Option Errno
  createCompChannel : Option Errno
  createCq : Option Errno
  reqNotifyCq : Option Errno
  createQp : Option Errno

/-- `client_prepare_connection` -/
def clientPrepareConnection (env : PrepareEnv) (s : CmState) : ℤ × CmState :=
  orReturn env.createEventChannel s <|
  orReturn env.createId s <|
  orReturn env.resolveAddr s <|
  ackOrReturn (processRdmaCmEvent env.addrResolved .addrResolved s) fun s =>
  orReturn env.ackAddrResolved s <|
  orReturn env.resolveRoute s <|
  ackOrReturn (processRdmaCmEvent env.routeResolved .routeResolved s) fun s =>
  orReturn env.ackRouteResolved s <|
  orReturn env.allocPd s <|
  orReturn env.createCompChannel s <|
  orReturn env.createCq s <|
  orReturn env.reqNotifyCq s <|
  orReturn env.createQp s (0, s)

/-- `client_connect_to_server` -/
def clientConnectToServer (connect : Option Errno) (established : GetCmEvent)
    (ackEstablished : Option Errno) (s : CmState) : ℤ × CmState :=
  orReturn connect s <|
  ackOrReturn (processRdmaCmEvent established .established s) fun s =>
  orReturn ackEstablished s (0, s)

/-- `client_disconnect_and_clean`: whatever a call returns is ignored. -/
def clientDisconnectAndClean (disconnected : GetCmEvent) (s : CmState) : ℤ × CmState :=
  let s := (processRdmaCmEvent disconnected .disconnected s).2
  (0, s.ack)

/-- `waiting_client_conn`: the value of `process_rdma_cm_event` is overwritten. -/
def waitingClientConn (env : ConnectEnv) (connectRequest : GetCmEvent) (s : CmState) :
    Option ℤ × CmState :=
  let s := (processRdmaCmEvent connectRequest .connectRequest s).2
  if s.cmEvent.isNone then (none, s)
  else
    let s := s.read
    (some (negErrno env.ackRequest), s.ack)

/-- `accept_client_connection`: it is the old status of the `client_r_info` that is looked at
after `process_rdma_cm_event`. -/
def acceptClientConnection (env : ConnectEnv) (established : GetCmEvent) (c : Endpoint)
    (s : CmState) : ℤ × CmState :=
  if c.cmClientId.isNone ∨ ¬ c.clientQp then (-einval, s)
  else if ¬ env.registerMetadata then (-enomem, s)
  else
    orReturn env.postRecv s <|
    orReturn env.accept s <|
    let s := (processRdmaCmEvent established .established s).2
    if c.status = some .established then (-env.errno, s)
    else
      let s := s.ack
      orReturn env.ackEstablished s <|
      if env.workCompletions ≠ 1 then (env.workCompletions, s) else (1, s)

/-- `disconnect_and_cleanup` -/
def disconnectAndCleanup (disconnected : GetCmEvent) (ackDisconnected : Option Errno)
    (s : CmState) : ℤ × CmState :=
  ackOrReturn (processRdmaCmEvent disconnected .disconnected s) fun s =>
  orReturn ackDisconnected s (0, s)

/-- A call of one of the six functions, with what the calls it makes return. -/
inductive Call where
  | clientPrepareConnection (env : PrepareEnv)
  | clientConnectToServer (connect : Option Errno) (established : GetCmEvent)
      (ackEstablished : Option Errno)
  | clientDisconnectAndClean (disconnected : GetCmEvent)
  | waitingClientConn (env : ConnectEnv) (connectRequest : GetCmEvent)
  | acceptClientConnection (env : ConnectEnv) (established : GetCmEvent) (c : Endpoint)
  | disconnectAndCleanup (disconnected : GetCmEvent) (ackDisconnected : Option Errno)

/-- The state that a call leaves. -/
def Call.run (call : Call) (s : CmState) : CmState :=
  match call with
  | .clientPrepareConnection env => (CmEvents.clientPrepareConnection env s).2
  | .clientConnectToServer connect established ackEstablished =>
      (CmEvents.clientConnectToServer connect established ackEstablished s).2
  | .clientDisconnectAndClean disconnected =>
      (CmEvents.clientDisconnectAndClean disconnected s).2
  | .waitingClientConn env connectRequest =>
      (CmEvents.waitingClientConn env connectRequest s).2
  | .acceptClientConnection env established c =>
      (CmEvents.acceptClientConnection env established c s).2
  | .disconnectAndCleanup disconnected ackDisconnected =>
      (CmEvents.disconnectAndCleanup disconnected ackDisconnected s).2

/-- What a call does with events, when it starts in the state `s`. -/
def Call.trace (call : Call) (s : CmState) : List (Act ℕ) :=
  (call.run { s with trace := [] }).trace

/-- The event is accepted, or there is none and `cm_event` is null. -/
def GetCmEvent.Harmless (get : GetCmEvent) (expectedEvent : CmEventType) (s : CmState) : Prop :=
  get = .event expectedEvent 0 ∨ (∃ e, get = .failed e) ∧ s.cmEvent = none

/-- `accept_client_connection` gets to `process_rdma_cm_event`. -/
def ReachesEstablished (env : ConnectEnv) (c : Endpoint) : Prop :=
  c.cmClientId ≠ none ∧ c.clientQp ∧ env.registerMetadata ∧ env.postRecv = none ∧
    env.accept = none

/-- A function that looks at what `process_rdma_cm_event` returned may get any event. One that
does not has to get the right one, or `accept_client_connection` when it will not give it back
another one. -/
def Call.Proper (call : Call) (s : CmState) : Prop :=
  match call with
  | .clientPrepareConnection _ => True
  | .clientConnectToServer _ _ _ => True
  | .clientDisconnectAndClean disconnected => disconnected.Harmless .disconnected s
  | .waitingClientConn _ connectRequest => connectRequest.Harmless .connectRequest s
  | .acceptClientConnection env established c =>
      ReachesEstablished env c →
        if c.status = some .established then established ≠ .event .established 0
        else established.Harmless .established s
  | .disconnectAndCleanup _ _ => True

/-! ### The set-up of a connection -/

/-- What `rdma_get_cm_event` does on the channel of a server; it blocks when that is empty. -/
def GetCmEvent.ofChannel (get : Option Errno) (s : SInfo) : Option GetCmEvent :=
  match get, s.channel with
  | some e, _ => some (.failed e)
  | none, [] => none
  | none, ev :: _ => some (.event ev.event ev.status)

/-- The value returned does not depend on what becomes of the events, and `cm_event` points to
an event when it does in the set-up of a connection. -/
theorem processRdmaCmEvent_setup {get : Option Errno} {si : SInfo} {g : GetCmEvent}
    (hg : GetCmEvent.ofChannel get si = some g) (expected : CmEventType) (s : CmState) :
  ∃ si', SocketToRdma.processRdmaCmEvent get expected si =
      some ((processRdmaCmEvent g expected s).1, si') ∧
    (si.cmEvent.isSome = s.cmEvent.isSome →
      si'.cmEvent.isSome = (processRdmaCmEvent g expected s).2.cmEvent.isSome)
  := by
  obtain ⟨channel, cmEvent, received⟩ := si
  cases get with
  | some e =>
      obtain rfl : g = .failed e := by simpa [GetCmEvent.ofChannel] using hg.symm
      exact ⟨_, rfl, fun h => h⟩
  | none =>
      cases channel with
      | nil => simp [GetCmEvent.ofChannel] at hg
      | cons ev channel =>
          obtain rfl : g = .event ev.event ev.status := by
            simpa [GetCmEvent.ofChannel] using hg.symm
          refine ⟨⟨channel, some ev, received ++ [ev]⟩, ?_, fun _ => ?_⟩ <;>
            simp only [SocketToRdma.processRdmaCmEvent, processRdmaCmEvent] <;>
            split_ifs <;> rfl

/-- `waiting_client_conn` returns what it does in the set-up of a connection. -/
theorem waitingClientConn_setup {env : ConnectEnv} {si : SInfo} {g : GetCmEvent}
    (hg : GetCmEvent.ofChannel env.getRequest si = some g) {s : CmState}
    (hs : si.cmEvent.isSome = s.cmEvent.isSome) (c : Endpoint) :
  (SocketToRdma.waitingClientConn env si c).map Prod.fst = (waitingClientConn env g s).1
  := by
  obtain ⟨si', hprocess, hsome⟩ := processRdmaCmEvent_setup hg .connectRequest s
  have hsome := hsome hs
  simp only [SocketToRdma.waitingClientConn, hprocess, waitingClientConn]
  cases h : si'.cmEvent with
  | none =>
      have hnone : (processRdmaCmEvent g .connectRequest s).2.cmEvent = none := by
        simpa [h] using hsome.symm
      simp [hnone]
  | some ev =>
      have hne : (processRdmaCmEvent g .connectRequest s).2.cmEvent ≠ none := by
        simpa [h, Option.isSome_iff_ne_none] using hsome.symm
      simp [hne]

/-- `accept_client_connection` returns what it does in the set-up of a connection. -/
theorem acceptClientConnection_setup {env : ConnectEnv} {si : SInfo} {g : GetCmEvent}
    (hg : GetCmEvent.ofChannel env.getEstablished si = some g) (s : CmState) (c : Endpoint) :
  (SocketToRdma.acceptClientConnection env si c).map Prod.fst =
    some (acceptClientConnection env g c s).1
  := by
  obtain ⟨si', hprocess, -⟩ := processRdmaCmEvent_setup hg .established s
  unfold SocketToRdma.acceptClientConnection acceptClientConnection orReturn
  split
  · rfl
  · split
    · rfl
    · cases env.postRecv with
      | some e => rfl
      | none =>
          cases env.accept with
          | some e => rfl
          | none =>
              simp only [awaitEstablished, hprocess]
              split
              · rfl
              · cases env.ackEstablished with
                | some e => rfl
                | none => by_cases hwc : env.workCompletions = 1 <;> simp [hwc]

/-! ### The events of a step -/

namespace CmState

@[simp]
theorem read_cmEvent (s : CmState) :
  s.read.cmEvent = s.cmEvent
  := rfl

@[simp]
theorem ack_cmEvent (s : CmState) :
  s.ack.cmEvent = s.cmEvent
  := rfl

/-- An event was retrieved, and three of its fields were read. -/
def held (s : CmState) : CmState :=
  s.retrieve.read.read.read

@[simp]
theorem held_cmEvent (s : CmState) :
  s.held.cmEvent = some s.next
  := rfl

theorem trace_held (s : CmState) :
  s.held.trace = s.trace ++ [.acquire s.next, .use s.next, .use s.next, .use s.next]
  := by
  simp [held, retrieve, read]

theorem trace_held_ack (s : CmState) :
  s.held.ack.trace = s.trace ++ bracket s.next 3
  := by
  simp [held, retrieve, read, ack, bracket, List.replicate]

/-- The pointer is read a number of times, and the event given back. -/
theorem trace_reads_ack (n : ℕ) (s : CmState) :
  (read^[n] s).ack.trace =
    s.trace ++ (match s.cmEvent with
      | none => []
      | some e => List.replicate n (.use e) ++ [.release e])
  := by
  induction n generalizing s with
  | zero => cases h : s.cmEvent <;> simp [ack, h]
  | succ n ih =>
      rw [Function.iterate_succ_apply, ih, read_cmEvent]
      cases h : s.cmEvent <;> simp [read, h, List.replicate_succ]

/-- What was done with events is settled, and the next event is a new one. -/
structure Quiet (s : CmState) : Prop where
  settled : Settled s.trace
  old : ∀ x ∈ s.trace, x.resource < s.next

theorem Quiet.held_ack {s : CmState} (hs : s.Quiet) :
  s.held.ack.Quiet
  := by
  have hres : ∀ x ∈ bracket s.next 3, x.resource = s.next := by
    simp [bracket, Act.resource]
  constructor
  · rw [trace_held_ack]
    apply hs.settled.append (settled_bracket s.next 3)
    intro x hx y hy
    rw [hres y hy]
    exact (hs.old x hx).ne
  · intro x hx
    rw [trace_held_ack] at hx
    have hnext : s.held.ack.next = s.next + 1 := rfl
    obtain hx | hx := List.mem_append.mp hx
    · have := hs.old x hx
      omega
    · have := hres x hx
      omega

end CmState

/-- A good event is left to the caller, and every other event was given back. -/
theorem processRdmaCmEvent_cases (get : GetCmEvent) (expected : CmEventType) (s : CmState) :
  (∃ e, get = .failed e ∧ processRdmaCmEvent get expected s = (-e.val, s)) ∨
    (get = .event expected 0 ∧ processRdmaCmEvent get expected s = (0, s.held)) ∨
    (∃ type status ret, get = .event type status ∧ get ≠ .event expected 0 ∧ ret ≠ 0 ∧
      processRdmaCmEvent get expected s = (ret, s.held.ack))
  := by
  cases get with
  | failed e => exact .inl ⟨e, rfl, rfl⟩
  | event type status =>
      right
      by_cases hstatus : status = 0
      · subst hstatus
        by_cases htype : type = expected
        · left
          simp [processRdmaCmEvent, htype, CmState.held]
        · right
          refine ⟨type, 0, -1, rfl, by simp [htype], by simp, ?_⟩
          simp [processRdmaCmEvent, htype, CmState.held]
      · right
        refine ⟨type, status, -status, rfl, by simp [hstatus], by simp [hstatus], ?_⟩
        simp [processRdmaCmEvent, hstatus, CmState.held]

/-! ### Functions that look at the result -/

/-- The step of a function that returns unless it got a good event, and gives that back. -/
theorem CmState.Quiet.step {s : CmState} (hs : s.Quiet) (get : GetCmEvent)
    (expected : CmEventType) {k : CmState → ℤ × CmState}
    (hk : ∀ s : CmState, s.Quiet → (k s).2.Quiet) :
  (ackOrReturn (processRdmaCmEvent get expected s) k).2.Quiet
  := by
  obtain ⟨e, -, h⟩ | ⟨-, h⟩ | ⟨type, status, ret, -, -, hret, h⟩ :=
    processRdmaCmEvent_cases get expected s
  · have he : e.val ≠ 0 := e.property.ne'
    simpa [ackOrReturn, h, he] using hs
  · simpa [ackOrReturn, h] using hk _ hs.held_ack
  · simpa [ackOrReturn, h, hret] using hs.held_ack

theorem CmState.Quiet.orReturn {s : CmState} (hs : s.Quiet) (r : Option Errno)
    {k : ℤ × CmState} (hk : k.2.Quiet) :
  (orReturn r s k).2.Quiet
  := by
  cases r with
  | none => exact hk
  | some e => exact hs

theorem clientPrepareConnection_quiet (env : PrepareEnv) {s : CmState} (hs : s.Quiet) :
  (clientPrepareConnection env s).2.Quiet
  := by
  apply hs.orReturn
  apply hs.orReturn
  apply hs.orReturn
  apply hs.step
  intro s hs
  apply hs.orReturn
  apply hs.orReturn
  apply hs.step
  intro s hs
  apply hs.orReturn
  apply hs.orReturn
  apply hs.orReturn
  apply hs.orReturn
  apply hs.orReturn
  apply hs.orReturn
  exact hs

theorem clientConnectToServer_quiet (connect : Option Errno) (established : GetCmEvent)
    (ackEstablished : Option Errno) {s : CmState} (hs : s.Quiet) :
  (clientConnectToServer connect established ackEstablished s).2.Quiet
  := by
  apply hs.orReturn
  apply hs.step
  intro s hs
  apply hs.orReturn
  exact hs

theorem disconnectAndCleanup_quiet (disconnected : GetCmEvent)
    (ackDisconnected : Option Errno) {s : CmState} (hs : s.Quiet) :
  (disconnectAndCleanup disconnected ackDisconnected s).2.Quiet
  := by
  apply hs.step
  intro s hs
  apply hs.orReturn
  exact hs

/-! ### Functions that do not -/

/-- What is read and given back whatever the result was, by a call that starts in `s`. -/
theorem settled_reads_ack_iff (n : ℕ) (get : GetCmEvent) (expected : CmEventType)
    {s : CmState} (hs : s.trace = []) :
  Settled (CmState.read^[n] (processRdmaCmEvent get expected s).2).ack.trace ↔
    get.Harmless expected s
  := by
  rw [CmState.trace_reads_ack]
  obtain ⟨e, rfl, h⟩ | ⟨rfl, h⟩ | ⟨type, status, ret, rfl, hne, -, h⟩ :=
    processRdmaCmEvent_cases get expected s
  · cases hp : s.cmEvent with
    | none => simp [h, hs, hp, settled_nil, GetCmEvent.Harmless]
    | some p =>
        -- The event that is given back was retrieved by an earlier call.
        have hnot (t : List (Act ℕ)) (ht : .release p ∈ t) (hn : .acquire p ∉ t) :
            ¬ Settled t := fun h => hn (h.acquired ht)
        simp only [h, hs, hp, GetCmEvent.Harmless, reduceCtorEq, and_false, or_false, iff_false]
        apply hnot <;> simp
  · have hbracket : s.held.trace ++ (List.replicate n (.use s.next) ++ [.release s.next]) =
        bracket s.next (3 + n) := by
      simp [CmState.trace_held, hs, bracket, Nat.add_comm 3 n, List.replicate_succ]
    simp [h, hbracket, settled_bracket, GetCmEvent.Harmless]
  · -- The event was given back already.
    have hharm : ¬ (GetCmEvent.event type status).Harmless expected s := by
      simpa [GetCmEvent.Harmless] using hne
    simp only [h, CmState.ack_cmEvent, CmState.held_cmEvent, CmState.trace_held_ack, hs, hharm,
      iff_false]
    intro hsettled
    have := hsettled.once s.next (by simp [bracket])
    simp [bracket, List.count_replicate] at this

theorem clientDisconnectAndClean_settled_iff (disconnected : GetCmEvent) {s : CmState}
    (hs : s.trace = []) :
  Settled (clientDisconnectAndClean disconnected s).2.trace ↔
    disconnected.Harmless .disconnected s
  :=
  settled_reads_ack_iff 0 disconnected .disconnected hs

theorem waitingClientConn_settled_iff (env : ConnectEnv) (connectRequest : GetCmEvent)
    {s : CmState} (hs : s.trace = []) :
  Settled (waitingClientConn env connectRequest s).2.trace ↔
    connectRequest.Harmless .connectRequest s
  := by
  -- A call that stops at the null pointer has nothing to give back.
  have hstop : (waitingClientConn env connectRequest s).2.trace =
      (processRdmaCmEvent connectRequest .connectRequest s).2.read.ack.trace := by
    cases h : (processRdmaCmEvent connectRequest .connectRequest s).2.cmEvent <;>
      simp [waitingClientConn, CmState.read, CmState.ack, h]
  rw [hstop]
  exact settled_reads_ack_iff 1 connectRequest .connectRequest hs

/-- `waiting_client_conn` stops at a null pointer when it gets no event and never got one. -/
theorem waitingClientConn_eq_none_iff (env : ConnectEnv) (connectRequest : GetCmEvent)
    (s : CmState) :
  (waitingClientConn env connectRequest s).1 = none ↔
    (∃ e, connectRequest = .failed e) ∧ s.cmEvent = none
  := by
  have hnone : (waitingClientConn env connectRequest s).1 = none ↔
      (processRdmaCmEvent connectRequest .connectRequest s).2.cmEvent = none := by
    simp only [waitingClientConn, Option.isNone_iff_eq_none]
    split_ifs with h <;> simp [h]
  rw [hnone]
  obtain ⟨e, rfl, h⟩ | ⟨rfl, h⟩ | ⟨type, status, ret, rfl, -, -, h⟩ :=
    processRdmaCmEvent_cases connectRequest .connectRequest s
  · simp [h]
  · simp [h]
  · simp [h]

/-- A good event is the only one that `process_rdma_cm_event` does not settle by itself. -/
theorem processRdmaCmEvent_settled_iff (get : GetCmEvent) (expected : CmEventType)
    {s : CmState} (hs : s.trace = []) :
  Settled (processRdmaCmEvent get expected s).2.trace ↔ get ≠ .event expected 0
  := by
  obtain ⟨e, rfl, h⟩ | ⟨rfl, h⟩ | ⟨type, status, ret, rfl, hne, -, h⟩ :=
    processRdmaCmEvent_cases get expected s
  · simp [h, hs, settled_nil]
  · simp only [h, CmState.trace_held, hs, ne_eq, not_true_eq_false, iff_false]
    intro hsettled
    have := hsettled.once s.next (by simp)
    simp at this
  · simp only [h, CmState.trace_held_ack, hs, hne, ne_eq, not_false_eq_true, iff_true]
    exact settled_bracket s.next 3

theorem acceptClientConnection_settled_iff (env : ConnectEnv) (established : GetCmEvent)
    (c : Endpoint) {s : CmState} (hs : s.trace = []) :
  Settled (acceptClientConnection env established c s).2.trace ↔
    (ReachesEstablished env c →
      if c.status = some .established then established ≠ .event .established 0
      else established.Harmless .established s)
  := by
  by_cases hreach : ReachesEstablished env c
  · obtain ⟨hid, hqp, hmr, hpost, haccept⟩ := id hreach
    have hsetup : ¬ (c.cmClientId.isNone ∨ ¬ c.clientQp) := by simp [hid, hqp]
    by_cases hstatus : c.status = some .established
    · have htrace : (acceptClientConnection env established c s).2 =
          (processRdmaCmEvent established .established s).2 := by
        simp only [acceptClientConnection, hsetup, if_false, hmr, not_true_eq_false, orReturn,
          hpost, haccept, hstatus, if_true]
      simpa [htrace, hreach, hstatus]
        using processRdmaCmEvent_settled_iff established .established hs
    · have htrace : (acceptClientConnection env established c s).2.trace =
          (processRdmaCmEvent established .established s).2.ack.trace := by
        simp only [acceptClientConnection, hsetup, if_false, hmr, not_true_eq_false, orReturn,
          hpost, haccept, hstatus]
        cases env.ackEstablished <;> simp only [apply_ite Prod.snd, ite_self]
      simpa [htrace, hreach, hstatus]
        using settled_reads_ack_iff 0 established .established hs
  · have htrace : (acceptClientConnection env established c s).2 = s := by
      unfold acceptClientConnection
      split
      · rfl
      · rename_i hsetup
        split
        · rfl
        · rename_i hmr
          cases hpost : env.postRecv with
          | some e => rfl
          | none =>
              cases haccept : env.accept with
              | some e => rfl
              | none =>
                  have hsetup := not_or.mp hsetup
                  refine absurd ⟨?_, ?_, ?_, hpost, haccept⟩ hreach <;> simp_all
    simp [htrace, hs, hreach, settled_nil]

/-- Every event that a call retrieves is given back exactly once, no event that the step did
not retrieve is given back, and no field of an event is read after it was given back, exactly
for the proper calls. -/
theorem acknowledged_once_iff (call : Call) (s : CmState) :
  Settled (call.trace s) ↔ call.Proper s
  := by
  have hquiet : CmState.Quiet { s with trace := [] } := ⟨settled_nil, by simp⟩
  cases call with
  | clientPrepareConnection env =>
      have hsettled := (clientPrepareConnection_quiet env hquiet).settled
      exact ⟨fun _ => trivial, fun _ => hsettled⟩
  | clientConnectToServer connect established ackEstablished =>
      have hsettled :=
        (clientConnectToServer_quiet connect established ackEstablished hquiet).settled
      exact ⟨fun _ => trivial, fun _ => hsettled⟩
  | clientDisconnectAndClean disconnected =>
      exact clientDisconnectAndClean_settled_iff disconnected rfl
  | waitingClientConn env connectRequest =>
      exact waitingClientConn_settled_iff env connectRequest rfl
  | acceptClientConnection env established c =>
      exact acceptClientConnection_settled_iff env established c rfl
  | disconnectAndCleanup disconnected ackDisconnected =>
      have hsettled :=
        (disconnectAndCleanup_quiet disconnected ackDisconnected hquiet).settled
      exact ⟨fun _ => trivial, fun _ => hsettled⟩

/-- A client disconnects while the server waits for the next one: the event is given back by
`process_rdma_cm_event`, its `id` is read, and it is given back again. -/
theorem waitingClientConn_acknowledges_twice :
  Call.trace (.waitingClientConn (.ofSetup none) (.event .disconnected 0)) ⟨none, 0, [], by simp⟩ =
      [.acquire 0, .use 0, .use 0, .use 0, .release 0, .use 0, .release 0] ∧
    ¬ ∀ (call : Call) (s : CmState), Settled (call.trace s)
  := by
  have htrace : Call.trace (.waitingClientConn (.ofSetup none) (.event .disconnected 0))
      ⟨none, 0, [], by simp⟩ =
      [.acquire 0, .use 0, .use 0, .use 0, .release 0, .use 0, .release 0] := rfl
  refine ⟨htrace, fun h => ?_⟩
  have := (h (.waitingClientConn (.ofSetup none) (.event .disconnected 0))
    ⟨none, 0, [], by simp⟩).once 0
  rw [htrace] at this
  revert this
  decide

end CmEvents

end SocketToRdma
