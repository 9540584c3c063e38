import Mathlib.Data.Int.Notation
import Mathlib.Data.List.Count
import SocketToRdma.Lib.Run

/-!
# Setting up a connection

`connect_client_r_info` takes two events from the event channel of the server: the one that
`waiting_client_conn` takes for a connection request, and the one that
`accept_client_connection` takes for the establishment of that connection. The channel is
shared by all connections. The events are given in the order in which they are delivered; what
the verbs and the other calls of the set-up return is taken from the environment.

The result of `process_rdma_cm_event` is not looked at, and the event it received is used
whatever it is. An event that is refused has been acknowledged, so that it is acknowledged
twice; the model lets the second acknowledgement return, and the fields of the event be read.
-/

namespace SocketToRdma

open Run

/-- The types of the connection management events. -/
inductive CmEventType where
  | addrResolved
  | addrError
  | routeResolved
  | routeError
  | connectRequest
  | connectResponse
  | connectError
  | unreachable
  | rejected
  | established
  | disconnected
  | deviceRemoval
  | multicastJoin
  | multicastError
  | addrChange
  | timewaitExit
  deriving DecidableEq, Repr

/-- A `struct rdma_cm_event`, with the connection it is about. -/
structure CmEvent where
  id : ℕ
  event : CmEventType
  status : ℤ
  deriving DecidableEq, Repr

/-- The error number of a call that failed; it is positive. -/
abbrev Errno : Type := {e : ℤ // 0 < e}

/-- The part of the `server_r_info` that the set-up uses: the events that are still to be
delivered, the event received last, and the events received by the current call. -/
structure SInfo where
  channel : List CmEvent
  cmEvent : Option CmEvent
  received : List CmEvent
  deriving DecidableEq, Repr

/-- The part of a `client_r_info` that the set-up fills. -/
structure Endpoint where
  cmClientId : Option ℕ
  status : Option CmEventType
  clientQp : Bool
  deriving DecidableEq, Repr

/-- The endpoint of a `client_r_info` that was allocated. -/
def nullClientRInfo : Endpoint :=
  ⟨none, none, false⟩

/-- What the calls of a set-up return: `none` for a success of a call that may fail. -/
structure ConnectEnv where
  getRequest : Option Errno
  ackRequest : Option Errno
  setupClientResources : Option Errno
  registerMetadata : Bool
  postRecv : Option Errno
  accept : Option Errno
  getEstablished : Option Errno
  errno : ℤ
  ackEstablished : Option Errno
  workCompletions : ℤ
  sendMetadata : Option Errno

/-- The value returned for the result of a call. -/
def negErrno (r : Option Errno) : ℤ :=
  match r with
  | none => 0
  | some e => -e.val

/-- `EINVAL` -/
def einval : ℤ := 22

/-- `ENOMEM` -/
def enomem : ℤ := 12

/-- `process_rdma_cm_event`; it blocks while there is no event. -/
def processRdmaCmEvent (get : Option Errno) (expectedEvent : CmEventType) (s : SInfo) :
    Option (ℤ × SInfo) :=
  match get, s.channel with
  | some e, _ => some (-e.val, s)
  | none, [] => none
  | none, ev :: channel =>
      let s : SInfo := ⟨channel, some ev, s.received ++ [ev]⟩
      if ev.status ≠ 0 then some (-ev.status, s)
      else if ev.event ≠ expectedEvent then some (-1, s)
      else some (0, s)

/-- `waiting_client_conn`: the result of `process_rdma_cm_event` is overwritten. -/
def waitingClientConn (env : ConnectEnv) (s : SInfo) (c : Endpoint) :
    Option (ℤ × SInfo × Endpoint) :=
  match processRdmaCmEvent env.getRequest .connectRequest s with
  | none => none
  | some (_, s) =>
      match s.cmEvent with
      | none => none
      | some ev =>
          let c := { c with status := some .connectRequest, cmClientId := some ev.id }
          some (negErrno env.ackRequest, s, c)

/-- `setup_client_resources` -/
def setupClientResources (env : ConnectEnv) (c : Endpoint) : ℤ × Endpoint :=
  if c.cmClientId.isNone then (-einval, c)
  else
    match env.setupClientResources with
    | some e => (-e.val, c)
    | none => (0, { c with clientQp := true })

/-- The end of `accept_client_connection`, after `rdma_accept`: it is the old status that is
compared, and not the event. -/
def awaitEstablished (env : ConnectEnv) (s : SInfo) (c : Endpoint) :
    Option (ℤ × SInfo × Endpoint) :=
  match processRdmaCmEvent env.getEstablished .established s with
  | none => none
  | some (_, s) =>
      if c.status = some .established then some (-env.errno, s, c)
      else
        let c := { c with status := some .established }
        match env.ackEstablished with
        | some e => some (-e.val, s, c)
        | none => some (if env.workCompletions ≠ 1 then env.workCompletions else 1, s, c)

/-- `accept_client_connection` -/
def acceptClientConnection (env : ConnectEnv) (s : SInfo) (c : Endpoint) :
    Option (ℤ × SInfo × Endpoint) :=
  if c.cmClientId.isNone ∨ ¬ c.clientQp then some (-einval, s, c)
  else if ¬ env.registerMetadata then some (-enomem, s, c)
  else
    match env.postRecv, env.accept with
    | some e, _ => some (-e.val, s, c)
    | none, some e => some (-e.val, s, c)
    | none, none => awaitEstablished env s c

/-- `connect_client_r_info`: the value returned, and the `server_r_info` and the
`client_r_info` after it. -/
def connectClientRInfo (env : ConnectEnv) (s : SInfo) (c : Endpoint) :
    Option (ℤ × SInfo × Endpoint) :=
  match waitingClientConn env s c with
  | none => none
  | some (ret, s, c) =>
      if ret ≠ 0 then some (ret, s, c)
      else
        match setupClientResources env c with
        | (ret, c) =>
            if ret ≠ 0 then some (ret, s, c)
            else
              match acceptClientConnection env s c with
              | none => none
              | some (ret, s, c) =>
                  if ret < 0 then some (-ret, s, c)
                  else some (negErrno env.sendMetadata, s, c)

/-! ### The set-up of the connections of a server -/

/-- A call of `connect_client_r_info` that returned: the endpoint it filled, the value it
returned, and the events it received. -/
structure ConnectRecord where
  endpoint : Endpoint
  ret : ℤ
  received : List CmEvent
  deriving DecidableEq, Repr

/-- A server, with the calls that returned. -/
structure Listener where
  sInfo : SInfo
  records : List ConnectRecord
  deriving DecidableEq, Repr

namespace Listener

/-- The server that starts, with the events that will be delivered. -/
def start (events : List CmEvent) : Listener :=
  ⟨⟨events, none, []⟩, []⟩

/-- The next call of `connect_client_r_info`, for a new `client_r_info`. -/
def connect (s : Listener) (env : ConnectEnv) : Option Listener :=
  match connectClientRInfo env { s.sInfo with received := [] } nullClientRInfo with
  | none => none
  | some (ret, sInfo, c) => some ⟨sInfo, s.records ++ [⟨c, ret, sInfo.received⟩]⟩

/-- The number of endpoints that were bound to a connection. -/
def boundTo (s : Listener) (id : ℕ) : ℕ :=
  s.records.countP fun r => r.endpoint.cmClientId = some id

/-- The endpoint is bound to a connection that was requested and, when the call that filled
it received this, established; no other endpoint is. -/
def Bound (s : Listener) (r : ConnectRecord) : Prop :=
  ∃ id, r.endpoint.cmClientId = some id ∧ ⟨id, .connectRequest, 0⟩ ∈ r.received ∧
    s.boundTo id = 1 ∧ r.endpoint.status = some .established ∧
    ⟨id, .established, 0⟩ ∈ r.received

end Listener

/-- What a connection request ends in: the establishment, or an error. -/
def CmEventType.IsOutcome (e : CmEventType) : Prop :=
  e = .established ∨ e = .connectError ∨ e = .unreachable ∨ e = .rejected ∨
    e = .deviceRemoval ∨ e = .timewaitExit

/-- The events of every connection come in the order of its life: the request, its outcome, the
disconnection. -/
def LifeCycle (events : List CmEvent) : Prop :=
  ∀ id, ∃ outcome : CmEventType, outcome.IsOutcome ∧
    (events.filter fun e => e.id = id).map CmEvent.event <+:
      [.connectRequest, outcome, .disconnected]

/-- The call gets as far as waiting for the establishment. -/
def ConnectEnv.Accepts (env : ConnectEnv) : Prop :=
  env.ackRequest = none ∧ env.setupClientResources = none ∧ env.registerMetadata ∧
    env.postRecv = none ∧ env.accept = none

/-- The next events are a connection request and, if the call gets as far as waiting for it,
the establishment of the same connection, both without an error. -/
def Paired (s : Listener) (env : ConnectEnv) : Prop :=
  env.getRequest = none ∧ ∃ id channel,
    s.sInfo.channel = ⟨id, .connectRequest, 0⟩ :: channel ∧
    (env.Accepts → env.getEstablished = none ∧
      ∃ channel', channel = ⟨id, .established, 0⟩ :: channel')

/-! ### A call that meets a pair of events -/

theorem negErrno_eq_zero_iff {r : Option Errno} :
  negErrno r = 0 ↔ r = none
  := by
  cases r with
  | none => simp [negErrno]
  | some e =>
      have := e.2
      simp only [negErrno, reduceCtorEq, iff_false]
      omega

/-- The call receives the request and is bound to its connection. -/
theorem waitingClientConn_paired {env : ConnectEnv} {id : ℕ} {channel received : List CmEvent}
    {ev : Option CmEvent} (hget : env.getRequest = none) :
  waitingClientConn env ⟨⟨id, .connectRequest, 0⟩ :: channel, ev, received⟩ nullClientRInfo =
    some (negErrno env.ackRequest,
      ⟨channel, some ⟨id, .connectRequest, 0⟩, received ++ [⟨id, .connectRequest, 0⟩]⟩,
      ⟨some id, some .connectRequest, false⟩)
  := by
  simp [waitingClientConn, processRdmaCmEvent, hget, nullClientRInfo]

/-- The call receives the establishment. -/
theorem awaitEstablished_paired {env : ConnectEnv} {id : ℕ} {channel received : List CmEvent}
    {ev : Option CmEvent} (hget : env.getEstablished = none) :
  ∃ ret, awaitEstablished env ⟨⟨id, .established, 0⟩ :: channel, ev, received⟩
      ⟨some id, some .connectRequest, true⟩ =
    some (ret, ⟨channel, some ⟨id, .established, 0⟩, received ++ [⟨id, .established, 0⟩]⟩,
      ⟨some id, some .established, true⟩)
  := by
  simp only [awaitEstablished, processRdmaCmEvent, hget]
  cases env.ackEstablished with
  | none => exact ⟨_, rfl⟩
  | some e => exact ⟨_, rfl⟩

/-- The call waits for the establishment, or it fails before and leaves the events. -/
theorem acceptClientConnection_paired {env : ConnectEnv} (id : ℕ) (s : SInfo)
    (hack : env.ackRequest = none) (hsetup : env.setupClientResources = none) :
  (env.Accepts ∧ acceptClientConnection env s ⟨some id, some .connectRequest, true⟩ =
      awaitEstablished env s ⟨some id, some .connectRequest, true⟩) ∨
    ∃ e : Errno, acceptClientConnection env s ⟨some id, some .connectRequest, true⟩ =
      some (-e.val, s, ⟨some id, some .connectRequest, true⟩)
  := by
  have haccepts : env.Accepts ↔
      env.registerMetadata ∧ env.postRecv = none ∧ env.accept = none := by
    simp [ConnectEnv.Accepts, hack, hsetup]
  rw [haccepts]
  simp only [acceptClientConnection, Option.isNone_some, Bool.false_eq_true, not_true_eq_false,
    or_self, if_false]
  cases env.registerMetadata with
  | false => exact Or.inr ⟨⟨enomem, by decide⟩, rfl⟩
  | true =>
      cases env.postRecv with
      | some e => exact Or.inr ⟨e, rfl⟩
      | none =>
          cases env.accept with
          | some e => exact Or.inr ⟨e, rfl⟩
          | none => exact Or.inl ⟨⟨rfl, rfl, rfl⟩, rfl⟩

/-- What a call that meets a pair of events does: its endpoint is bound to the connection that
was requested, and if it succeeds the connection was established. -/
structure ConnectedTo (id : ℕ) (channel : List CmEvent) (ret : ℤ) (s : SInfo) (c : Endpoint) :
    Prop where
  cmClientId : c.cmClientId = some id
  channel : s.channel <:+ channel
  bound : ret = 0 → ⟨id, .connectRequest, 0⟩ ∈ s.received ∧ c.status = some .established ∧
    ⟨id, .established, 0⟩ ∈ s.received

/-- A call that fails before it received the establishment. -/
theorem ConnectedTo.of_failed {id : ℕ} {channel received : List CmEvent} {ev : Option CmEvent}
    {ret ret' : ℤ} {s : SInfo} {c c' : Endpoint} (hret : ret ≠ 0) (hc : c.cmClientId = some id)
    (h : some (ret, (⟨channel, ev, received⟩ : SInfo), c) = some (ret', s, c')) :
  ConnectedTo id channel ret' s c'
  := by
  simp only [Option.some.injEq, Prod.mk.injEq] at h
  obtain ⟨rfl, rfl, rfl⟩ := h
  exact ⟨hc, List.suffix_refl _, fun h => absurd h hret⟩

/-- The end of a call that received the establishment. -/
theorem ConnectedTo.of_established {env : ConnectEnv} {id : ℕ} {channel received : List CmEvent}
    {ev : Option CmEvent} {ret ret' : ℤ} {s : SInfo} {c : Endpoint}
    (hrequest : ⟨id, .connectRequest, 0⟩ ∈ received)
    (hest : ⟨id, .established, 0⟩ ∈ received)
    (h : (if ret' < 0 then
        some (-ret', (⟨channel, ev, received⟩ : SInfo), ⟨some id, some .established, true⟩)
      else
        some (negErrno env.sendMetadata, (⟨channel, ev, received⟩ : SInfo),
          ⟨some id, some .established, true⟩)) = some (ret, s, c)) :
  ConnectedTo id (⟨id, .established, 0⟩ :: channel) ret s c
  := by
  rw [← apply_ite some, Option.some.injEq] at h
  have hs : s = ⟨channel, ev, received⟩ ∧ c = ⟨some id, some .established, true⟩ := by
    split at h
    · simp_all
    · simp_all
  obtain ⟨rfl, rfl⟩ := hs
  exact ⟨rfl, List.suffix_cons .., fun _ => ⟨hrequest, rfl, hest⟩⟩

/-- A call that meets a pair of events takes these events only, and is bound to their
connection. -/
theorem connectClientRInfo_paired {env : ConnectEnv} {s s' : SInfo} {id : ℕ}
    {channel : List CmEvent} {ret : ℤ} {c : Endpoint} (hget : env.getRequest = none)
    (hchannel : s.channel = ⟨id, .connectRequest, 0⟩ :: channel)
    (hest : env.Accepts → env.getEstablished = none ∧
      ∃ channel', channel = ⟨id, .established, 0⟩ :: channel')
    (h : connectClientRInfo env s nullClientRInfo = some (ret, s', c)) :
  ConnectedTo id channel ret s' c
  := by
  obtain ⟨_, ev, received⟩ := s
  subst hchannel
  rw [connectClientRInfo, waitingClientConn_paired hget] at h
  simp only [] at h
  by_cases hack : env.ackRequest = none
  · rw [if_neg (not_not.mpr (negErrno_eq_zero_iff.mpr hack))] at h
    cases hsetup : env.setupClientResources with
    | some e =>
        have hneg : -e.val ≠ 0 := by
          have := e.2
          omega
        simp only [setupClientResources, hsetup, Option.isNone_some, Bool.false_eq_true, if_false] at h
        rw [if_pos hneg] at h
        apply ConnectedTo.of_failed hneg rfl h
    | none =>
        simp only [setupClientResources, hsetup, Option.isNone_some, Bool.false_eq_true, if_false,
          ne_eq, not_true_eq_false] at h
        obtain ⟨haccepts, haccept⟩ | ⟨e, haccept⟩ := acceptClientConnection_paired
          id ⟨channel, some ⟨id, .connectRequest, 0⟩,
            received ++ [⟨id, .connectRequest, 0⟩]⟩ hack hsetup
        · obtain ⟨hget', channel', rfl⟩ := hest haccepts
          obtain ⟨ret', hawait⟩ := awaitEstablished_paired hget'
          rw [haccept, hawait] at h
          apply ConnectedTo.of_established _ _ h
          · simp
          · simp
        · have he := e.2
          rw [haccept] at h
          simp only [] at h
          rw [if_pos (by omega)] at h
          apply ConnectedTo.of_failed _ rfl h
          omega
  · have hneg : negErrno env.ackRequest ≠ 0 := fun h => hack (negErrno_eq_zero_iff.mp h)
    rw [if_pos hneg] at h
    apply ConnectedTo.of_failed hneg rfl h

/-! ### The connections of a server -/

/-- The number of requests of a connection that are still to be delivered. -/
def requests (id : ℕ) (events : List CmEvent) : ℕ :=
  (events.filter fun e => e.id = id).map CmEvent.event |>.count .connectRequest

/-- Every connection is requested at most once, counting the endpoints that are bound to it,
and the calls that succeeded received the events of their connection. -/
structure Listener.Inv (s : Listener) : Prop where
  once : ∀ id, s.boundTo id + requests id s.sInfo.channel ≤ 1
  bound : ∀ r ∈ s.records, r.ret = 0 → ∃ id, r.endpoint.cmClientId = some id ∧
    ⟨id, .connectRequest, 0⟩ ∈ r.received ∧ r.endpoint.status = some .established ∧
    ⟨id, .established, 0⟩ ∈ r.received

theorem requests_cons (id : ℕ) (ev : CmEvent) (events : List CmEvent) :
  requests id (ev :: events) =
    requests id events + if ev.id = id ∧ ev.event = .connectRequest then 1 else 0
  := by
  by_cases hid : ev.id = id
  · simp [requests, hid, List.count_cons]
  · simp [requests, hid]

theorem requests_le_of_suffix (id : ℕ) {channel channel' : List CmEvent}
    (h : channel' <:+ channel) :
  requests id channel' ≤ requests id channel
  := by
  apply List.Sublist.count_le
  apply List.Sublist.map
  apply List.Sublist.filter
  apply h.sublist

/-- In the order of its life, a connection is requested at most once. -/
theorem LifeCycle.requests_le {events : List CmEvent} (h : LifeCycle events) (id : ℕ) :
  requests id events ≤ 1
  := by
  obtain ⟨outcome, houtcome, hprefix⟩ := h id
  have hne : outcome ≠ .connectRequest := by
    rintro rfl
    simp [CmEventType.IsOutcome] at houtcome
  calc requests id events
      ≤ [.connectRequest, outcome, .disconnected].count .connectRequest :=
        hprefix.sublist.count_le _
    _ = 1 := by simp [hne]

theorem Listener.inv_start {events : List CmEvent} (h : LifeCycle events) :
  (Listener.start events).Inv
  := by
  constructor
  · intro id
    have := h.requests_le id
    simpa [Listener.boundTo, Listener.start] using this
  · intro r hr
    simp [Listener.start] at hr

/-- A call that meets a pair of events keeps the invariant: the request it takes was the only
one of its connection. -/
theorem Listener.Inv.connect {s s' : Listener} {env : ConnectEnv} (hs : s.Inv)
    (hpaired : Paired s env) (h : s.connect env = some s') :
  s'.Inv
  := by
  obtain ⟨hget, id, channel, hchannel, hest⟩ := hpaired
  rw [Listener.connect] at h
  split at h
  · simp at h
  · rename_i ret sInfo c hcall
    obtain rfl := Option.some.inj h
    have hto : ConnectedTo id channel ret sInfo c :=
      connectClientRInfo_paired (s := { s.sInfo with received := [] }) hget hchannel hest hcall
    constructor
    · intro id'
      have honce := hs.once id'
      have hle := requests_le_of_suffix id' hto.channel
      rw [hchannel, requests_cons] at honce
      simp only [Listener.boundTo, List.countP_append, List.countP_singleton, hto.cmClientId,
        Option.some.injEq, decide_eq_true_eq] at honce ⊢
      simp only [and_true] at honce
      by_cases hid : id = id'
      · rw [if_pos hid] at honce ⊢
        omega
      · rw [if_neg hid] at honce ⊢
        omega
    · intro r hr hret
      rw [List.mem_append, List.mem_singleton] at hr
      obtain hr | rfl := hr
      · apply hs.bound r hr hret
      · obtain ⟨hrequest, hstatus, hest⟩ := hto.bound hret
        exact ⟨id, hto.cmClientId, hrequest, hstatus, hest⟩

/-- The endpoints of the calls that succeeded are bound, each to a connection of its own. -/
theorem Listener.Inv.bound_records {s : Listener} (hs : s.Inv) {r : ConnectRecord}
    (hr : r ∈ s.records) (hret : r.ret = 0) :
  s.Bound r
  := by
  obtain ⟨id, hid, hrequest, hstatus, hest⟩ := hs.bound r hr hret
  have hpos : 0 < s.boundTo id := List.countP_pos_iff.mpr ⟨r, hr, by simpa using hid⟩
  have honce := hs.once id
  exact ⟨id, hid, hrequest, by omega, hstatus, hest⟩

/-- In every run whose calls each meet a connection request and the establishment of the same
connection, the endpoint of every call that succeeds is bound to the connection that was
requested and established, and to no other. -/
theorem set_up_bound {events : List CmEvent} {envs : List ConnectEnv} {s : Listener}
    (hlife : LifeCycle events)
    (hpaired : Along Listener.connect Paired (Listener.start events) envs)
    (hrun : run Listener.connect (Listener.start events) envs = some s) :
  ∀ r ∈ s.records, r.ret = 0 → s.Bound r
  := by
  have hinv : s.Inv := by
    apply run_invariant (I := Listener.Inv) _ (Listener.inv_start hlife) hpaired hrun
    intro s env s' hs hpaired hstep
    apply hs.connect hpaired hstep
  intro r hr hret
  apply hinv.bound_records hr hret

/-- The calls of a set-up all succeed, but possibly `setup_client_resources`. -/
def ConnectEnv.ofSetup (setup : Option Errno) : ConnectEnv :=
  ⟨none, none, setup, true, none, none, none, 0, none, 1, none⟩

/-- The order of events need only be looked at for the connections that have one. -/
theorem LifeCycle.of_mem {events : List CmEvent}
    (h : ∀ ev ∈ events, (events.filter fun e => e.id = ev.id).map CmEvent.event <+:
      [.connectRequest, .established, .disconnected]) :
  LifeCycle events
  := by
  intro id
  use .established
  constructor
  · exact Or.inl rfl
  · by_cases hid : ∃ ev ∈ events, ev.id = id
    · obtain ⟨ev, hev, rfl⟩ := hid
      apply h ev hev
    · have hnil : events.filter (fun e => e.id = id) = [] := by
        rw [List.filter_eq_nil_iff]
        intro ev hev
        simpa using fun h => hid ⟨ev, hev, h⟩
      rw [hnil]
      apply List.nil_prefix

theorem set_up_bound_single :
  LifeCycle [⟨1, .connectRequest, 0⟩, ⟨1, .established, 0⟩] ∧
    ∃ s, run Listener.connect (.start [⟨1, .connectRequest, 0⟩, ⟨1, .established, 0⟩])
        [.ofSetup none] = some s ∧
      ∀ r ∈ s.records, r.ret = 0 → s.Bound r
  := by
  have hlife : LifeCycle [⟨1, .connectRequest, 0⟩, ⟨1, .established, 0⟩] :=
    LifeCycle.of_mem (by decide)
  have hpaired : Along Listener.connect Paired
      (.start [⟨1, .connectRequest, 0⟩, ⟨1, .established, 0⟩]) [.ofSetup none] := by
    constructor
    · exact ⟨rfl, 1, _, rfl, fun _ => ⟨rfl, [], rfl⟩⟩
    · exact fun _ _ => trivial
  exact ⟨hlife, _, rfl, set_up_bound hlife hpaired rfl⟩

/-- Two clients connect. The first set-up fails, and the second is bound to the second
connection by the establishment of the first. Or the first set-up takes the request of the
second connection for the establishment of the first. -/
theorem set_up_unbound :
  (LifeCycle [⟨1, .connectRequest, 0⟩, ⟨2, .connectRequest, 0⟩, ⟨1, .established, 0⟩] ∧
    ∃ s, run Listener.connect
        (.start [⟨1, .connectRequest, 0⟩, ⟨2, .connectRequest, 0⟩, ⟨1, .established, 0⟩])
        [.ofSetup (some ⟨enomem, by decide⟩), .ofSetup none] = some s ∧
      ∃ r ∈ s.records, r.ret = 0 ∧ ¬ s.Bound r) ∧
  LifeCycle [⟨1, .connectRequest, 0⟩, ⟨2, .connectRequest, 0⟩] ∧
    ∃ s, run Listener.connect (.start [⟨1, .connectRequest, 0⟩, ⟨2, .connectRequest, 0⟩])
        [.ofSetup none] = some s ∧
      ∃ r ∈ s.records, r.ret = 0 ∧ ¬ s.Bound r
  := by
  refine ⟨⟨LifeCycle.of_mem (by decide), _, rfl, ⟨⟨some 2, some .established, true⟩, 0,
      [⟨2, .connectRequest, 0⟩, ⟨1, .established, 0⟩]⟩, ?_, rfl, ?_⟩,
    LifeCycle.of_mem (by decide), _, rfl, ⟨⟨some 1, some .established, true⟩, 0,
      [⟨1, .connectRequest, 0⟩, ⟨2, .connectRequest, 0⟩]⟩, ?_, rfl, ?_⟩
  · decide
  · simp [Listener.Bound]
  · decide
  · simp [Listener.Bound]

end SocketToRdma
