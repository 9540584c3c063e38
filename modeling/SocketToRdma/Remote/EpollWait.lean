import SocketToRdma.Host.Routing
import SocketToRdma.Lib.Run
import SocketToRdma.Remote.Call

/-!
# A remote `epoll_wait`

The number of events of a forwarded `epoll_wait` comes back twice: as the value of the reply, which
the hook returns, and as the first word of its data, which tells the decoder how many events to
copy into the array of the application. Both the encoder and the decoder stop at 1024 bytes, that
is behind the event `84`. The hook decodes whatever the result is: when the call failed on the
server, or the reply did not come, the first word is what an earlier reply left there.
-/

namespace SocketToRdma

open Run

/-! ### The call -/

/-- The connection with the arguments of `epoll_wait` encoded into its request, and no event. -/
def RInfo.encodeEpollWait (h : RInfo) (epfd maxevents timeout : BitVec 32) : RInfo :=
  { h with mem := serializeEpollWaitDt h.mem reqData ⟨0, epfd, maxevents, timeout⟩ zeros }

/-- The array of the application after `req_epoll_wait`, when `set_req_sock` ended with `s`. -/
def epollWaitReturned (s : SetReqResult) (events : ByteMem) : ByteMem :=
  (deserializeEpollWaitDtInto s.rInfo.mem rtnData events).2

/-- The first word of the data of a reply. -/
def eventCount (m : ByteMem) : BitVec 32 :=
  m.loadBits 32 rtnData

theorem epollWaitReturned_eq (s : SetReqResult) (events : ByteMem) :
  epollWaitReturned s events =
    events.store 0 (s.rInfo.mem.load (rtnData + 16)
      (12 * min (eventCount s.rInfo.mem).toInt.toNat 84))
  := by
  simp only [epollWaitReturned, deserializeEpollWaitDtInto, deserializeEvents_eq]
  rfl

theorem serves_epollWait (env : ServerEnv) {c : ClientRInfo} (h : c.request = some .epollWait) :
  Serves env c (sockEpollWait env.toHandlerEnv c.mem)
  := serves_handler h (by decide) (fills_sockEpollWait _ _) (Or.inl rfl)

/-- The data of the reply to a successful `epoll_wait`. -/
theorem loads_sockEpollWait (env : HandlerEnv) (m : ByteMem) (h : env.outcome.int ≠ -1) :
  eventCount (sockEpollWait env m).mem = env.outcome.int ∧
    (sockEpollWait env m).mem.load (rtnData + 16) (12 * min env.outcome.int.toInt.toNat 84) =
      env.outcome.buf.load 0 (12 * min env.outcome.int.toInt.toNat 84)
  := by
  simp only [sockEpollWait]
  rw [if_neg h]
  simp only [serializeEpollWaitDt, serializeEvents_eq, Nat.mul_zero, Nat.add_zero, Nat.sub_zero]
  constructor
  · rw [eventCount, ByteMem.loadBits_store_of_disjoint _ _ _ (Or.inl (by omega)),
      ByteMem.loadBits_storeBits_of_disjoint _ _ _ (Or.inl (by omega)),
      ByteMem.loadBits_storeBits_of_disjoint _ _ _ (Or.inl (by omega)),
      ByteMem.loadBits_storeBits_of_disjoint _ _ _ (Or.inl (by omega)),
      ByteMem.loadBits_storeBits _ _ _ (by decide)]
  · apply ByteMem.load_store

/-- A failed `epoll_wait` leaves the data of the reply. -/
theorem eventCount_sockEpollWait (env : HandlerEnv) (m : ByteMem) (h : env.outcome.int = -1) :
  eventCount (sockEpollWait env m).mem = eventCount m
  := by
  simp only [sockEpollWait]
  rw [if_pos h]
  apply (fillRtn_agreeOn _ _ _ _ (le_refl _)).loadBits

/-! ### The events that arrive -/

/-- A forwarded `epoll_wait` delivers `n` events: the hook returns `n`, and the array of the
application holds the events and is otherwise unchanged. -/
def EventsDelivered (fdHt : FDHashTable) (hook : HookEnv) (env : ServerEnv) (c : ClientRInfo)
    (h : RInfo) (epfd maxevents timeout : BitVec 32) (events : ByteMem) (n : ℕ) : Prop :=
  ∃ s r, callServerWith env c (h.encodeEpollWait epfd maxevents timeout)
      ⟨epfd, .epollWait, 0, 0⟩ = some s ∧
    HookCall.run fdHt { hook with reply := s.ret } (.epollWait epfd) = some r ∧
    r.ret = n ∧ epollWaitReturned s events = events.store 0 (env.outcome.buf.load 0 (12 * n))

/-- The hook returns what `set_req_sock` returned. -/
theorem run_epollWait_reply {fdHt : FDHashTable} {hook : HookEnv} {r : HookResult} {f : Forward}
    {epfd : BitVec 32} (hrun : HookCall.run fdHt hook (.epollWait epfd) = some r)
    (hf : r.forward = some f) (ret : BitVec 32) :
  HookCall.run fdHt { hook with reply := ret } (.epollWait epfd) =
    some (callServer fdHt { hook with reply := ret } epfd .epollWait 0 0)
  := by
  simp only [HookCall.run, reqEpollWait, route] at hrun ⊢
  split_ifs at hrun ⊢ with htid hinfo
  · obtain rfl := Option.some.inj hrun
    cases hf
  · rfl

/-- Objects of two lengths copied to the same place leave the same memory exactly when the memory
holds the rest of the longer one already. -/
theorem store_load_eq_iff {m m' : ByteMem} {k n : ℕ} (h : k ≤ n) :
  m.store 0 (m'.load 0 k) = m.store 0 (m'.load 0 n) ↔ ∀ j, k ≤ j → j < n → m j = m' j
  := by
  constructor
  · intro heq j hk hn
    have hbyte := congrFun heq j
    simp only [ByteMem.store, ByteMem.load, Nat.sub_zero, Nat.zero_add] at hbyte
    rwa [dif_neg (by omega), dif_pos (by omega)] at hbyte
  · intro hsame
    funext j
    simp only [ByteMem.store, ByteMem.load, Nat.sub_zero, Nat.zero_add]
    by_cases hk : j < k
    · rw [dif_pos (by omega), dif_pos (by omega)]
    · by_cases hn : j < n
      · rw [dif_neg (by omega), dif_pos (by omega), hsame j (by omega) hn]
      · rw [dif_neg (by omega), dif_neg (by omega)]

/-- The array after the `epoll_wait` of the server found `n` events: it holds the first 84. -/
theorem epollWaitReturned_of_answered {env : HandlerEnv} {m : ByteMem} {s : SetReqResult} {n : ℕ}
    (h : Answered (sockEpollWait env m) s) (hn : env.outcome.int.toInt = n) (events : ByteMem) :
  s.ret = env.outcome.int ∧
    epollWaitReturned s events = events.store 0 (env.outcome.buf.load 0 (12 * min n 84))
  := by
  have hne : env.outcome.int ≠ -1 := by
    intro hneg
    rw [hneg] at hn
    cases hn
  obtain ⟨hcount, hbytes⟩ := loads_sockEpollWait env m hne
  have hword : eventCount s.rInfo.mem = env.outcome.int := by
    rw [← hcount]
    apply (h.mem.mono (by decide) (by decide)).loadBits
  use h.ret _ (fills_sockEpollWait env m).value (by omega)
  rw [hn, Int.toNat_natCast] at hbytes
  have hcopied : s.rInfo.mem.load (rtnData + 16) (12 * min n 84) =
      (sockEpollWait env m).mem.load (rtnData + 16) (12 * min n 84) := by
    apply ByteMem.AgreeOn.load
    apply h.mem.mono (by decide)
    unfold rtnData rtnErrno rtnSize
    omega
  rw [epollWaitReturned_eq, hword, hn, Int.toNat_natCast, hcopied, hbytes]

/-- An `epoll_wait` that finds `n` events and is answered. -/
theorem callServerWith_epollWait (env : ServerEnv) (c : ClientRInfo) {h : RInfo}
    (epfd maxevents timeout : BitVec 32) {n : ℕ} (hmr : h.rtnMr)
    (hn : env.outcome.int.toInt = n) :
  ∃ s, callServerWith env c (h.encodeEpollWait epfd maxevents timeout)
      ⟨epfd, .epollWait, 0, 0⟩ = some s ∧ s.ret = env.outcome.int ∧
    ∀ events, epollWaitReturned s events =
      events.store 0 (env.outcome.buf.load 0 (12 * min n 84))
  := by
  obtain ⟨s, hs, -, hanswered⟩ := callServerWith_answered
    (h := h.encodeEpollWait epfd maxevents timeout) hmr (by simp) (by simp)
    (serves_epollWait env (receive_request c (h.encodeEpollWait epfd maxevents timeout)
      ⟨epfd, .epollWait, 0, 0⟩))
  use s, hs
  constructor
  · apply (epollWaitReturned_of_answered hanswered hn zeros).1
  · intro events
    apply (epollWaitReturned_of_answered hanswered hn events).2

/-- Up to 84 events are delivered; of a larger number exactly when the array held the others
already. -/
theorem events_delivered_iff {fdHt : FDHashTable} {hook : HookEnv} {r : HookResult} {f : Forward}
    {epfd : BitVec 32} (env : ServerEnv) (c : ClientRInfo) {h : RInfo}
    (maxevents timeout : BitVec 32) (events : ByteMem) {n : ℕ} (hn : n ≤ 100)
    (hrun : HookCall.run fdHt hook (.epollWait epfd) = some r) (hf : r.forward = some f)
    (hmr : h.rtnMr) (hout : env.outcome.int = BitVec.ofNat 32 n) :
  EventsDelivered fdHt hook env c h epfd maxevents timeout events n ↔
    ∀ j, 12 * 84 ≤ j → j < 12 * n → events j = env.outcome.buf j
  := by
  have hint : env.outcome.int.toInt = n := by
    rw [hout, BitVec.toInt_eq_toNat_of_lt]
    · rw [BitVec.toNat_ofNat, Nat.mod_eq_of_lt (by omega)]
    · rw [BitVec.toNat_ofNat]
      omega
  obtain ⟨s, hs, hret, hreturned⟩ :=
    callServerWith_epollWait env c epfd maxevents timeout hmr hint
  have hiff : epollWaitReturned s events = events.store 0 (env.outcome.buf.load 0 (12 * n)) ↔
      ∀ j, 12 * 84 ≤ j → j < 12 * n → events j = env.outcome.buf j := by
    rw [hreturned, store_load_eq_iff (by omega)]
    constructor
    · intro h j hj hlt
      apply h j (by omega) hlt
    · intro h j hj hlt
      apply h j (by omega) hlt
  rw [← hiff]
  constructor
  · rintro ⟨s', r', hs', -, -, heq⟩
    obtain rfl := Option.some.inj (hs.symm.trans hs')
    apply heq
  · intro heq
    refine ⟨s, _, hs, run_epollWait_reply hrun hf s.ret, ?_, heq⟩
    simp only [callServer, hret, hint]

theorem run_epollWait_afterSocket :
  HookCall.run afterSocket replyFive (.epollWait 5#32) =
    some (callServer afterSocket replyFive 5#32 .epollWait 0 0)
  := by
  rw [HookCall.run, reqEpollWait, HookCall.route_of_ne fd_afterSocket rfl]

theorem events_delivered_iff_two :
  EventsDelivered afterSocket replyFive (.ofOutcome ⟨2, 0, fun _ => 1, 0⟩) (.received .epollWait 0)
      idleRInfo 5#32 10#32 0 zeros 2 ↔
    ∀ j, 12 * 84 ≤ j → j < 12 * 2 → zeros j = 1
  := events_delivered_iff (.ofOutcome ⟨2, 0, fun _ => 1, 0⟩) (.received .epollWait 0) 10#32 0 zeros
    (by decide) run_epollWait_afterSocket rfl rfl rfl

/-- Of 90 events the last six do not arrive. -/
theorem ninety_events_not_delivered :
  ¬ EventsDelivered afterSocket replyFive (.ofOutcome ⟨90, 0, fun _ => 1, 0⟩)
    (.received .epollWait 0) idleRInfo 5#32 100#32 0 zeros 90
  := by
  rintro ⟨s, r, hs, -, -, heq⟩
  obtain ⟨s', hs', -, hreturned⟩ := callServerWith_epollWait
    (.ofOutcome ⟨90, 0, fun _ => 1, 0⟩) (.received .epollWait 0) (h := idleRInfo) 5#32 100#32 0
    (n := 90) rfl rfl
  obtain rfl := Option.some.inj (hs.symm.trans hs')
  rw [hreturned, store_load_eq_iff (by decide)] at heq
  cases heq 1008 (by decide) (by decide)

/-! ### A connection and its calls -/

/-- What becomes of the exchange of a request: it is answered; the request is not posted; no reply
arrives, whether the server served the request or not; or the reply arrives, but waiting for its
completion fails. -/
inductive Network where
  | answered
  | notPosted
  | unanswered (served : Bool)
  | failed

namespace Network

/-- The server serves the request. -/
def Served : Network → Prop
  | answered => True
  | notPosted => False
  | unanswered served => served
  | failed => True

/-- The reply arrives. -/
def Delivered : Network → Prop
  | answered => True
  | notPosted => False
  | unanswered _ => False
  | failed => True

instance : DecidablePred Served := fun net => by
  cases net <;> unfold Served <;> infer_instance

/-- The results of the verbs on the host, and what is in its buffer for the reply. -/
def exchange (net : Network) (env : ServerEnv) (c : ClientRInfo) (h : RInfo) (msg : Request) :
    Exchange :=
  match net with
  | answered => answer env c msg
  | notPosted => ⟨-1, 0, h.mem.load rtnErrno rtnSize⟩
  | unanswered _ => ⟨0, -1, h.mem.load rtnErrno rtnSize⟩
  | failed => { answer env c msg with processPollCqImm := -1 }

/-- A reply that arrives is one to a request that was posted and served. -/
theorem Delivered.served {net : Network} (hnet : net.Delivered) (env : ServerEnv) (c : ClientRInfo)
    (h : RInfo) (msg : Request) :
  net.Served ∧ 0 ≤ (net.exchange env c h msg).postWriteReq.toInt
  := by
  cases net with
  | notPosted => cases hnet
  | unanswered => cases hnet
  | answered => exact ⟨trivial, (by decide : (0 : ℤ) ≤ (0 : BitVec 32).toInt)⟩
  | failed => exact ⟨trivial, (by decide : (0 : ℤ) ≤ (0 : BitVec 32).toInt)⟩

end Network

/-- The request that `set_req_sock` posts. -/
def requestOf (h : RInfo) (a : ReqArgs) : Option Request :=
  let m := fillRequest h.mem a
  (if a.reqRdma = RdmaReq.write.code then copyMessage m a else some m).map
    fun m => ⟨m, htonl a.sockfd⟩

/-- The two ends of a connection. -/
structure Connection where
  host : RInfo
  server : ClientRInfo

/-- `set_req_sock` over a connection: its result, and the end of the server after it. -/
def callOver (env : ServerEnv) (net : Network) (c : ClientRInfo) (h : RInfo) (a : ReqArgs) :
    Option (SetReqResult × ClientRInfo) :=
  (requestOf h a).bind fun msg =>
    (setReqSock (net.exchange env c h msg) h a).map fun r =>
      (r, if r.posted.isSome ∧ net.Served then (rdmaReqEvent env (.start (c.receive msg))).cInfo
        else c)

/-- A forwarded `epoll_wait`, or any other forwarded call: its request, the data area as the hook
left it, and the data of a `write`. -/
inductive ConnectionAct where
  | epollWait (epfd maxevents timeout : BitVec 32) (env : ServerEnv) (net : Network)
  | other (f : Forward) (data : Block bufferSize) (message : ByteMem) (hasBuf : Bool)
      (env : ServerEnv) (net : Network)

namespace Connection

/-- The result of the call, and the end of the server after it. -/
def call (s : Connection) : ConnectionAct → Option (SetReqResult × ClientRInfo)
  | .epollWait epfd maxevents timeout env net =>
      callOver env net s.server (s.host.encodeEpollWait epfd maxevents timeout)
        (Forward.args ⟨epfd, .epollWait, 0, 0⟩)
  | .other f data message hasBuf env net =>
      if f.req = .epollWait then none
      else
        callOver env net s.server { s.host with mem := s.host.mem.store reqData data }
          ⟨f.sockfd, f.req.code, f.bufSz, f.port, message, hasBuf⟩

/-- The connection after a call. -/
def step (s : Connection) (a : ConnectionAct) : Option Connection :=
  (s.call a).map fun r => ⟨r.1.rInfo, r.2⟩

/-- An `epoll_wait` that fails writes nothing into the array of the application, whatever it held,
and none writes behind `maxevents` entries. -/
def Contained (s : Connection) : ConnectionAct → Prop
  | .epollWait epfd maxevents timeout env net =>
      ∀ r, s.call (.epollWait epfd maxevents timeout env net) = some r →
        (r.1.ret.toInt < 0 → ∀ events, epollWaitReturned r.1 events = events) ∧
          ∀ events j, 12 * maxevents.toInt.toNat ≤ j → epollWaitReturned r.1 events j = events j
  | .other .. => True

/-- At an `epoll_wait` whose reply does not arrive, the buffer of the host holds no count of
events; at one that fails on the server, the buffer of the server holds none; and the reply whose
completion fails announces none. -/
def NothingStale (s : Connection) : ConnectionAct → Prop
  | .epollWait _ _ _ env net =>
      (¬ (s.host.rtnMr ∧ net.Delivered) → (eventCount s.host.mem).toInt ≤ 0) ∧
        (s.host.rtnMr ∧ net.Delivered → env.outcome.int = -1 →
          (eventCount s.server.mem).toInt ≤ 0) ∧
        (s.host.rtnMr → net = .failed → env.outcome.int.toInt ≤ 0)
  | .other .. => True

end Connection

/-- The kernel fails an `epoll_wait`, or returns at most as many events as it was asked for. -/
def ConnectionAct.Ok : ConnectionAct → Prop
  | .epollWait _ maxevents _ env _ =>
      env.outcome.int = -1 ∨
        (0 ≤ env.outcome.int.toInt ∧ env.outcome.int.toInt ≤ maxevents.toInt)
  | .other .. => True

/-! ### What is written -/

/-- Nothing is written, whatever the array held, exactly when the reply announces no event. -/
theorem epollWaitReturned_eq_self_iff (s : SetReqResult) :
  (∀ events, epollWaitReturned s events = events) ↔ (eventCount s.rInfo.mem).toInt ≤ 0
  := by
  simp only [epollWaitReturned_eq]
  constructor
  · intro h
    by_contra hpos
    have hbyte := congrFun (h fun j => if s.rInfo.mem (rtnData + 16) = 0 then 1 else 0) 0
    simp only [ByteMem.store, ByteMem.load, Nat.sub_zero, Nat.add_zero] at hbyte
    rw [dif_pos (by omega)] at hbyte
    split at hbyte
    case isTrue hzero =>
      rw [hzero] at hbyte
      cases hbyte
    case isFalse hne => cases hne hbyte
  · intro h events
    rw [show min (eventCount s.rInfo.mem).toInt.toNat 84 = 0 by omega, Nat.mul_zero,
      ByteMem.store_load_zero]

/-- Nothing is written behind the events that the reply announces. -/
theorem epollWaitReturned_of_le (s : SetReqResult) (events : ByteMem) {j : ℕ}
    (h : 12 * (eventCount s.rInfo.mem).toInt.toNat ≤ j) :
  epollWaitReturned s events j = events j
  := by
  rw [epollWaitReturned_eq]
  apply dif_neg (by omega)

/-- Encoding the arguments and filling in the header leaves the count of the last reply. -/
theorem eventCount_fillRequest (h : RInfo) (epfd maxevents timeout : BitVec 32) (a : ReqArgs) :
  eventCount (fillRequest (h.encodeEpollWait epfd maxevents timeout).mem a) = eventCount h.mem
  := by
  apply ByteMem.AgreeOn.loadBits
  apply (fillRequest_agreeOn _ _ (by decide)).trans
  apply serializeEpollWaitDt_agreeOn
  right
  decide

/-- The request of an `epoll_wait` is posted as it was filled in. -/
theorem setReqSock_epollWait (x : Exchange) (h : RInfo) (epfd : BitVec 32) :
  let a := Forward.args ⟨epfd, .epollWait, 0, 0⟩
  requestOf h a = some ⟨fillRequest h.mem a, htonl epfd⟩ ∧
    setReqSock x h a = some (exchangeRequest x ⟨fillRequest h.mem a, epfd, h.rtnMr⟩ a)
  := by
  have hwrite : (Forward.args ⟨epfd, .epollWait, 0, 0⟩).reqRdma ≠ RdmaReq.write.code := by
    show RdmaReq.epollWait.code ≠ RdmaReq.write.code
    decide
  have hrange : ¬ ((Forward.args ⟨epfd, .epollWait, 0, 0⟩).reqRdma.toInt <
      RdmaReq.socket.code.toInt ∨
      RdmaReq.delRdmaConn.code.toInt < (Forward.args ⟨epfd, .epollWait, 0, 0⟩).reqRdma.toInt) := by
    show ¬ (RdmaReq.epollWait.code.toInt < RdmaReq.socket.code.toInt ∨
      RdmaReq.delRdmaConn.code.toInt < RdmaReq.epollWait.code.toInt)
    decide
  constructor
  · rw [requestOf, if_neg hwrite]
    rfl
  · simp only [setReqSock]
    rw [if_neg hrange, if_neg hwrite]
    rfl

/-- The result of a forwarded `epoll_wait`, and the end of the server after it. -/
theorem call_epollWait (s : Connection) (epfd maxevents timeout : BitVec 32) (env : ServerEnv)
    (net : Network) :
  let h := s.host.encodeEpollWait epfd maxevents timeout
  let f : Forward := ⟨epfd, .epollWait, 0, 0⟩
  ∃ r, s.call (.epollWait epfd maxevents timeout env net) = some r ∧
    r.1 = exchangeRequest (net.exchange env s.server h (f.request h))
      ⟨fillRequest h.mem f.args, epfd, s.host.rtnMr⟩ f.args ∧
    r.2 = if r.1.posted.isSome ∧ net.Served then
        (rdmaReqEvent env (.start (s.server.receive (f.request h)))).cInfo
      else s.server
  := by
  intro h f
  obtain ⟨hrequest, hset⟩ := setReqSock_epollWait
    (net.exchange env s.server h (f.request h)) h epfd
  rw [Connection.call, callOver, hrequest, Option.bind_some]
  refine ⟨_, congrArg _ hset, rfl, rfl⟩

/-- The result when the request is not posted. -/
theorem exchangeRequest_of_not_posted {x : Exchange} {h : RInfo} (a : ReqArgs)
    (hpost : ¬ h.rtnMr ∨ x.postWriteReq.toInt < 0) :
  exchangeRequest x h a = ⟨h, none, -1, none, 0⟩
  := by
  simp only [exchangeRequest]
  by_cases hmr : h.rtnMr
  · rw [if_neg (not_not.mpr hmr), if_pos (hpost.resolve_left (not_not.mpr hmr))]
  · rw [if_pos hmr]

/-- The result when waiting for the completion fails. -/
theorem exchangeRequest_of_failed {x : Exchange} {h : RInfo} (a : ReqArgs) (hmr : h.rtnMr)
    (hpost : 0 ≤ x.postWriteReq.toInt) (hpoll : x.processPollCqImm.toInt < 0) :
  exchangeRequest x h a =
    ⟨{ h with mem := h.mem.store rtnErrno x.rtn }, some ⟨h.mem, htonl h.sockfd⟩, -1, none, 0⟩
  := by
  simp only [exchangeRequest]
  rw [if_neg (not_not.mpr hmr), if_neg (not_lt.mpr hpost), if_pos hpoll]

/-- The count of a reply, wherever it is received. -/
theorem eventCount_store (m m' : ByteMem) (x : Block rtnSize) :
  eventCount (m.store rtnErrno x) = eventCount (m'.store rtnErrno x)
  := by
  apply ByteMem.AgreeOn.loadBits
  apply (ByteMem.agreeOn_store_self m m' rtnErrno x).mono
  · unfold rtnErrno rtnData
    omega
  · unfold rtnErrno rtnData rtnSize
    omega

/-- The count of a reply that is put back as it was. -/
theorem eventCount_store_load (m m' : ByteMem) :
  eventCount (m.store rtnErrno (m'.load rtnErrno rtnSize)) = eventCount m'
  := by
  apply ByteMem.AgreeOn.loadBits
  apply (ByteMem.agreeOn_store_load m m' rtnErrno rtnSize).mono
  · unfold rtnErrno rtnData
    omega
  · unfold rtnErrno rtnData rtnSize
    omega

/-- When no reply arrives, the call fails, and the count is what an earlier reply left on the
host. -/
theorem call_of_not_delivered (s : Connection) (epfd maxevents timeout : BitVec 32)
    (env : ServerEnv) {net : Network} (h : ¬ (s.host.rtnMr ∧ net.Delivered)) :
  ∃ r, s.call (.epollWait epfd maxevents timeout env net) = some r ∧ r.1.ret = -1 ∧
    eventCount r.1.rInfo.mem = eventCount s.host.mem
  := by
  obtain ⟨r, hcall, hr, -⟩ := call_epollWait s epfd maxevents timeout env net
  use r, hcall
  have hkeep := eventCount_fillRequest s.host epfd maxevents timeout
    (Forward.args ⟨epfd, .epollWait, 0, 0⟩)
  by_cases hmr : s.host.rtnMr
  · cases net with
    | answered => cases h ⟨hmr, trivial⟩
    | failed => cases h ⟨hmr, trivial⟩
    | notPosted =>
        rw [hr.trans (exchangeRequest_of_not_posted _
          (Or.inr (by decide : (-1 : BitVec 32).toInt < 0)))]
        exact ⟨rfl, hkeep⟩
    | unanswered served =>
        rw [hr.trans (exchangeRequest_of_failed _ hmr
          (by decide : (0 : ℤ) ≤ (0 : BitVec 32).toInt) (by decide : (-1 : BitVec 32).toInt < 0))]
        refine ⟨rfl, ?_⟩
        -- the buffer of the host is as it was when the request was filled in
        have hencode : eventCount (s.host.encodeEpollWait epfd maxevents timeout).mem =
            eventCount s.host.mem := by
          apply ByteMem.AgreeOn.loadBits
          apply serializeEpollWaitDt_agreeOn _ _ _ (Or.inr (by decide))
        simp only [Network.exchange]
        rw [eventCount_store_load, hencode]
  · rw [hr.trans (exchangeRequest_of_not_posted _ (Or.inl hmr))]
    exact ⟨rfl, hkeep⟩

/-- The server keeps the count of the reply to an `epoll_wait`. -/
theorem eventCount_rdmaReqEvent (env : ServerEnv) {c : ClientRInfo}
    (h : c.request = some .epollWait) :
  eventCount (rdmaReqEvent env (.start c)).cInfo.mem =
    eventCount (sockEpollWait env.toHandlerEnv c.mem).mem
  := by
  let x := (Exec.start c).handled (sockEpollWait env.toHandlerEnv c.mem)
  have hserve : rdmaReqEvent env (.start c) = reply env x := by
    rw [show rdmaReqEvent env (.start c) = serve env (.start c) c.request from rfl, h]
    rfl
  have hmem : x.cInfo.mem = (sockEpollWait env.toHandlerEnv c.mem).mem := rfl
  have hchunked : ¬ Chunked x.cInfo.mem := by
    rintro ⟨hread, -⟩
    have hcode : rdmaReq x.cInfo.mem = rdmaReq c.mem :=
      ((fills_sockEpollWait env.toHandlerEnv c.mem).request.mono (le_refl 0) (by decide)).loadBits
    have hread' := request_eq_read.mpr (hcode.symm.trans hread)
    rw [h] at hread'
    cases hread'
  obtain ⟨ps, rest, hreply⟩ := reply_replied env x
  rw [hserve, ← hmem]
  by_cases hpost : ∀ i < replyCount x.cInfo.mem, env.post (x.posts + i) = 0
  · rw [(hreply.done hpost).2.1, settled, dataCleared, if_neg hchunked]
    apply ByteMem.AgreeOn.loadBits
    apply setErrno_agreeOn _ _ (Or.inr (by decide))
  · simp only [not_forall] at hpost
    obtain ⟨i, hi, hne⟩ := hpost
    rw [(hreply.failed ⟨i, hi, hne⟩).1]

/-- The count that the handler leaves: the number of events, or an earlier one if it fails. -/
theorem eventCount_sockEpollWait_receive (env : HandlerEnv) (c : ClientRInfo) (msg : Request) :
  eventCount (sockEpollWait env (c.receive msg).mem).mem =
    if env.outcome.int = -1 then eventCount c.mem else env.outcome.int
  := by
  split
  case isTrue hfail =>
    rw [eventCount_sockEpollWait _ _ hfail]
    apply ByteMem.AgreeOn.loadBits
    apply ByteMem.agreeOn_store _ _ _ (Or.inr (by decide))
  case isFalse hfound => apply (loads_sockEpollWait _ _ hfound).1

/-- When the reply arrives, its count is what the handler of the server left, on both ends; the call
fails when the completion fails, or else when the `epoll_wait` failed. -/
theorem call_of_delivered (s : Connection) (epfd maxevents timeout : BitVec 32)
    (env : ServerEnv) (net : Network) (hmr : s.host.rtnMr) (hnet : net.Delivered) :
  ∃ r, s.call (.epollWait epfd maxevents timeout env net) = some r ∧
    eventCount r.2.mem =
      (if env.outcome.int = -1 then eventCount s.server.mem else env.outcome.int) ∧
    (r.1.ret.toInt < 0 ↔ net = .failed ∨ env.outcome.int.toInt < 0) ∧
    eventCount r.1.rInfo.mem =
      if env.outcome.int = -1 then eventCount s.server.mem else env.outcome.int
  := by
  let h := s.host.encodeEpollWait epfd maxevents timeout
  let f : Forward := ⟨epfd, .epollWait, 0, 0⟩
  have hserves := serves_epollWait env (receive_request s.server h f)
  have hcount := eventCount_sockEpollWait_receive env.toHandlerEnv s.server (f.request h)
  obtain ⟨r, hcall, hr, hserver⟩ := call_epollWait s epfd maxevents timeout env net
  use r, hcall
  obtain ⟨hserved, hpost⟩ := hnet.served env s.server h (f.request h)
  have hposted : r.1.posted.isSome := by
    rw [hr, exchangeRequest_posted (h := ⟨fillRequest h.mem f.args, epfd, s.host.rtnMr⟩) hmr hpost]
    rfl
  have hleft : eventCount r.2.mem =
      eventCount (sockEpollWait env.toHandlerEnv (s.server.receive (f.request h)).mem).mem := by
    rw [hserver, if_pos ⟨hposted, hserved⟩]
    apply eventCount_rdmaReqEvent env (receive_request s.server h f)
  rw [← hcount]
  use hleft
  cases net with
  | notPosted => cases hnet
  | unanswered => cases hnet
  | failed =>
      rw [hr.trans (exchangeRequest_of_failed _ hmr
        (by decide : (0 : ℤ) ≤ (0 : BitVec 32).toInt) (by decide : (-1 : BitVec 32).toInt < 0))]
      constructor
      · exact ⟨fun _ => Or.inl rfl, fun _ => (by decide : (-1 : BitVec 32).toInt < 0)⟩
      · rw [eventCount_store _ zeros]
        have hrtn : (Network.failed.exchange env s.server h (f.request h)).rtn =
            (answer env s.server (f.request h)).rtn := by
          simp only [Network.exchange]
        have harrived := answer_reply hserves
        rw [Exchange.reply, ← hrtn] at harrived
        apply (harrived.mono _ _).loadBits
        · unfold rtnErrno rtnData
          omega
        · unfold rtnErrno rtnData rtnSize
          omega
  | answered =>
      obtain ⟨t, ht, -, hanswered⟩ := callServerWith_answered (h := h) (f := f) hmr (by simp [f])
        (by simp [f]) hserves
      have hrt : r.1 = t := by
        rw [hr]
        apply Option.some.inj
        rw [← ht, callServerWith, (setReqSock_epollWait _ _ _).2]
        rfl
      rw [hrt]
      constructor
      · constructor
        · intro hneg
          right
          by_contra hpos
          rw [hanswered.ret _ (fills_sockEpollWait _ _).value (not_lt.mp hpos)] at hneg
          apply hpos hneg
        · rintro (hfailed | hneg)
          · cases hfailed
          · apply hanswered.failed _ (fills_sockEpollWait _ _).value hneg
      · apply (hanswered.mem.mono (by decide) (by decide)).loadBits

/-! ### Every `epoll_wait` of a connection -/

/-- An `epoll_wait` that fails, or whose reply announces at most `maxevents` events, stays within
its result exactly when no event is announced if it fails. -/
theorem contained_epollWait_iff {s : Connection} {epfd maxevents timeout : BitVec 32}
    {env : ServerEnv} {net : Network} {r : SetReqResult × ClientRInfo}
    (hcall : s.call (.epollWait epfd maxevents timeout env net) = some r)
    (hmax : 0 < (eventCount r.1.rInfo.mem).toInt → r.1.ret.toInt < 0 ∨
      (eventCount r.1.rInfo.mem).toInt ≤ maxevents.toInt) :
  s.Contained (.epollWait epfd maxevents timeout env net) ↔
    (r.1.ret.toInt < 0 → (eventCount r.1.rInfo.mem).toInt ≤ 0)
  := by
  constructor
  · intro h hneg
    apply (epollWaitReturned_eq_self_iff r.1).mp ((h r hcall).1 hneg)
  · intro h r' hcall'
    obtain rfl := Option.some.inj (hcall.symm.trans hcall')
    constructor
    · intro hneg
      apply (epollWaitReturned_eq_self_iff r.1).mpr (h hneg)
    · intro events j hj
      apply epollWaitReturned_of_le
      omega

/-- When the reply arrives, what may be stale is the count that the server left in it. -/
theorem contained_iff_of_delivered {s : Connection} {epfd maxevents timeout : BitVec 32}
    {env : ServerEnv} {net : Network}
    (hok : (ConnectionAct.epollWait epfd maxevents timeout env net).Ok) (hmr : s.host.rtnMr)
    (hnet : net.Delivered) :
  s.Contained (.epollWait epfd maxevents timeout env net) ↔
    (env.outcome.int = -1 → (eventCount s.server.mem).toInt ≤ 0) ∧
      (net = .failed → env.outcome.int.toInt ≤ 0)
  := by
  obtain ⟨r, hcall, -, hneg, hcount⟩ :=
    call_of_delivered s epfd maxevents timeout env net hmr hnet
  obtain hfail | ⟨hpos, hle⟩ := hok
  · have hlt : env.outcome.int.toInt < 0 := by
      rw [hfail]
      decide
    rw [if_pos hfail] at hcount
    rw [contained_epollWait_iff hcall fun _ => Or.inl (hneg.mpr (Or.inr hlt)), hneg, hcount]
    constructor
    · intro h
      exact ⟨fun _ => h (Or.inr hlt), fun _ => hlt.le⟩
    · rintro ⟨hserver, -⟩ _
      apply hserver hfail
  · have hfound : env.outcome.int ≠ -1 := by
      intro hfail
      rw [hfail] at hpos
      cases hpos
    rw [if_neg hfound] at hcount
    rw [contained_epollWait_iff hcall fun _ => Or.inr (hcount ▸ hle), hneg, hcount]
    constructor
    · intro h
      exact ⟨fun hfail => absurd hfail hfound, fun hfailed => h (Or.inl hfailed)⟩
    · rintro ⟨-, hfailed⟩ (hnetf | hlt)
      · apply hfailed hnetf
      · apply hlt.le

/-- When no reply arrives, what may be stale is the count in the buffer of the host. -/
theorem contained_iff_of_not_delivered {s : Connection} (epfd maxevents timeout : BitVec 32)
    (env : ServerEnv) {net : Network} (hnet : ¬ (s.host.rtnMr ∧ net.Delivered)) :
  s.Contained (.epollWait epfd maxevents timeout env net) ↔ (eventCount s.host.mem).toInt ≤ 0
  := by
  obtain ⟨r, hcall, hret, hcount⟩ := call_of_not_delivered s epfd maxevents timeout env hnet
  have hneg : r.1.ret.toInt < 0 := by
    rw [hret]
    decide
  rw [contained_epollWait_iff hcall fun _ => Or.inl hneg, hcount]
  exact ⟨fun h => h hneg, fun h _ => h⟩

/-- An `epoll_wait` stays within its result exactly when nothing stale is decoded. -/
theorem contained_iff_nothingStale (s : Connection) {a : ConnectionAct} (hok : a.Ok) :
  s.Contained a ↔ s.NothingStale a
  := by
  cases a with
  | other => rfl
  | epollWait epfd maxevents timeout env net =>
      by_cases hdelivered : s.host.rtnMr ∧ net.Delivered
      · obtain ⟨hmr, hnet⟩ := hdelivered
        rw [contained_iff_of_delivered hok hmr hnet]
        constructor
        · rintro ⟨hserver, hfailed⟩
          exact ⟨fun hnot => absurd ⟨hmr, hnet⟩ hnot, fun _ => hserver, fun _ => hfailed⟩
        · rintro ⟨-, hserver, hfailed⟩
          exact ⟨hserver ⟨hmr, hnet⟩, hfailed hmr⟩
      · rw [contained_iff_of_not_delivered epfd maxevents timeout env hdelivered]
        constructor
        · intro hhost
          refine ⟨fun _ => hhost, fun hyes => absurd hyes hdelivered, fun hmr hfailed => ?_⟩
          apply absurd _ hdelivered
          rw [hfailed]
          exact ⟨hmr, trivial⟩
        · rintro ⟨hhost, -, -⟩
          apply hhost hdelivered

/-- Every `epoll_wait` of a connection stays within its result exactly when none of them decodes
anything stale. -/
theorem epoll_wait_contained_iff (s : Connection) (acts : List ConnectionAct)
    (hok : ∀ a ∈ acts, a.Ok) :
  Along Connection.step Connection.Contained s acts ↔
    Along Connection.step Connection.NothingStale s acts
  := by
  constructor
  · intro h
    apply ((along_of_mem hok).and h).mono
    intro s a ⟨hok, hcontained⟩
    apply (contained_iff_nothingStale s hok).mp hcontained
  · intro h
    apply ((along_of_mem hok).and h).mono
    intro s a ⟨hok, hstale⟩
    apply (contained_iff_nothingStale s hok).mpr hstale

/-- A connection over which nothing was sent. -/
def idleConnection : Connection :=
  ⟨idleRInfo, .received .epollWait 0⟩

/-- An `epoll_wait` for ten events that returns one. -/
def oneEvent : ConnectionAct :=
  .epollWait 5#32 10#32 0 (.ofOutcome ⟨1, 0, fun _ => 1, 0⟩) .answered

/-- An `epoll_wait` that a signal interrupts. -/
def interrupted : ConnectionAct :=
  .epollWait 5#32 10#32 0 (.ofOutcome (.ofRet (-1) 4)) .answered

theorem epoll_wait_contained_iff_one :
  Along Connection.step Connection.Contained idleConnection [oneEvent] ↔
    Along Connection.step Connection.NothingStale idleConnection [oneEvent]
  := by
  apply epoll_wait_contained_iff
  simp only [List.mem_singleton, forall_eq]
  right
  decide

/-- An event that was delivered is delivered again by an `epoll_wait` that fails. -/
theorem interrupted_not_contained :
  (∀ a ∈ [oneEvent, interrupted], a.Ok) ∧
    ¬ Along Connection.step Connection.Contained idleConnection [oneEvent, interrupted]
  := by
  constructor
  · simp only [List.mem_cons, List.not_mem_nil, or_false, forall_eq_or_imp, forall_eq]
    constructor
    · right
      decide
    · left
      decide
  · rintro ⟨-, hrest⟩
    obtain ⟨r, hcall, hserver, -, hhost⟩ := call_of_delivered idleConnection 5#32 10#32 0
      (.ofOutcome ⟨1, 0, fun _ => 1, 0⟩) .answered rfl trivial
    have hstep : idleConnection.step oneEvent = some ⟨r.1.rInfo, r.2⟩ := by
      rw [Connection.step, oneEvent, hcall]
      rfl
    have hok : interrupted.Ok := by
      left
      decide
    obtain ⟨hlost, hfailed, -⟩ := (contained_iff_nothingStale _ hok).mp (hrest _ hstep).1
    -- both ends still hold the count of the first reply
    by_cases hmr : r.1.rInfo.rtnMr
    · have hle := hfailed ⟨hmr, trivial⟩ (by decide)
      rw [hserver, if_neg (by decide)] at hle
      revert hle
      decide
    · have hle := hlost fun hboth => hmr hboth.1
      rw [hhost, if_neg (by decide)] at hle
      revert hle
      decide

end SocketToRdma
