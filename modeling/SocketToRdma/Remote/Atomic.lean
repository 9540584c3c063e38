import SocketToRdma.Remote.Call
import SocketToRdma.Remote.Session

/-!
# Calls take effect at once

The calls of a session are compared with the calls of a system in which a call happens at once:
`set_req_sock` with the answer of the server, as it is given for a single call. What a run of a
session shows are the calls that start, the requests that are served, and the results of the
calls. When the actions of the run are timely, what it shows is a run of the other system: every
request is served once, in the order of the calls, on the state the previous one left, and a call
returns what the reply to its own request says.
-/

namespace SocketToRdma

open QueuePair Run

/-- What the caller of `set_req_sock` sees: the value returned, `errno` where it is set, and the
data copied from the reply into the buffer. -/
structure Seen where
  ret : BitVec 32
  errno : Option (BitVec 32)
  data : List UInt8
  deriving DecidableEq

/-- What is seen of a result. -/
def SetReqResult.seen (r : SetReqResult) : Seen :=
  ⟨r.ret, r.errno, (List.range r.copied).map fun j => r.rInfo.mem (rtnData + j)⟩

/-- The call that is under way. -/
inductive CallPhase where
  | idle
  | called (a : ReqArgs)
  | answered (seen : Seen)

/-- A connection on which calls happen at once: the `client_r_info` of either side, and the call
under way. -/
structure Calls where
  rInfo : RInfo
  cInfo : ClientRInfo
  phase : CallPhase

/-- The messages are written between two calls; a call starts; it happens; it returns. -/
inductive CallAct where
  | edit (m : ByteMem)
  | call (a : ReqArgs)
  | serve (env : PostingEnv)
  | ret (seen : Seen)

/-- The state after an action; a call happens as `set_req_sock` with the answer of the server. -/
def Calls.step (s : Calls) : CallAct → Option Calls
  | .edit m =>
      match s.phase with
      | .idle => some { s with rInfo := { s.rInfo with mem := m } }
      | _ => none
  | .call a =>
      match s.phase with
      | .idle => some { s with phase := .called a }
      | _ => none
  | .serve env =>
      match s.phase with
      | .called a =>
          (prepareRequest s.rInfo a).bind fun h =>
            (setReqSock (answer env s.cInfo h.posted) s.rInfo a).map fun r =>
              ⟨r.rInfo, (rdmaReqEvent env (.start (s.cInfo.receive h.posted))).cInfo,
                .answered r.seen⟩
      | _ => none
  | .ret seen =>
      match s.phase with
      | .answered seen' => if seen = seen' then some { s with phase := .idle } else none
      | _ => none

/-- What an action of a session shows. -/
def Session.shows (s : Session) : SessionAct → List CallAct
  | .edit m => [.edit m]
  | .call a => [.call a]
  | .serve env => [.serve env]
  | .host =>
      match s.host.pc, s.host.qp.poll with
      | .pollCq a posted, some (.recvRdmaWithImm _, _) =>
          [.ret (finishRequest s.host.rInfo posted a).seen]
      | _, _ => []
  | _ => []

/-! ### The messages under way -/

/-- The requests in flight, the immediate data of those that have arrived, the replies in flight
with the memory in which they were posted, the number of those that have arrived, and the posted
receives of either end. -/
structure Net (hq : Qp Request Unit) (sq : Qp ByteMem (BitVec 32)) (toServer : List Request)
    (atServer : List (BitVec 32)) (toHost : List ByteMem) (atHost hostRecvs serverRecvs : ℕ) :
    Prop where
  toServer : hq.inFlight = toServer.map .writeWithImm
  atServer : sq.imms = atServer
  toHost : sq.inFlight = toHost.map .writeWithImm
  atHost : hq.imms.length = atHost
  hostRecvs : hq.recvs = hostRecvs
  serverRecvs : sq.recvs = serverRecvs

namespace Net

variable {hq hq' : Qp Request Unit} {sq sq' : Qp ByteMem (BitVec 32)} {toServer : List Request}
  {atServer : List (BitVec 32)} {toHost : List ByteMem} {atHost hostRecvs serverRecvs : ℕ}

theorem connected (sends : ℕ) :
  Net .create ⟨1, [], [], List.replicate sends .send⟩ [] [] [] 0 0 1
  := by
  constructor
  all_goals try rfl
  apply List.filterMap_eq_nil_iff.mpr
  intro wc hwc
  rw [List.eq_of_mem_replicate hwc]
  rfl

theorem hostPostRecv (h : Net hq sq toServer atServer toHost atHost hostRecvs serverRecvs) :
  Net hq.postRecv sq toServer atServer toHost atHost (hostRecvs + 1) serverRecvs
  := ⟨h.toServer, h.atServer, h.toHost, h.atHost, congrArg (· + 1) h.hostRecvs, h.serverRecvs⟩

theorem serverPostRecv (h : Net hq sq toServer atServer toHost atHost hostRecvs serverRecvs) :
  Net hq sq.postRecv toServer atServer toHost atHost hostRecvs (serverRecvs + 1)
  := ⟨h.toServer, h.atServer, h.toHost, h.atHost, h.hostRecvs, congrArg (· + 1) h.serverRecvs⟩

theorem postRequest (h : Net hq sq toServer atServer toHost atHost hostRecvs serverRecvs)
    (req : Request) :
  Net (hq.postSend (.writeWithImm req)) sq (toServer ++ [req]) atServer toHost atHost hostRecvs
    serverRecvs
  := by
  refine ⟨?_, h.atServer, h.toHost, h.atHost, h.hostRecvs, h.serverRecvs⟩
  rw [Qp.inFlight_postSend, h.toServer, List.map_append]
  rfl

theorem postReply (h : Net hq sq toServer atServer toHost atHost hostRecvs serverRecvs)
    (m : ByteMem) :
  Net hq (sq.postSend (.writeWithImm m)) toServer atServer (toHost ++ [m]) atHost hostRecvs
    serverRecvs
  := by
  refine ⟨h.toServer, h.atServer, ?_, h.atHost, h.hostRecvs, h.serverRecvs⟩
  rw [Qp.inFlight_postSend, h.toHost, List.map_append]
  rfl

theorem hostPoll (h : Net hq sq toServer atServer toHost atHost hostRecvs serverRecvs)
    {wc : Wc Unit} (hpoll : hq.poll = some (wc, hq')) :
  ∃ n, atHost = wc.immData.toList.length + n ∧
    Net hq' sq toServer atServer toHost n hostRecvs serverRecvs
  := by
  obtain ⟨himms, hflight, hrecvs⟩ := Qp.imms_poll hpoll
  use hq'.imms.length
  constructor
  · rw [← h.atHost, himms, List.length_append]
  · exact ⟨hflight.trans h.toServer, h.atServer, h.toHost, rfl, hrecvs.trans h.hostRecvs,
      h.serverRecvs⟩

theorem serverPoll (h : Net hq sq toServer atServer toHost atHost hostRecvs serverRecvs)
    {wc : Wc (BitVec 32)} (hpoll : sq.poll = some (wc, sq')) :
  ∃ imms, atServer = wc.immData.toList ++ imms ∧
    Net hq sq' toServer imms toHost atHost hostRecvs serverRecvs
  := by
  obtain ⟨himms, hflight, hrecvs⟩ := Qp.imms_poll hpoll
  use sq'.imms
  constructor
  · rw [← h.atServer, himms]
  · exact ⟨h.toServer, rfl, hflight.trans h.toHost, h.atHost, h.hostRecvs,
      hrecvs.trans h.serverRecvs⟩

theorem completeHost (h : Net hq sq toServer atServer toHost atHost hostRecvs serverRecvs)
    (hcomplete : hq.complete = some hq') :
  Net hq' sq toServer atServer toHost atHost hostRecvs serverRecvs
  := by
  obtain ⟨himms, hflight, hrecvs⟩ := Qp.imms_complete hcomplete
  exact ⟨hflight.trans h.toServer, h.atServer, h.toHost, by rw [himms, h.atHost],
    hrecvs.trans h.hostRecvs, h.serverRecvs⟩

theorem completeServer (h : Net hq sq toServer atServer toHost atHost hostRecvs serverRecvs)
    (hcomplete : sq.complete = some sq') :
  Net hq sq' toServer atServer toHost atHost hostRecvs serverRecvs
  := by
  obtain ⟨himms, hflight, hrecvs⟩ := Qp.imms_complete hcomplete
  exact ⟨h.toServer, himms.trans h.atServer, hflight.trans h.toHost, h.atHost, h.hostRecvs,
    hrecvs.trans h.serverRecvs⟩

/-- The request that arrives is the one in flight, and it takes a receive of the server. -/
theorem arriveAtServer (h : Net hq sq toServer atServer toHost atHost hostRecvs serverRecvs)
    {m : Msg Request} (hdepart : hq.depart = some (m, hq'))
    (hreceive : sq.receive (m.recvWc Request.immData) = some sq') :
  ∃ req rest n, m = .writeWithImm req ∧ toServer = req :: rest ∧ serverRecvs = n + 1 ∧
    Net hq' sq' rest (atServer ++ [req.immData]) toHost atHost hostRecvs n
  := by
  obtain ⟨hflight, himms, hrecvs⟩ := Qp.imms_depart hdepart
  obtain ⟨himms', hflight', hrecvs'⟩ := Qp.imms_receive hreceive
  have hmap := h.toServer.symm.trans hflight
  obtain ⟨req, rest, rfl, rfl, hrest⟩ := List.map_eq_cons_iff.mp hmap
  refine ⟨req, rest, sq'.recvs, rfl, rfl, h.serverRecvs.symm.trans hrecvs', ?_⟩
  exact ⟨hrest.symm, by rw [himms', h.atServer]; rfl, hflight'.trans h.toHost,
    by rw [himms, h.atHost], hrecvs.trans h.hostRecvs, rfl⟩

/-- The reply that arrives is the one in flight, and it takes a receive of the host. -/
theorem arriveAtHost (h : Net hq sq toServer atServer toHost atHost hostRecvs serverRecvs)
    {m : Msg ByteMem} (hdepart : sq.depart = some (m, sq'))
    (hreceive : hq.receive (m.recvWc fun _ => ()) = some hq') :
  ∃ mem rest n, m = .writeWithImm mem ∧ toHost = mem :: rest ∧ hostRecvs = n + 1 ∧
    Net hq' sq' toServer atServer rest (atHost + 1) n serverRecvs
  := by
  obtain ⟨hflight, himms, hrecvs⟩ := Qp.imms_depart hdepart
  obtain ⟨himms', hflight', hrecvs'⟩ := Qp.imms_receive hreceive
  have hmap := h.toHost.symm.trans hflight
  obtain ⟨mem, rest, rfl, rfl, hrest⟩ := List.map_eq_cons_iff.mp hmap
  refine ⟨mem, rest, hq'.recvs, rfl, rfl, h.hostRecvs.symm.trans hrecvs', ?_⟩
  refine ⟨hflight'.trans h.toServer, himms.trans h.atServer, hrest.symm, ?_, rfl,
    hrecvs.trans h.serverRecvs⟩
  rw [himms', List.length_append, h.atHost]
  rfl

end Net

/-! ### The states of a session and of its calls -/

namespace WorkerPc

/-- The server waits for a request, or it still has to finish the previous one. -/
def Resting : WorkerPc → Prop
  | .pollCq | .finish _ _ _ | .waitConnected | .waitDisconnected => True
  | _ => False

theorem resting_awaits (awaits : Awaits) :
  awaits.pc.Resting
  := by
  cases awaits <;> trivial

/-- The `client_r_info` once the previous request is finished. -/
def settle : WorkerPc → ClientRInfo → ClientRInfo
  | .finish req chunked _, c => c.finish req chunked
  | _, c => c

theorem settle_awaits (awaits : Awaits) (c : ClientRInfo) :
  awaits.pc.settle c = c
  := by
  cases awaits <;> rfl

end WorkerPc

/-- The call is for a request that exists, and this is the `client_r_info` with the request. -/
structure Ready (h : RInfo) (a : ReqArgs) (h' : RInfo) : Prop where
  exists_req : (RdmaReq.ofCode a.reqRdma).isSome
  rtnMr : h'.rtnMr
  prepared : prepareRequest h a = some h'

/-- How far a session is with the call that is under way in the other system. -/
inductive Related : Session → Calls → Prop
  | idle {hq sq h spc ci} (net : Net hq sq [] [] [] 0 0 1) (resting : spc.Resting) :
      Related ⟨⟨.idle, hq, h⟩, ⟨spc, sq, ci⟩⟩ ⟨h, spc.settle ci, .idle⟩
  | posting {hq sq h h' a spc ci} (net : Net hq sq [] [] [] 0 1 1) (ready : Ready h a h')
      (resting : spc.Resting) :
      Related ⟨⟨.postWriteReq a, hq, h'⟩, ⟨spc, sq, ci⟩⟩ ⟨h, spc.settle ci, .called a⟩
  | toServer {hq sq h h' a spc ci} (net : Net hq sq [h'.posted] [] [] 0 1 1)
      (ready : Ready h a h') (resting : spc.Resting) :
      Related ⟨⟨.pollCq a h'.posted, hq, h'⟩, ⟨spc, sq, ci⟩⟩ ⟨h, spc.settle ci, .called a⟩
  | atServer {hq sq h h' a spc ci c} (net : Net hq sq [] [h'.posted.immData] [] 0 1 0)
      (ready : Ready h a h') (resting : spc.Resting)
      (received : { spc.settle ci with sockfd := htonl h'.posted.immData } = c.receive h'.posted) :
      Related ⟨⟨.pollCq a h'.posted, hq, h'⟩, ⟨spc, sq, ci⟩⟩ ⟨h, c, .called a⟩
  | received {hq sq h h' a ci c} (net : Net hq sq [] [] [] 0 1 0) (ready : Ready h a h')
      (received : { ci with sockfd := htonl h'.posted.immData } = c.receive h'.posted) :
      Related ⟨⟨.pollCq a h'.posted, hq, h'⟩, ⟨.received h'.posted.immData, sq, ci⟩⟩
        ⟨h, c, .called a⟩
  | serving {hq sq h h' a ci c} (net : Net hq sq [] [] [] 0 1 1) (ready : Ready h a h')
      (received : { ci with sockfd := htonl h'.posted.immData } = c.receive h'.posted) :
      Related ⟨⟨.pollCq a h'.posted, hq, h'⟩, ⟨.serve h'.posted.immData, sq, ci⟩⟩
        ⟨h, c, .called a⟩
  | replying {hq sq h a posted req awaits ci} (net : Net hq sq [] [] [] 0 1 1) :
      Related ⟨⟨.pollCq a posted, hq, h⟩, ⟨.reply req 0 awaits, sq, ci⟩⟩
        ⟨h.receive (ci.mem.load rtnErrno rtnSize), ci.finish req (Chunked ci.mem),
          .answered (finishRequest (h.receive (ci.mem.load rtnErrno rtnSize)) posted a).seen⟩
  | toHost {hq sq h a posted spc ci m} (net : Net hq sq [] [] [m] 0 1 1) (resting : spc.Resting) :
      Related ⟨⟨.pollCq a posted, hq, h⟩, ⟨spc, sq, ci⟩⟩
        ⟨h.receive (m.load rtnErrno rtnSize), spc.settle ci,
          .answered (finishRequest (h.receive (m.load rtnErrno rtnSize)) posted a).seen⟩
  | atHost {hq sq h a posted spc ci} (net : Net hq sq [] [] [] 1 0 1) (resting : spc.Resting) :
      Related ⟨⟨.pollCq a posted, hq, h⟩, ⟨spc, sq, ci⟩⟩
        ⟨h, spc.settle ci, .answered (finishRequest h posted a).seen⟩

/-! ### The requests and the replies -/

/-- Finishing a request leaves the `client_r_info` of the host. -/
theorem finishRequest_rInfo (h : RInfo) (posted : Request) (a : ReqArgs) :
  (finishRequest h posted a).rInfo = h
  := by
  rw [finishRequest]
  split
  · rfl
  · split
    · rfl
    · rfl

/-- `set_req_sock` for a request that exists. -/
theorem setReqSock_eq {x : Exchange} {h : RInfo} {a : ReqArgs}
    (ha : (RdmaReq.ofCode a.reqRdma).isSome) :
  setReqSock x h a = (prepareRequest h a).map fun h => exchangeRequest x h a
  := by
  obtain ⟨req, hreq⟩ := Option.isSome_iff_exists.mp ha
  have hrange : ¬ (a.reqRdma.toInt < RdmaReq.socket.code.toInt ∨
      RdmaReq.delRdmaConn.code.toInt < a.reqRdma.toInt) := by
    rw [← RdmaReq.code_of_ofCode hreq]
    cases req <;> decide
  simp only [setReqSock]
  rw [if_neg hrange, prepareRequest, Option.map_map]
  rfl

/-- The call that the server answers ends with the reply. -/
theorem setReqSock_answer {env : ServerEnv} {c : ClientRInfo} {h h' : RInfo} {a : ReqArgs}
    (hready : Ready h a h') :
  setReqSock (answer env c h'.posted) h a =
    some (finishRequest
      (h'.receive (((replies env (c.receive h'.posted)).headD zeros).load rtnErrno rtnSize))
      h'.posted a)
  := by
  have hpost : ¬ (answer env c h'.posted).postWriteReq.toInt < 0 :=
    show ¬ (0 : BitVec 32).toInt < 0 by decide
  have hpoll : ¬ (answer env c h'.posted).processPollCqImm.toInt < 0 :=
    show ¬ (1 : BitVec 32).toInt < 0 by decide
  rw [setReqSock_eq hready.exists_req, hready.prepared, Option.map_some, exchangeRequest,
    if_neg (not_not.mpr hready.rtnMr), if_neg hpost]
  simp only [if_neg hpoll]
  rfl

/-- What is finished of a request other than a `write` is outside of the next request. -/
theorem finish_receive {req : Option RdmaReq} (hreq : req ≠ some .write) (chunked : Bool)
    (c : ClientRInfo) (b : Block reqSize) :
  ({ c with mem := c.mem.store 0 b } : ClientRInfo).finish req chunked =
    { c.finish req chunked with mem := (c.finish req chunked).mem.store 0 b }
  := by
  have hcomm : ∀ {n : ℕ} (m : ByteMem) (p : ℕ) (b' : Block n), reqSize ≤ p →
      (m.store 0 b).store p b' = (m.store p b').store 0 b := by
    intro n m p b' hp
    funext j
    simp only [ByteMem.store]
    split
    · rw [dif_neg (by omega)]
    · rfl
  have hbranch : ∀ m : ByteMem, branchCleared (m.store 0 b) req = (branchCleared m req).store 0 b := by
    intro m
    rcases req with - | req
    · rfl
    · cases req with
      | write => exact absurd rfl hreq
      | select => apply hcomm _ _ _ (by decide)
      | _ => rfl
  simp only [ClientRInfo.finish]
  congr 1
  rw [← hbranch, setErrno, setErrno, ByteMem.storeBits, ByteMem.storeBits, ← hcomm _ _ _ (by decide)]
  cases chunked with
  | false => rfl
  | true =>
      simp only [if_true]
      rw [ByteMem.memset, hcomm _ _ _ (by decide)]
      rfl

theorem settle_receive {spc : WorkerPc}
    (hspc : ∀ chunked awaits, spc ≠ .finish (some .write) chunked awaits) (c : ClientRInfo)
    (b : Block reqSize) :
  spc.settle { c with mem := c.mem.store 0 b } =
    { spc.settle c with mem := (spc.settle c).mem.store 0 b }
  := by
  cases spc with
  | finish req chunked awaits =>
      apply finish_receive
      rintro rfl
      exact hspc chunked awaits rfl
  | _ => rfl

/-! ### What the steps do to the messages under way -/

section

variable {hq : Qp Request Unit} {sq : Qp ByteMem (BitVec 32)} {toServer : List Request}
  {atServer : List (BitVec 32)} {toHost : List ByteMem} {atHost hostRecvs serverRecvs : ℕ}
  {s' : Session}

/-- The host polls a completion, and returns if it is that of a reply. -/
theorem host_poll {hi : RInfo} {a : ReqArgs} {posted : Request} {server : Worker}
    (net : Net hq sq toServer atServer toHost atHost hostRecvs serverRecvs)
    (h : Session.step ⟨⟨.pollCq a posted, hq, hi⟩, server⟩ .host = some s') :
  (∃ hq', Net hq' sq toServer atServer toHost atHost hostRecvs serverRecvs ∧
      s' = ⟨⟨.pollCq a posted, hq', hi⟩, server⟩ ∧
      Session.shows ⟨⟨.pollCq a posted, hq, hi⟩, server⟩ .host = []) ∨
    ∃ hq' n, atHost = n + 1 ∧ Net hq' sq toServer atServer toHost n hostRecvs serverRecvs ∧
      s' = ⟨⟨.idle, hq', hi⟩, server⟩ ∧
      Session.shows ⟨⟨.pollCq a posted, hq, hi⟩, server⟩ .host =
        [.ret (finishRequest hi posted a).seen]
  := by
  simp only [Session.step, Session.hostStep, Option.map_map, Option.map_eq_some_iff] at h
  obtain ⟨⟨wc, hq'⟩, hpoll, rfl⟩ := h
  obtain ⟨n, hn, net'⟩ := net.hostPoll hpoll
  cases wc with
  | recvRdmaWithImm imm =>
      right
      refine ⟨hq', n, hn.trans (Nat.add_comm 1 n), net', ?_, ?_⟩
      · simp only [Function.comp, finishRequest_rInfo]
      · simp only [Session.shows, hpoll]
  | _ =>
      left
      obtain rfl : atHost = n := hn.trans (Nat.zero_add n)
      refine ⟨hq', net', rfl, ?_⟩
      simp only [Session.shows, hpoll]

/-- A server that rests finishes the previous request, or polls a completion; it takes up a
request that has arrived. -/
theorem server_rest {host : Caller} {spc : WorkerPc} {ci : ClientRInfo}
    (net : Net hq sq toServer atServer toHost atHost hostRecvs serverRecvs)
    (resting : spc.Resting) (h : Session.step ⟨host, ⟨spc, sq, ci⟩⟩ .server = some s') :
  (∃ spc' sq' ci', spc'.Resting ∧ spc'.settle ci' = spc.settle ci ∧
      Net hq sq' toServer atServer toHost atHost hostRecvs serverRecvs ∧
      s' = ⟨host, ⟨spc', sq', ci'⟩⟩) ∨
    ∃ sq' imm imms, atServer = imm :: imms ∧ spc.settle ci = ci ∧
      Net hq sq' toServer imms toHost atHost hostRecvs serverRecvs ∧
      s' = ⟨host, ⟨.received imm, sq', ci⟩⟩
  := by
  cases spc with
  | finish req chunked awaits =>
      obtain rfl := Option.some.inj h
      left
      exact ⟨awaits.pc, sq, _, WorkerPc.resting_awaits awaits, WorkerPc.settle_awaits awaits _,
        net, rfl⟩
  | waitConnected => cases h
  | waitDisconnected => cases h
  | pollCq =>
      simp only [Session.step, Session.serverStep, Option.map_map, Option.map_eq_some_iff] at h
      obtain ⟨⟨wc, sq'⟩, hpoll, rfl⟩ := h
      obtain ⟨imms, himms, net'⟩ := net.serverPoll hpoll
      cases wc with
      | recvRdmaWithImm imm => exact Or.inr ⟨sq', imm, imms, himms, rfl, net', rfl⟩
      | _ =>
          obtain rfl : atServer = imms := himms
          exact Or.inl ⟨.pollCq, sq', ci, trivial, rfl, net', rfl⟩
  | _ => cases resting

/-- The wait for a client ends. -/
theorem connectReturn_cases {host : Caller} {spc : WorkerPc} {ci : ClientRInfo}
    (h : Session.step ⟨host, ⟨spc, sq, ci⟩⟩ .connectReturn = some s') :
  spc = .waitConnected ∧ s' = ⟨host, ⟨.pollCq, sq, ci⟩⟩
  := by
  simp only [Session.step, Session.connectReturnStep] at h
  split at h
  · obtain rfl := Option.some.inj h
    exact ⟨rfl, rfl⟩
  · cases h

/-- A request arrives at the server. -/
theorem arriveAtServer_cases {pc : CallerPc} {hi : RInfo} {spc : WorkerPc} {ci : ClientRInfo}
    (net : Net hq sq toServer atServer toHost atHost hostRecvs serverRecvs)
    (h : Session.step ⟨⟨pc, hq, hi⟩, ⟨spc, sq, ci⟩⟩ .arriveAtServer = some s') :
  ∃ hq' sq' req rest n, toServer = req :: rest ∧ serverRecvs = n + 1 ∧
    Net hq' sq' rest (atServer ++ [req.immData]) toHost atHost hostRecvs n ∧
    s' = ⟨⟨pc, hq', hi⟩,
      ⟨spc, sq', { ci with mem := ci.mem.store 0 (req.mem.load 0 reqSize) }⟩⟩
  := by
  simp only [Session.step, Session.arriveAtServer] at h
  split at h
  · cases h
  · rename_i m hq' hdepart
    rw [Option.map_eq_some_iff] at h
    obtain ⟨sq', hreceive, rfl⟩ := h
    obtain ⟨req, rest, n, rfl, hts, hn, net'⟩ := net.arriveAtServer hdepart hreceive
    exact ⟨hq', sq', req, rest, n, hts, hn, net', rfl⟩

/-- A reply arrives at the host. -/
theorem arriveAtHost_cases {pc : CallerPc} {hi : RInfo} {spc : WorkerPc} {ci : ClientRInfo}
    (net : Net hq sq toServer atServer toHost atHost hostRecvs serverRecvs)
    (h : Session.step ⟨⟨pc, hq, hi⟩, ⟨spc, sq, ci⟩⟩ .arriveAtHost = some s') :
  ∃ hq' sq' m rest n, toHost = m :: rest ∧ hostRecvs = n + 1 ∧
    Net hq' sq' toServer atServer rest (atHost + 1) n serverRecvs ∧
    s' = ⟨⟨pc, hq', hi.receive (ci.mem.load rtnErrno rtnSize)⟩, ⟨spc, sq', ci⟩⟩
  := by
  simp only [Session.step, Session.arriveAtHost] at h
  split at h
  · cases h
  · rename_i m sq' hdepart
    rw [Option.map_eq_some_iff] at h
    obtain ⟨hq', hreceive, rfl⟩ := h
    obtain ⟨mem, rest, n, rfl, hth, hn, net'⟩ := net.arriveAtHost hdepart hreceive
    exact ⟨hq', sq', mem, rest, n, hth, hn, net', rfl⟩

end

/-! ### The actions of a session -/

section

variable {s s' : Session} {r : Calls}

theorem Related.edit {m : ByteMem} (hrel : Related s r) (h : s.step (.edit m) = some s') :
  ∃ r', run Calls.step r (s.shows (.edit m)) = some r' ∧ Related s' r'
  := by
  cases hrel with
  | idle net resting =>
      obtain rfl := Option.some.inj h
      exact ⟨_, rfl, .idle net resting⟩
  | _ => cases h

theorem Related.call {a : ReqArgs} (hrel : Related s r) (h : s.step (.call a) = some s') :
  ∃ r', run Calls.step r (s.shows (.call a)) = some r' ∧ Related s' r'
  := by
  cases hrel with
  | @idle hq sq h₀ spc ci net resting =>
      simp only [Session.step, Session.callStep] at h
      split at h
      · rename_i ha
        simp only [Option.map_map, Option.map_eq_some_iff] at h
        obtain ⟨h', hprep, rfl⟩ := h
        have hmr : h'.rtnMr := by
          simp only [prepareRequest, Option.map_eq_some_iff] at hprep
          obtain ⟨m, -, rfl⟩ := hprep
          apply ha.2
        exact ⟨_, rfl, .posting net.hostPostRecv ⟨ha.1, hmr, hprep⟩ resting⟩
      · cases h
  | _ => cases h

theorem Related.serve {env : PostingEnv} (hrel : Related s r) (htimely : s.Timely (.serve env))
    (h : s.step (.serve env) = some s') :
  ∃ r', run Calls.step r (s.shows (.serve env)) = some r' ∧ Related s' r'
  := by
  cases hrel with
  | @serving hq sq h₀ h' a ci c net ready received =>
      obtain rfl := Option.some.inj h
      have hone : messageCount env (c.receive h'.posted) = 1 := by
        rw [messageCount_eq_one_iff, ← received]
        apply htimely _ rfl
      obtain ⟨hfinish, hreplies⟩ := finish_prepare hone
      refine ⟨⟨h'.receive (((c.receive h'.posted).prepare env).mem.load rtnErrno rtnSize),
        (rdmaReqEvent env (.start (c.receive h'.posted))).cInfo, .answered
          (finishRequest (h'.receive (((c.receive h'.posted).prepare env).mem.load rtnErrno rtnSize))
            h'.posted a).seen⟩, ?_, ?_⟩
      · rw [Session.shows, run_cons_eq_some]
        refine ⟨_, ?_, rfl⟩
        simp only [Calls.step, ready.prepared, Option.bind_some, setReqSock_answer ready, hreplies,
          List.headD_cons, Option.map_some, finishRequest_rInfo]
      · rw [received, hone, ← hfinish]
        exact .replying net
  | idle _ resting | posting _ _ resting | toServer _ _ resting | atServer _ _ resting
  | toHost _ resting | atHost _ resting =>
      simp only [Session.step, Session.serveStep] at h
      split at h
      · cases resting
      · cases h
  | _ => cases h

theorem Related.host (hrel : Related s r) (h : s.step .host = some s') :
  ∃ r', run Calls.step r (s.shows .host) = some r' ∧ Related s' r'
  := by
  cases hrel with
  | idle => cases h
  | posting net ready resting =>
      obtain rfl := Option.some.inj h
      exact ⟨_, rfl, .toServer (net.postRequest _) ready resting⟩
  | toServer net ready resting =>
      obtain ⟨hq', net', rfl, hshows⟩ | ⟨hq', n, hn, -⟩ := host_poll net h
      · rw [hshows]
        exact ⟨_, rfl, .toServer net' ready resting⟩
      · cases hn
  | atServer net ready resting received =>
      obtain ⟨hq', net', rfl, hshows⟩ | ⟨hq', n, hn, -⟩ := host_poll net h
      · rw [hshows]
        exact ⟨_, rfl, .atServer net' ready resting received⟩
      · cases hn
  | received net ready received =>
      obtain ⟨hq', net', rfl, hshows⟩ | ⟨hq', n, hn, -⟩ := host_poll net h
      · rw [hshows]
        exact ⟨_, rfl, .received net' ready received⟩
      · cases hn
  | serving net ready received =>
      obtain ⟨hq', net', rfl, hshows⟩ | ⟨hq', n, hn, -⟩ := host_poll net h
      · rw [hshows]
        exact ⟨_, rfl, .serving net' ready received⟩
      · cases hn
  | replying net =>
      obtain ⟨hq', net', rfl, hshows⟩ | ⟨hq', n, hn, -⟩ := host_poll net h
      · rw [hshows]
        exact ⟨_, rfl, .replying net'⟩
      · cases hn
  | toHost net resting =>
      obtain ⟨hq', net', rfl, hshows⟩ | ⟨hq', n, hn, -⟩ := host_poll net h
      · rw [hshows]
        exact ⟨_, rfl, .toHost net' resting⟩
      · cases hn
  | atHost net resting =>
      obtain ⟨hq', net', rfl, hshows⟩ | ⟨hq', n, hn, net', rfl, hshows⟩ := host_poll net h
      · rw [hshows]
        exact ⟨_, rfl, .atHost net' resting⟩
      · obtain rfl := Nat.succ.inj hn
        rw [hshows]
        refine ⟨_, run_cons_eq_some.mpr ⟨_, if_pos rfl, rfl⟩, .idle net' resting⟩

theorem Related.server (hrel : Related s r) (h : s.step .server = some s') :
  ∃ r', run Calls.step r (s.shows .server) = some r' ∧ Related s' r'
  := by
  cases hrel with
  | idle net resting =>
      obtain ⟨spc', sq', ci', resting', hsettle, net', rfl⟩ | ⟨sq', imm, imms, himms, -⟩ :=
        server_rest net resting h
      · rw [← hsettle]
        exact ⟨_, rfl, .idle net' resting'⟩
      · cases himms
  | posting net ready resting =>
      obtain ⟨spc', sq', ci', resting', hsettle, net', rfl⟩ | ⟨sq', imm, imms, himms, -⟩ :=
        server_rest net resting h
      · rw [← hsettle]
        exact ⟨_, rfl, .posting net' ready resting'⟩
      · cases himms
  | toServer net ready resting =>
      obtain ⟨spc', sq', ci', resting', hsettle, net', rfl⟩ | ⟨sq', imm, imms, himms, -⟩ :=
        server_rest net resting h
      · rw [← hsettle]
        exact ⟨_, rfl, .toServer net' ready resting'⟩
      · cases himms
  | atServer net ready resting received =>
      obtain ⟨spc', sq', ci', resting', hsettle, net', rfl⟩ |
          ⟨sq', imm, imms, himms, hsettle, net', rfl⟩ := server_rest net resting h
      · rw [← hsettle] at received
        exact ⟨_, rfl, .atServer net' ready resting' received⟩
      · obtain ⟨rfl, rfl⟩ := List.cons.inj himms
        rw [hsettle] at received
        exact ⟨_, rfl, .received net' ready received⟩
  | received net ready received =>
      obtain rfl := Option.some.inj h
      exact ⟨_, rfl, .serving net.serverPostRecv ready received⟩
  | serving => cases h
  | replying net =>
      obtain rfl := Option.some.inj h
      exact ⟨_, rfl, .toHost (net.postReply _) trivial⟩
  | toHost net resting =>
      obtain ⟨spc', sq', ci', resting', hsettle, net', rfl⟩ | ⟨sq', imm, imms, himms, -⟩ :=
        server_rest net resting h
      · rw [← hsettle]
        exact ⟨_, rfl, .toHost net' resting'⟩
      · cases himms
  | atHost net resting =>
      obtain ⟨spc', sq', ci', resting', hsettle, net', rfl⟩ | ⟨sq', imm, imms, himms, -⟩ :=
        server_rest net resting h
      · rw [← hsettle]
        exact ⟨_, rfl, .atHost net' resting'⟩
      · cases himms

theorem Related.connectReturn (hrel : Related s r) (h : s.step .connectReturn = some s') :
  ∃ r', run Calls.step r (s.shows .connectReturn) = some r' ∧ Related s' r'
  := by
  refine ⟨r, rfl, ?_⟩
  cases hrel with
  | idle net =>
      obtain ⟨rfl, rfl⟩ := connectReturn_cases h
      exact .idle net trivial
  | posting net ready =>
      obtain ⟨rfl, rfl⟩ := connectReturn_cases h
      exact .posting net ready trivial
  | toServer net ready =>
      obtain ⟨rfl, rfl⟩ := connectReturn_cases h
      exact .toServer net ready trivial
  | atServer net ready resting received =>
      obtain ⟨rfl, rfl⟩ := connectReturn_cases h
      exact .atServer net ready trivial received
  | toHost net =>
      obtain ⟨rfl, rfl⟩ := connectReturn_cases h
      exact .toHost net trivial
  | atHost net =>
      obtain ⟨rfl, rfl⟩ := connectReturn_cases h
      exact .atHost net trivial
  | _ => cases h

theorem Related.arriveAtServer (hrel : Related s r) (htimely : s.Timely .arriveAtServer)
    (h : s.step .arriveAtServer = some s') :
  ∃ r', run Calls.step r (s.shows .arriveAtServer) = some r' ∧ Related s' r'
  := by
  cases hrel with
  | toServer net ready resting =>
      obtain ⟨hq', sq', req, rest, n, hts, hn, net', rfl⟩ := arriveAtServer_cases net h
      obtain ⟨rfl, rfl⟩ := List.cons.inj hts
      obtain rfl := Nat.succ.inj hn
      refine ⟨_, rfl, .atServer net' ready resting ?_⟩
      rw [settle_receive htimely]
      rfl
  | idle net | posting net | atServer net | received net | serving net | replying net | toHost net
  | atHost net =>
      obtain ⟨hq', sq', req, rest, n, hts, -⟩ := arriveAtServer_cases net h
      cases hts

theorem Related.arriveAtHost (hrel : Related s r) (htimely : s.Timely .arriveAtHost)
    (h : s.step .arriveAtHost = some s') :
  ∃ r', run Calls.step r (s.shows .arriveAtHost) = some r' ∧ Related s' r'
  := by
  cases hrel with
  | @toHost hq sq h a posted spc ci m net resting =>
      have hload : ci.mem.load rtnErrno rtnSize = m.load rtnErrno rtnSize := by
        apply ByteMem.AgreeOn.load
        apply htimely m
        rw [net.toHost]
        rfl
      obtain ⟨hq', sq', m', rest, n, hth, hn, net', rfl⟩ := arriveAtHost_cases net h
      obtain ⟨rfl, rfl⟩ := List.cons.inj hth
      obtain rfl := Nat.succ.inj hn
      rw [← hload]
      exact ⟨_, rfl, .atHost net' resting⟩
  | idle net | posting net | toServer net | atServer net | received net | serving net
  | replying net | atHost net =>
      obtain ⟨hq', sq', m, rest, n, hth, -⟩ := arriveAtHost_cases net h
      cases hth

theorem Related.completeHost (hrel : Related s r) (h : s.step .completeHost = some s') :
  ∃ r', run Calls.step r (s.shows .completeHost) = some r' ∧ Related s' r'
  := by
  simp only [Session.step, Option.map_eq_some_iff] at h
  obtain ⟨qp, hcomplete, rfl⟩ := h
  use r, rfl
  cases hrel with
  | idle net resting => exact .idle (net.completeHost hcomplete) resting
  | posting net ready resting => exact .posting (net.completeHost hcomplete) ready resting
  | toServer net ready resting => exact .toServer (net.completeHost hcomplete) ready resting
  | atServer net ready resting received =>
      exact .atServer (net.completeHost hcomplete) ready resting received
  | received net ready received => exact .received (net.completeHost hcomplete) ready received
  | serving net ready received => exact .serving (net.completeHost hcomplete) ready received
  | replying net => exact .replying (net.completeHost hcomplete)
  | toHost net resting => exact .toHost (net.completeHost hcomplete) resting
  | atHost net resting => exact .atHost (net.completeHost hcomplete) resting

theorem Related.completeServer (hrel : Related s r) (h : s.step .completeServer = some s') :
  ∃ r', run Calls.step r (s.shows .completeServer) = some r' ∧ Related s' r'
  := by
  simp only [Session.step, Option.map_eq_some_iff] at h
  obtain ⟨qp, hcomplete, rfl⟩ := h
  use r, rfl
  cases hrel with
  | idle net resting => exact .idle (net.completeServer hcomplete) resting
  | posting net ready resting => exact .posting (net.completeServer hcomplete) ready resting
  | toServer net ready resting => exact .toServer (net.completeServer hcomplete) ready resting
  | atServer net ready resting received =>
      exact .atServer (net.completeServer hcomplete) ready resting received
  | received net ready received => exact .received (net.completeServer hcomplete) ready received
  | serving net ready received => exact .serving (net.completeServer hcomplete) ready received
  | replying net => exact .replying (net.completeServer hcomplete)
  | toHost net resting => exact .toHost (net.completeServer hcomplete) resting
  | atHost net resting => exact .atHost (net.completeServer hcomplete) resting

end

/-- The system in which calls happen at once simulates a session whose actions are timely. -/
theorem session_simulates :
  Simulates Session.step Calls.step Session.shows Session.Timely Related
  := by
  intro s a s' r hrel htimely h
  cases a with
  | edit m => apply hrel.edit h
  | call a => apply hrel.call h
  | host => apply hrel.host h
  | server => apply hrel.server h
  | serve env => apply hrel.serve htimely h
  | connectReturn => apply hrel.connectReturn h
  | arriveAtServer => apply hrel.arriveAtServer htimely h
  | arriveAtHost => apply hrel.arriveAtHost htimely h
  | completeHost => apply hrel.completeHost h
  | completeServer => apply hrel.completeServer h

/-! ### Runs of a session -/

/-- What a run with timely actions shows is a run of the system in which calls happen at once;
and when the host is between two calls, the two systems agree, up to what the server still has
to finish. -/
theorem calls_at_once (h : RInfo) (c : ClientRInfo) (sends : ℕ) (acts : List SessionAct)
    (hacts : Along Session.step Session.Timely (.connected h c sends) acts) {s : Session}
    (hrun : run Session.step (.connected h c sends) acts = some s) :
  ∃ r, run Calls.step ⟨h, c, .idle⟩
      (observed Session.step Session.shows (.connected h c sends) acts) = some r ∧
    (s.host.pc = .idle → r = ⟨s.host.rInfo, s.server.pc.settle s.server.cInfo, .idle⟩)
  := by
  have hstart : Related (.connected h c sends) ⟨h, c, .idle⟩ :=
    .idle (Net.connected sends) trivial
  obtain ⟨r, hr, hrel⟩ := session_simulates.run hstart hacts hrun
  use r, hr
  intro hidle
  cases hrel with
  | idle => rfl
  | _ => cases hidle

/-- The actions of a call, one after the other. -/
def oneCall (a : ReqArgs) (env : PostingEnv) : List SessionAct :=
  [.call a, .host, .arriveAtServer, .server, .server, .serve env, .server, .arriveAtHost, .host,
    .server, .completeHost, .completeServer]

/-- The arguments of a call of `socket`. -/
def socketArgs : ReqArgs :=
  ⟨0, RdmaReq.socket.code, 0, 0, zeros, false⟩

/-- A server on which every call returns `5`. -/
def fiveEnv : PostingEnv :=
  ⟨{ outcome := ⟨5, 0, zeros, 0⟩, malloc := true, locals := zeros, post := fun _ => 0,
      connect := 0, pthreadCreate := 0, disconnected := false }, fun _ => rfl⟩

/-- A call of `socket` is made on a connection that was just set up, and returns. -/
theorem calls_at_once_socket :
  ∃ r, run Calls.step ⟨idleRInfo, .received .socket 0, .idle⟩
      (observed Session.step Session.shows (.connected idleRInfo (.received .socket 0) 0)
        (oneCall socketArgs fiveEnv)) = some r ∧ r.phase = .idle
  := by
  have hacts : Along Session.step Session.Timely (.connected idleRInfo (.received .socket 0) 0)
      (oneCall socketArgs fiveEnv) := by
    refine along_cons trivial rfl ?_
    refine along_cons trivial rfl ?_
    refine along_cons (fun _ _ => nofun) rfl ?_
    iterate 2 refine along_cons trivial rfl ?_
    refine along_cons (fun _ _ h => absurd h.2 (by decide)) rfl ?_
    refine along_cons trivial rfl ?_
    refine along_cons ?_ rfl ?_
    · intro m hm
      obtain rfl := Msg.writeWithImm.inj (Option.some.inj hm)
      apply ByteMem.AgreeOn.refl
    iterate 3 refine along_cons trivial rfl ?_
    exact along_cons trivial rfl trivial
  obtain ⟨r, hr, hidle⟩ := calls_at_once _ _ _ _ hacts rfl
  use r, hr
  rw [hidle rfl]

end SocketToRdma
