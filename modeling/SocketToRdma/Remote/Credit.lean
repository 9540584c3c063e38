import SocketToRdma.Host.Request
import SocketToRdma.Lib.QueuePair
import SocketToRdma.Lib.Run
import SocketToRdma.Server.Contract

/-!
# Receives for the messages in flight

A thread of the host connects to the server and then makes its calls, each with one request,
while the thread of the server for this connection accepts it and then serves the requests.
The two run at their own speed: an action is a step of one thread, the arrival of a message at
one end, or the completion of a message that has arrived. The calls of the verbs succeed. The
threads wait for a completion by polling; the notification they wait for before that only
delays them.

The connection managers relay what the other thread did: a connection request arrives once the
host called `rdma_connect`, the host is connected once the server called `rdma_accept`, and the
server is once the host is.
-/

namespace SocketToRdma

open QueuePair Run

/-- Where the thread of the host is, in `connect_server` and then in the calls of
`set_req_sock`; with the number of completions that `process_work_completion_events` still
waits for, or the request that is to be written. -/
inductive HostPc where
  | prePost
  | connect
  | waitEstablished
  | sendMetadata
  | awaitMetadata (wcs : ℕ)
  | idle
  | postWriteReq (req : Request)
  | pollCq

/-- Where the thread of the server is, in `connect_client_r_info` and then in
`process_poll_cq_imm`; with the immediate data of the request that is served, or the number of
messages that still have to be posted in reply to it. -/
inductive ServerPc where
  | waitRequest
  | prePost
  | accept
  | waitEstablished
  | awaitMetadata
  | sendMetadata
  | postRecvReq
  | pollCq
  | received (imm : BitVec 32)
  | serve (imm : BitVec 32)
  | reply (posts : ℕ)

/-- The thread of the host and its queue pair. -/
structure Host where
  pc : HostPc
  qp : Qp Request Unit

/-- The thread of the server, its queue pair, and its `client_r_info`. -/
structure Server where
  pc : ServerPc
  qp : Qp Unit (BitVec 32)
  cInfo : ClientRInfo

/-- The two ends of a connection. -/
structure Link where
  host : Host
  server : Server

/-- What a request meets on the server when the calls of `ibv_post_send` succeed. -/
abbrev PostingEnv : Type := {env : ServerEnv // ∀ i, env.post i = 0}

/-- A step of the host, of which the start of a call has the request it will write; a step of
the server, of which serving a request has what the request meets; an arrival; a completion. -/
inductive LinkAct where
  | host
  | call (req : Request)
  | server
  | serve (env : PostingEnv)
  | arriveAtServer
  | arriveAtHost
  | completeHost
  | completeServer

/-- The host has called `rdma_connect`. -/
def HostPc.requested : HostPc → Bool
  | .prePost | .connect => false
  | _ => true

/-- The host has received the establishment of the connection. -/
def HostPc.established : HostPc → Bool
  | .prePost | .connect | .waitEstablished => false
  | _ => true

/-- The server has called `rdma_accept`. -/
def ServerPc.accepted : ServerPc → Bool
  | .waitRequest | .prePost | .accept => false
  | _ => true

namespace Link

/-- A connection that is not set up. -/
def start (c : ClientRInfo) : Link :=
  ⟨⟨.prePost, .create⟩, ⟨.waitRequest, .create, c⟩⟩

/-- The next step of the thread of the host, if it is not between two calls. -/
def hostStep (s : Link) : Option Host :=
  let q := s.host.qp
  match s.host.pc with
  | .prePost => some ⟨.connect, q.postRecv⟩
  | .connect => some ⟨.waitEstablished, q⟩
  | .waitEstablished => if s.server.pc.accepted then some ⟨.sendMetadata, q⟩ else none
  | .sendMetadata => some ⟨.awaitMetadata 2, q.postSend .send⟩
  | .awaitMetadata 0 => some ⟨.idle, q⟩
  | .awaitMetadata (wcs + 1) => q.poll.map fun (_, q) => ⟨.awaitMetadata wcs, q⟩
  | .idle => none
  | .postWriteReq req => some ⟨.pollCq, q.postSend (.writeWithImm req)⟩
  | .pollCq => q.poll.map fun (wc, q) =>
      match wc with
      | .recvRdmaWithImm _ => ⟨.idle, q⟩
      | _ => ⟨.pollCq, q⟩

/-- The start of `set_req_sock`, with `post_recv_rtn`. -/
def callStep (s : Link) (req : Request) : Option Host :=
  match s.host.pc with
  | .idle => some ⟨.postWriteReq req, s.host.qp.postRecv⟩
  | _ => none

/-- The next step of the thread of the server, if it is not to serve a request. -/
def serverStep (s : Link) : Option Server :=
  let q := s.server.qp
  let c := s.server.cInfo
  match s.server.pc with
  | .waitRequest => if s.host.pc.requested then some ⟨.prePost, q, c⟩ else none
  | .prePost => some ⟨.accept, q.postRecv, c⟩
  | .accept => some ⟨.waitEstablished, q, c⟩
  | .waitEstablished => if s.host.pc.established then some ⟨.awaitMetadata, q, c⟩ else none
  | .awaitMetadata => q.poll.map fun (_, q) => ⟨.sendMetadata, q, c⟩
  | .sendMetadata => some ⟨.postRecvReq, q.postSend .send, c⟩
  | .postRecvReq => some ⟨.pollCq, q.postRecv, c⟩
  | .pollCq => q.poll.map fun (wc, q) =>
      match wc with
      | .recvRdmaWithImm imm => ⟨.received imm, q, c⟩
      | _ => ⟨.pollCq, q, c⟩
  | .received imm => some ⟨.serve imm, q.postRecv, c⟩
  | .serve _ => none
  | .reply 0 => some ⟨.pollCq, q, c⟩
  | .reply (posts + 1) => some ⟨.reply posts, q.postSend (.writeWithImm ()), c⟩

/-- The messages of the reply to the request that was received are determined. -/
def serveStep (s : Link) (env : PostingEnv) : Option Server :=
  match s.server.pc with
  | .serve imm =>
      let x := rdmaReqEvent env (.start { s.server.cInfo with sockfd := htonl imm })
      some ⟨.reply (x.trace.countP fun e => e.1.IsPost), s.server.qp, x.cInfo⟩
  | _ => none

/-- The arrival of a message at the server: the network card writes the request. -/
def arriveAtServer (s : Link) : Option Link :=
  match s.host.qp.depart with
  | none => none
  | some (m, q) =>
      let c := s.server.cInfo
      let c := match m with
        | .send => c
        | .writeWithImm req => { c with mem := c.mem.store 0 (req.mem.load 0 reqSize) }
      (s.server.qp.receive (m.recvWc Request.immData)).map fun q' =>
        ⟨⟨s.host.pc, q⟩, ⟨s.server.pc, q', c⟩⟩

/-- The arrival of a message at the host. -/
def arriveAtHost (s : Link) : Option Link :=
  match s.server.qp.depart with
  | none => none
  | some (m, q) =>
      (s.host.qp.receive (m.recvWc id)).map fun q' =>
        ⟨⟨s.host.pc, q'⟩, ⟨s.server.pc, q, s.server.cInfo⟩⟩

/-- The state after an action. -/
def step (s : Link) : LinkAct → Option Link
  | .host => s.hostStep.map fun host => { s with host }
  | .call req => (s.callStep req).map fun host => { s with host }
  | .server => s.serverStep.map fun server => { s with server }
  | .serve env => (s.serveStep env).map fun server => { s with server }
  | .arriveAtServer => s.arriveAtServer
  | .arriveAtHost => s.arriveAtHost
  | .completeHost => s.host.qp.complete.map fun qp => { s with host := ⟨s.host.pc, qp⟩ }
  | .completeServer =>
      s.server.qp.complete.map fun qp => { s with server := ⟨s.server.pc, qp, s.server.cInfo⟩ }

/-- If the action is an arrival, then the queue pair at which the message arrives has a posted
receive. -/
def Credited (s : Link) : LinkAct → Prop
  | .arriveAtServer => s.host.qp.inFlight ≠ [] → 0 < s.server.qp.recvs
  | .arriveAtHost => s.server.qp.inFlight ≠ [] → 0 < s.host.qp.recvs
  | _ => True

end Link

/-! ### The balance of messages and receives -/

namespace HostPc

/-- The metadata that are still to be sent. -/
def unsent : HostPc → ℕ
  | .prePost | .connect | .waitEstablished | .sendMetadata => 1
  | _ => 0

/-- The receive for the metadata of the server that is still to be posted. -/
def unposted : HostPc → ℕ
  | .prePost => 1
  | _ => 0

/-- The receives posted for a reply. -/
def posted : HostPc → ℕ
  | .postWriteReq _ | .pollCq => 1
  | _ => 0

/-- The replies that are waited for. -/
def awaited : HostPc → ℕ
  | .pollCq => 1
  | _ => 0

/-- The completions to come during the set-up, of the metadata of the server and of those that
were sent. -/
def exchange : HostPc → ℕ
  | .prePost | .connect | .waitEstablished | .sendMetadata => 1
  | .awaitMetadata wcs => wcs
  | _ => 0

/-- The connections that are set up. -/
def connected : HostPc → ℕ
  | .idle | .postWriteReq _ | .pollCq => 1
  | _ => 0

theorem bounds (pc : HostPc) :
  pc.awaited ≤ pc.posted ∧ pc.posted ≤ pc.connected ∧ pc.connected ≤ 1 ∧ pc.unposted ≤ pc.unsent
  := by
  cases pc with
  | _ => simp [awaited, connected, posted, unposted, unsent]

theorem established_of_unsent {pc : HostPc} (h : pc.unsent = 0) :
  pc.established
  := by
  cases pc with
  | _ => simp_all [unsent, established]

end HostPc

namespace ServerPc

/-- The metadata that are still to be received. -/
def unreceived : ServerPc → ℕ
  | .waitRequest | .prePost | .accept | .waitEstablished | .awaitMetadata => 1
  | _ => 0

/-- The metadata that are still to be sent. -/
def unsent : ServerPc → ℕ
  | .waitRequest | .prePost | .accept | .waitEstablished | .awaitMetadata | .sendMetadata => 1
  | _ => 0

/-- The receives posted for a message that is not yet looked at. -/
def posted : ServerPc → ℕ
  | .accept | .waitEstablished | .awaitMetadata => 1
  | .pollCq | .serve _ | .reply _ => 1
  | _ => 0

/-- The replies that are still to be posted. -/
def pending : ServerPc → ℕ
  | .received _ | .serve _ => 1
  | .reply posts => posts
  | _ => 0

theorem bounds (pc : ServerPc) :
  pc.unreceived ≤ pc.unsent ∧ pc.unsent ≤ 1
  := by
  cases pc with
  | _ => simp [unreceived, unsent]

theorem posted_of_accepted {pc : ServerPc} (h : pc.accepted) (hpc : pc.unreceived = 1) :
  pc.posted = 1
  := by
  cases pc with
  | _ => simp_all [accepted, unreceived, posted]

/-- The first receive for a request is posted. -/
def Started : ServerPc → Prop
  | .pollCq | .received _ | .serve _ | .reply _ => True
  | _ => False

theorem posted_of_started {pc : ServerPc} (h : pc.Started) (hpc : pc.pending = 0) :
  pc.posted = 1 ∧ pc.unreceived = 0
  := by
  cases pc with
  | _ => simp_all [Started, pending, posted, unreceived]

theorem posted_of_not_started {pc : ServerPc} (h : ¬ pc.Started) (hpc : pc.unsent = 0) :
  pc.posted = 0
  := by
  cases pc with
  | _ => simp_all [Started, unsent, posted]

end ServerPc

namespace Link

/-- The metadata of either end are sent once and every request is answered once; and the
receives posted at either end are those for the messages that may come. -/
structure Inv (s : Link) : Prop where
  established : s.host.pc.established → s.server.pc.accepted
  hostMetadata : s.host.pc.unsent + s.host.qp.sends + s.server.qp.recvWcs =
    s.server.pc.unreceived
  connected : s.host.pc.connected = 1 → s.server.pc.unsent + s.server.qp.sends = 0
  exchange : s.host.pc.connected = 0 → s.host.pc.exchange =
    s.host.qp.wcs + s.host.qp.uncompleted + s.host.qp.sends + s.server.pc.unsent +
      s.server.qp.sends
  serverIdle : s.server.pc.unsent = 1 → s.server.qp.sends = 0 ∧ s.server.qp.uncompleted = 0 ∧
    s.server.qp.wcs = s.server.qp.recvWcs + s.server.qp.immWcs
  outstanding : s.host.qp.writes + s.server.qp.immWcs + s.server.pc.pending +
    s.server.qp.writes + s.host.qp.immWcs = s.host.pc.awaited
  hostRecvs : s.host.qp.recvs + s.host.qp.immWcs + s.host.pc.unposted =
    s.server.pc.unsent + s.server.qp.sends + s.host.pc.posted
  serverRecvs : s.server.qp.recvs + s.server.qp.recvWcs + s.server.qp.immWcs =
    s.server.pc.posted

theorem inv_start (c : ClientRInfo) :
  (start c).Inv
  := by
  constructor
  all_goals
    simp [start, HostPc.established, HostPc.unsent, HostPc.connected, HostPc.awaited,
      HostPc.unposted, HostPc.posted, HostPc.exchange, ServerPc.unreceived, ServerPc.pending,
      ServerPc.unsent, ServerPc.posted]

section

attribute [local simp] HostPc.established HostPc.unsent HostPc.connected HostPc.awaited
  HostPc.unposted HostPc.posted HostPc.exchange

/-- A step of the host keeps the balance. -/
theorem Inv.host {s : Link} {host : Host} (hs : s.Inv) (h : s.hostStep = some host) :
  Inv { s with host }
  := by
  obtain ⟨⟨pc, q⟩, server⟩ := s
  obtain ⟨hest, hmetadata, hconn, hexch, hidle, hout, hhost, hserver⟩ := hs
  rw [hostStep] at h
  dsimp only at *
  cases pc with
  | prePost | connect | sendMetadata | postWriteReq =>
      obtain rfl := Option.some.inj h
      simp at hest hmetadata hconn hexch hout hhost
      constructor
      all_goals simp
      all_goals omega
  | waitEstablished =>
      simp at h
      obtain ⟨haccepted, rfl⟩ := h
      simp at hest hmetadata hconn hexch hout hhost
      constructor
      all_goals simp
      all_goals omega
  | awaitMetadata wcs =>
      cases wcs with
      | zero =>
          obtain rfl := Option.some.inj h
          simp at hest hmetadata hconn hexch hout hhost
          constructor
          all_goals simp
          all_goals omega
      | succ wcs =>
          rw [Option.map_eq_some_iff] at h
          obtain ⟨⟨wc, q'⟩, hpoll, rfl⟩ := h
          obtain ⟨hrecvs, huncompleted, hwcs, hsends, hwrites, hrecv, himm⟩ := Qp.counts_poll hpoll
          simp at hest hmetadata hconn hexch hout hhost
          constructor
          all_goals simp [hrecvs, huncompleted, hsends, hwrites]
          all_goals omega
  | idle => simp at h
  | pollCq =>
      rw [Option.map_eq_some_iff] at h
      obtain ⟨⟨wc, q'⟩, hpoll, rfl⟩ := h
      obtain ⟨hrecvs, huncompleted, hwcs, hsends, hwrites, hrecv, himm⟩ := Qp.counts_poll hpoll
      cases wc with
      | _ =>
          simp at hest hmetadata hconn hexch hout hhost himm
          constructor
          all_goals simp [hrecvs, huncompleted, hsends, hwrites]
          all_goals omega

/-- The start of a call keeps the balance. -/
theorem Inv.call {s : Link} {req : Request} {host : Host} (hs : s.Inv)
    (h : s.callStep req = some host) :
  Inv { s with host }
  := by
  obtain ⟨⟨pc, q⟩, server⟩ := s
  obtain ⟨hest, hmetadata, hconn, hexch, hidle, hout, hhost, hserver⟩ := hs
  rw [callStep] at h
  dsimp only at *
  cases pc with
  | idle =>
      obtain rfl := Option.some.inj h
      simp at hest hmetadata hconn hexch hout hhost
      constructor
      all_goals simp
      all_goals omega
  | _ => simp at h

end

section

attribute [local simp] ServerPc.accepted ServerPc.unreceived ServerPc.unsent ServerPc.posted
  ServerPc.pending

/-- A step of the server keeps the balance. -/
theorem Inv.server {s : Link} {server : Server} (hs : s.Inv) (h : s.serverStep = some server) :
  Inv { s with server }
  := by
  obtain ⟨host, ⟨pc, q, c⟩⟩ := s
  obtain ⟨hest, hmetadata, hconn, hexch, hidle, hout, hhost, hserver⟩ := hs
  rw [serverStep] at h
  dsimp only at *
  have hpc := host.pc.bounds
  cases pc with
  | prePost | accept | sendMetadata | postRecvReq | received =>
      obtain rfl := Option.some.inj h
      simp at hest hmetadata hconn hexch hidle hout hhost hserver
      constructor
      all_goals simp
      all_goals omega
  | waitRequest | waitEstablished =>
      simp at h
      obtain ⟨-, rfl⟩ := h
      simp at hest hmetadata hconn hexch hidle hout hhost hserver
      constructor
      all_goals simp
      all_goals omega
  | awaitMetadata | pollCq =>
      rw [Option.map_eq_some_iff] at h
      obtain ⟨⟨wc, q'⟩, hpoll, rfl⟩ := h
      obtain ⟨hrecvs, huncompleted, hwcs, hsends, hwrites, hrecv, himm⟩ := Qp.counts_poll hpoll
      have hkinds := q'.recvWcs_add_immWcs_le
      cases wc with
      | _ =>
          simp at hest hmetadata hconn hexch hidle hout hhost hserver hrecv himm
          constructor
          all_goals simp [hrecvs, huncompleted, hsends, hwrites]
          all_goals omega
  | serve imm => simp at h
  | reply posts =>
      cases posts with
      | _ =>
          obtain rfl := Option.some.inj h
          simp at hest hmetadata hconn hexch hidle hout hhost hserver
          constructor
          all_goals simp
          all_goals omega

end

/-- The messages of a reply. -/
theorem serveStep_eq_some {s : Link} {env : PostingEnv} {server : Server}
    (h : s.serveStep env = some server) :
  (∃ imm, s.server.pc = .serve imm) ∧ server.qp = s.server.qp ∧
    server.pc = .reply (messageCount env s.server.cInfo)
  := by
  rw [serveStep] at h
  split at h
  · rename_i imm hpc
    obtain rfl := Option.some.inj h
    exact ⟨⟨imm, hpc⟩, rfl, congrArg ServerPc.reply (rdmaReqEvent_posts env _ env.2)⟩
  · simp at h

/-- Serving a request that is answered once keeps the balance. -/
theorem Inv.serve {s : Link} {env : PostingEnv} {server : Server} (hs : s.Inv)
    (hone : messageCount env s.server.cInfo = 1) (h : s.serveStep env = some server) :
  Inv { s with server }
  := by
  obtain ⟨⟨imm, hpc⟩, hqp, hpc'⟩ := serveStep_eq_some h
  obtain ⟨host, ⟨pc, q, c⟩⟩ := s
  obtain ⟨pc', q', c'⟩ := server
  dsimp only at *
  subst hpc hqp
  rw [hone] at hpc'
  subst hpc'
  obtain ⟨hest, hmetadata, hconn, hexch, hidle, hout, hhost, hserver⟩ := hs
  exact ⟨hest, hmetadata, hconn, hexch, hidle, hout, hhost, hserver⟩

/-- An arrival at the server keeps the balance. -/
theorem Inv.arriveAtServer {s s' : Link} (hs : s.Inv) (h : s.arriveAtServer = some s') :
  s'.Inv
  := by
  obtain ⟨⟨pc, q⟩, ⟨spc, sq, c⟩⟩ := s
  obtain ⟨hest, hmetadata, hconn, hexch, hidle, hout, hhost, hserver⟩ := hs
  rw [Link.arriveAtServer] at h
  dsimp only at *
  have hpc := pc.bounds
  have hspc := spc.bounds
  split at h
  · simp at h
  · rename_i m q' hdepart
    rw [Option.map_eq_some_iff] at h
    obtain ⟨sq', hreceive, rfl⟩ := h
    obtain ⟨hrecvs, huncompleted, hwcs, hsends, hwrites, hrecv, himm⟩ := Qp.counts_depart hdepart
    obtain ⟨hrecvs', huncompleted', hwcs', hsends', hwrites', hrecv', himm'⟩ :=
      Qp.counts_receive hreceive
    cases m with
    | _ =>
        simp at hsends hwrites hrecv' himm'
        constructor
        all_goals simp [hrecvs, huncompleted, hwcs, huncompleted', hsends', hwrites']
        all_goals omega

/-- An arrival at the host keeps the balance. -/
theorem Inv.arriveAtHost {s s' : Link} (hs : s.Inv) (h : s.arriveAtHost = some s') :
  s'.Inv
  := by
  obtain ⟨⟨pc, q⟩, ⟨spc, sq, c⟩⟩ := s
  obtain ⟨hest, hmetadata, hconn, hexch, hidle, hout, hhost, hserver⟩ := hs
  rw [Link.arriveAtHost] at h
  dsimp only at *
  have hpc := pc.bounds
  have hspc := spc.bounds
  split at h
  · simp at h
  · rename_i m sq' hdepart
    rw [Option.map_eq_some_iff] at h
    obtain ⟨q', hreceive, rfl⟩ := h
    obtain ⟨hrecvs, huncompleted, hwcs, hsends, hwrites, hrecv, himm⟩ := Qp.counts_depart hdepart
    obtain ⟨hrecvs', huncompleted', hwcs', hsends', hwrites', hrecv', himm'⟩ :=
      Qp.counts_receive hreceive
    cases m with
    | _ =>
        simp at hsends hwrites hrecv' himm'
        constructor
        all_goals simp [hrecvs, huncompleted, hwcs, huncompleted', hsends', hwrites']
        all_goals omega

/-- The completion of a message of the host keeps the balance. -/
theorem Inv.completeHost {s : Link} {qp : Qp Request Unit} (hs : s.Inv)
    (h : s.host.qp.complete = some qp) :
  Inv { s with host := ⟨s.host.pc, qp⟩ }
  := by
  obtain ⟨hest, hmetadata, hconn, hexch, hidle, hout, hhost, hserver⟩ := hs
  obtain ⟨hrecvs, huncompleted, hwcs, hsends, hwrites, hrecv, himm⟩ := Qp.counts_complete h
  constructor
  all_goals simp only [hrecvs, hsends, hwrites, himm]
  all_goals omega

/-- The completion of a message of the server keeps the balance. -/
theorem Inv.completeServer {s : Link} {qp : Qp Unit (BitVec 32)} (hs : s.Inv)
    (h : s.server.qp.complete = some qp) :
  Inv { s with server := ⟨s.server.pc, qp, s.server.cInfo⟩ }
  := by
  obtain ⟨hest, hmetadata, hconn, hexch, hidle, hout, hhost, hserver⟩ := hs
  obtain ⟨hrecvs, huncompleted, hwcs, hsends, hwrites, hrecv, himm⟩ := Qp.counts_complete h
  constructor
  all_goals simp only [hrecvs, hsends, hwrites, hrecv, himm]
  all_goals omega

/-- If the action is the arrival of a request, then the server has posted its first receive for
one; if it serves a request, then the request is answered with one message. -/
def Conforms (s : Link) : LinkAct → Prop
  | .arriveAtServer =>
      (∃ req, s.host.qp.inFlight.head? = some (.writeWithImm req)) → s.server.pc.Started
  | .serve env =>
      (∃ imm, s.server.pc = .serve imm) →
        ¬ (s.server.cInfo.request = some .read ∧ 599988 ≤ env.val.outcome.ret.toInt)
  | _ => True

/-- An action that conforms keeps the balance. -/
theorem Inv.step {s s' : Link} {a : LinkAct} (hs : s.Inv) (ha : s.Conforms a)
    (h : s.step a = some s') :
  s'.Inv
  := by
  cases a with
  | host =>
      obtain ⟨host, hstep, rfl⟩ := Option.map_eq_some_iff.mp h
      apply hs.host hstep
  | call req =>
      obtain ⟨host, hstep, rfl⟩ := Option.map_eq_some_iff.mp h
      apply hs.call hstep
  | server =>
      obtain ⟨server, hstep, rfl⟩ := Option.map_eq_some_iff.mp h
      apply hs.server hstep
  | serve env =>
      obtain ⟨server, hstep, rfl⟩ := Option.map_eq_some_iff.mp h
      apply hs.serve _ hstep
      rw [messageCount_eq_one_iff]
      apply ha (serveStep_eq_some hstep).1
  | arriveAtServer => apply hs.arriveAtServer h
  | arriveAtHost => apply hs.arriveAtHost h
  | completeHost =>
      obtain ⟨qp, hstep, rfl⟩ := Option.map_eq_some_iff.mp h
      apply hs.completeHost hstep
  | completeServer =>
      obtain ⟨qp, hstep, rfl⟩ := Option.map_eq_some_iff.mp h
      apply hs.completeServer hstep

/-- In balance, an arrival that conforms finds a receive. -/
theorem Inv.credited {s : Link} {a : LinkAct} (hs : s.Inv) (ha : s.Conforms a) :
  s.Credited a
  := by
  obtain ⟨hest, hmetadata, hconn, hexch, hidle, hout, hhost, hserver⟩ := hs
  have hpc := s.host.pc.bounds
  have hspc := s.server.pc.bounds
  cases a with
  | arriveAtServer =>
      intro hflight
      obtain ⟨m, q', hdepart, hhead⟩ := Qp.exists_depart hflight
      obtain ⟨-, -, -, hsends, hwrites, -⟩ := Qp.counts_depart hdepart
      cases m with
      | send =>
          -- the metadata arrive once the connection is accepted and before they are received
          simp only [Msg.isSend, if_true] at hsends
          have haccepted := hest (HostPc.established_of_unsent (by omega))
          have hposted := ServerPc.posted_of_accepted haccepted (by omega)
          omega
      | writeWithImm req =>
          simp only [Msg.isSend, Bool.false_eq_true, if_false] at hwrites
          have hposted := ServerPc.posted_of_started (ha ⟨req, hhead⟩) (by omega)
          omega
  | arriveAtHost =>
      intro hflight
      obtain ⟨m, q', hdepart, -⟩ := Qp.exists_depart hflight
      obtain ⟨-, -, -, hsends, hwrites, -⟩ := Qp.counts_depart hdepart
      cases m with
      | send =>
          simp only [Msg.isSend, if_true] at hsends
          omega
      | writeWithImm _ =>
          simp only [Msg.isSend, Bool.false_eq_true, if_false] at hwrites
          omega
  | _ => trivial

/-- The second message of a reply may arrive before another receive is posted. -/
theorem Inv.second_reply {s : Link} (hs : s.Inv) {imm : BitVec 32} {posts : ℕ} {server : Server}
    (hpc : s.server.pc = .serve imm) (hqp : server.qp = s.server.qp)
    (hpc' : server.pc = .reply (posts + 2)) :
  ¬ Along Link.step Credited { s with server }
    [.server, .server, .arriveAtHost, .arriveAtHost]
  := by
  obtain ⟨hest, hmetadata, hconn, hexch, hidle, hout, hhost, hserver⟩ := hs
  have hbounds := s.host.pc.bounds
  rw [hpc] at hmetadata hconn hout hhost
  simp only [ServerPc.unreceived, ServerPc.pending, ServerPc.unsent] at hmetadata hconn hout hhost
  have hflight : s.server.qp.inFlight = [] := Qp.inFlight_eq_nil (by omega) (by omega)
  have hrecvs : s.host.qp.recvs = 1 := by
    omega
  obtain ⟨⟨hostPc, ⟨recvs, inFlight, arrived, cq⟩⟩, ⟨serverPc, q, c⟩⟩ := s
  obtain ⟨serverPc', ⟨recvs', inFlight', arrived', cq'⟩, c'⟩ := server
  dsimp only at *
  subst hqp hrecvs hpc'
  dsimp only at hflight
  subst hflight
  rintro ⟨-, h⟩
  obtain ⟨-, h⟩ := h _ rfl
  obtain ⟨-, h⟩ := h _ rfl
  obtain ⟨hcredited, -⟩ := h _ rfl
  exact absurd (hcredited (by simp)) (Nat.lt_irrefl 0)

/-- An action that does not conform is an arrival without a receive, or it leads to one. -/
theorem Inv.exists_not_credited {s : Link} {a : LinkAct} (hs : s.Inv) (ha : ¬ s.Conforms a) :
  ∃ acts, ¬ Along Link.step Credited s (a :: acts)
  := by
  cases a with
  | arriveAtServer =>
      simp only [Conforms, not_forall, exists_prop] at ha
      obtain ⟨⟨req, hhead⟩, hstarted⟩ := ha
      have hflight : s.host.qp.inFlight ≠ [] := by
        intro hnil
        simp [hnil] at hhead
      obtain ⟨m, q', hdepart, hhead'⟩ := Qp.exists_depart hflight
      obtain rfl := Option.some.inj (hhead.symm.trans hhead')
      obtain ⟨-, -, -, -, hwrites, -⟩ := Qp.counts_depart hdepart
      simp only [Msg.isSend, Bool.false_eq_true, if_false] at hwrites
      obtain ⟨hest, hmetadata, hconn, hexch, hidle, hout, hhost, hserver⟩ := hs
      have hpc := s.host.pc.bounds
      have hposted := ServerPc.posted_of_not_started hstarted (by omega)
      use []
      rintro ⟨hcredited, -⟩
      have hrecvs := hcredited hflight
      omega
  | serve env =>
      simp only [Conforms, not_forall, exists_prop, not_not] at ha
      obtain ⟨⟨imm, hpc⟩, hread⟩ := ha
      have hserve : ∃ server, s.serveStep env = some server := by
        rw [serveStep, hpc]
        exact ⟨_, rfl⟩
      obtain ⟨server, hserve⟩ := hserve
      obtain ⟨-, hqp, hpc'⟩ := serveStep_eq_some hserve
      have hcount : 2 ≤ messageCount env s.server.cInfo := by
        have hpos := messageCount_pos env s.server.cInfo
        have hone := (messageCount_eq_one_iff env s.server.cInfo).not_left.mpr hread
        omega
      obtain ⟨posts, hposts⟩ := Nat.exists_eq_add_of_le' hcount
      rw [hposts] at hpc'
      use [.server, .server, .arriveAtHost, .arriveAtHost]
      intro h
      apply hs.second_reply hpc hqp hpc'
      apply h.2
      rw [Link.step, hserve]
      rfl
  | _ => exact absurd trivial ha

/-- In every run in which no request arrives before the server has posted its first receive for
one, and every request is answered with one message, every message arrives while the queue pair
that receives it has a posted receive; and an action of the run that breaks the condition is an
arrival without a posted receive, or can be followed by one. -/
theorem arrivals_credited (c : ClientRInfo) (acts : List LinkAct)
    (hacts : Along Link.step Conforms (start c) acts) :
  Along Link.step Credited (start c) acts ∧
    ∀ s a, run Link.step (start c) acts = some s → ¬ s.Conforms a →
      ∃ acts', ¬ Along Link.step Credited s (a :: acts')
  := by
  have hstep : ∀ s a s', Inv s → s.Conforms a → s.step a = some s' → Inv s' :=
    fun s a s' hs ha h => hs.step ha h
  constructor
  · apply along_of_invariant hstep _ (inv_start c) hacts
    intro s a hs ha
    apply hs.credited ha
  · intro s a hrun ha
    have hs : s.Inv := run_invariant hstep (inv_start c) hacts hrun
    apply hs.exists_not_credited ha

/-- The steps of the set-up, up to the first receive for a request. -/
def setUp : List LinkAct :=
  [.host, .host, .server, .server, .server, .host, .server, .host, .arriveAtServer, .server,
    .server, .completeHost, .arriveAtHost, .host, .host, .host]

/-- A request is written and arrives after the server has posted a receive for it. -/
theorem arrivals_credited_first :
  Along Link.step Credited (start (.received .socket 0))
    (setUp ++ [.call ⟨zeros, 0⟩, .host, .server, .arriveAtServer])
  := by
  have hconforms : Along Link.step Conforms (start (.received .socket 0))
      (setUp ++ [.call ⟨zeros, 0⟩, .host, .server, .arriveAtServer]) := by
    iterate 8 refine along_cons trivial rfl ?_
    refine along_cons (fun ⟨_, hhead⟩ => nomatch Option.some.inj hhead) rfl ?_
    iterate 10 refine along_cons trivial rfl ?_
    exact along_cons (fun _ => trivial) rfl trivial
  apply (arrivals_credited _ _ hconforms).1

/-- A request is written and may arrive before the server has posted a receive for it. -/
theorem first_request_not_credited :
  ∃ s, run Link.step (start (.received .socket 0)) (setUp ++ [.call ⟨zeros, 0⟩, .host]) = some s ∧
    s.host.qp.inFlight = [.writeWithImm ⟨zeros, 0⟩] ∧ ¬ s.Credited .arriveAtServer
  := by
  refine ⟨⟨⟨.pollCq, ⟨1, [.writeWithImm ⟨zeros, 0⟩], [], []⟩⟩,
    ⟨.postRecvReq, ⟨0, [], [.send], []⟩, .received .socket 0⟩⟩, rfl, rfl, ?_⟩
  intro h
  exact absurd (h (by simp)) (Nat.lt_irrefl 0)

end Link

end SocketToRdma
