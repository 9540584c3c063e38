import SocketToRdma.Remote.Credit
import SocketToRdma.Lib.Simulation

/-!
# A session, step by step

Once a connection is set up, a thread of the host makes its calls on it one after the other, and
the thread of the server for the connection serves the requests. The two run at their own speed:
an action is a step of one thread, the arrival of a message, or the completion of a message that
has arrived. Between two calls the hooks write the messages of the `client_r_info` as they like.

A thread does not stop when it has posted a message. The network card reads the reply from the
memory of the server when it arrives at the host, and by then the server may have gone on: it
resets `errno_`, and it clears a buffer after some of the requests. Likewise the next request may
arrive before the server has done so.

Two requests make the thread of the server wait after the reply. After `RDMA_REQ_NEW_RDMA_CONN` it
is in `connect_client_r_info` until a client connects, which another thread of the host does or does
not do; after `RDMA_REQ_DEL_RDMA_CONN` it waits for an event that does not come. Requests that
arrive meanwhile stay in its queue.
-/

namespace SocketToRdma

open QueuePair Run

/-- The request of a call, filled in. -/
def prepareRequest (h : RInfo) (a : ReqArgs) : Option RInfo :=
  let m := fillRequest h.mem a
  let copied := if a.reqRdma = RdmaReq.write.code then copyMessage m a else some m
  copied.map fun m => { h with mem := m, sockfd := a.sockfd }

/-- The request that `post_write_req` posts. -/
def RInfo.posted (h : RInfo) : Request :=
  ⟨h.mem, htonl h.sockfd⟩

/-- The reply as the network card writes it. -/
def RInfo.receive (h : RInfo) (rtn : Block rtnSize) : RInfo :=
  { h with mem := h.mem.store rtnErrno rtn }

/-- The `client_r_info` of the server when the reply is posted: the handler is done. -/
def ClientRInfo.prepare (env : ServerEnv) (c : ClientRInfo) : ClientRInfo :=
  { (rdmaReqEvent env (.start c)).cInfo with mem := (replies env c).headD c.mem }

/-- What is left of `rdma_req_event` once the reply is posted: the first bytes of data that were
read are cleared, `errno_` is reset, and the branch of the request clears its buffer. -/
def ClientRInfo.finish (req : Option RdmaReq) (chunked : Bool) (c : ClientRInfo) : ClientRInfo :=
  { c with
    mem := branchCleared (setErrno (if chunked then c.mem.memset rtnData 0 8 else c.mem) 0) req }

/-- Where the thread of the host is: between two calls, or in `set_req_sock`. -/
inductive CallerPc where
  | idle
  | postWriteReq (a : ReqArgs)
  | pollCq (a : ReqArgs) (posted : Request)

/-- What the branch of a request waits for when its reply is posted: for nothing, for a client that
connects, or for a disconnection that does not come. -/
inductive Awaits where
  | nothing
  | connection
  | disconnection

/-- Where the thread of the server is in `process_poll_cq_imm`, with the number of messages that
are posted after the next one, and what it will wait for then. -/
inductive WorkerPc where
  | pollCq
  | received (imm : BitVec 32)
  | serve (imm : BitVec 32)
  | reply (req : Option RdmaReq) (posts : ℕ) (awaits : Awaits)
  | finish (req : Option RdmaReq) (chunked : Bool) (awaits : Awaits)
  | waitConnected
  | waitDisconnected

/-- Where the thread waits, or the loop if there is nothing to wait for. -/
def Awaits.pc : Awaits → WorkerPc
  | .nothing => .pollCq
  | .connection => .waitConnected
  | .disconnection => .waitDisconnected

/-- What the branch of a request waits for. -/
def RdmaReq.awaits (env : ServerEnv) : Option RdmaReq → Awaits
  | some .newRdmaConn => .connection
  | some .delRdmaConn => if env.disconnected then .nothing else .disconnection
  | _ => .nothing

/-- The thread of the host, its queue pair and its `client_r_info`. -/
structure Caller where
  pc : CallerPc
  qp : Qp Request Unit
  rInfo : RInfo

/-- The thread of the server, its queue pair and its `client_r_info`; a message in flight is
given with the memory in which it was posted. -/
structure Worker where
  pc : WorkerPc
  qp : Qp ByteMem (BitVec 32)
  cInfo : ClientRInfo

/-- The two ends of a connection. -/
structure Session where
  host : Caller
  server : Worker

/-- The messages are written between two calls; a call starts; a step of the host; a step of the
server, of which serving a request has what the request meets; `connect_client_r_info` returns
that waited for a client; an arrival; a completion. -/
inductive SessionAct where
  | edit (m : ByteMem)
  | call (a : ReqArgs)
  | host
  | server
  | serve (env : PostingEnv)
  | connectReturn
  | arriveAtServer
  | arriveAtHost
  | completeHost
  | completeServer

namespace Session

/-- A connection that is set up, with the completions of the set-up that the server has not
polled. -/
def connected (h : RInfo) (c : ClientRInfo) (sends : ℕ) : Session :=
  ⟨⟨.idle, .create, h⟩, ⟨.pollCq, ⟨1, [], [], List.replicate sends .send⟩, c⟩⟩

/-- The messages are written between two calls. -/
def editStep (s : Session) (m : ByteMem) : Option Caller :=
  match s.host.pc with
  | .idle => some { s.host with rInfo := { s.host.rInfo with mem := m } }
  | _ => none

/-- The start of `set_req_sock` for a request that exists, with `post_recv_rtn`. -/
def callStep (s : Session) (a : ReqArgs) : Option Caller :=
  match s.host.pc with
  | .idle =>
      if (RdmaReq.ofCode a.reqRdma).isSome ∧ s.host.rInfo.rtnMr then
        (prepareRequest s.host.rInfo a).map fun h => ⟨.postWriteReq a, s.host.qp.postRecv, h⟩
      else none
  | _ => none

/-- The next step of the thread of the host in `set_req_sock`. -/
def hostStep (s : Session) : Option Caller :=
  match s.host.pc with
  | .idle => none
  | .postWriteReq a =>
      let posted := s.host.rInfo.posted
      some ⟨.pollCq a posted, s.host.qp.postSend (.writeWithImm posted), s.host.rInfo⟩
  | .pollCq a posted => s.host.qp.poll.map fun (wc, qp) =>
      match wc with
      | .recvRdmaWithImm _ => ⟨.idle, qp, (finishRequest s.host.rInfo posted a).rInfo⟩
      | _ => ⟨.pollCq a posted, qp, s.host.rInfo⟩

/-- The next step of the thread of the server, if it is not to serve a request. -/
def serverStep (s : Session) : Option Worker :=
  let q := s.server.qp
  let c := s.server.cInfo
  match s.server.pc with
  | .pollCq => q.poll.map fun (wc, q) =>
      match wc with
      | .recvRdmaWithImm imm => ⟨.received imm, q, c⟩
      | _ => ⟨.pollCq, q, c⟩
  | .received imm => some ⟨.serve imm, q.postRecv, c⟩
  | .serve _ => none
  | .reply req 0 awaits =>
      some ⟨.finish req (Chunked c.mem) awaits, q.postSend (.writeWithImm c.mem), c⟩
  | .reply req (posts + 1) awaits =>
      some ⟨.reply req posts awaits, q.postSend (.writeWithImm c.mem), c⟩
  | .finish req chunked awaits => some ⟨awaits.pc, q, c.finish req chunked⟩
  | .waitConnected => none
  | .waitDisconnected => none

/-- The handler of the request. -/
def serveStep (s : Session) (env : PostingEnv) : Option Worker :=
  match s.server.pc with
  | .serve imm =>
      let c := { s.server.cInfo with sockfd := htonl imm }
      let awaits := RdmaReq.awaits env c.request
      some ⟨.reply c.request (messageCount env c - 1) awaits, s.server.qp, c.prepare env⟩
  | _ => none

/-- `connect_client_r_info` returns; whether the client is connected or not, the thread goes back to
its loop. -/
def connectReturnStep (s : Session) : Option Worker :=
  match s.server.pc with
  | .waitConnected => some { s.server with pc := .pollCq }
  | _ => none

/-- The arrival of a request: the network card writes it into the memory of the server. -/
def arriveAtServer (s : Session) : Option Session :=
  match s.host.qp.depart with
  | none => none
  | some (m, q) =>
      let c := s.server.cInfo
      let c := match m with
        | .send => c
        | .writeWithImm req => { c with mem := c.mem.store 0 (req.mem.load 0 reqSize) }
      (s.server.qp.receive (m.recvWc Request.immData)).map fun q' =>
        ⟨{ s.host with qp := q }, ⟨s.server.pc, q', c⟩⟩

/-- The arrival of a reply: the network card reads it from the memory of the server. -/
def arriveAtHost (s : Session) : Option Session :=
  match s.server.qp.depart with
  | none => none
  | some (m, q) =>
      let h := s.host.rInfo.receive (s.server.cInfo.mem.load rtnErrno rtnSize)
      (s.host.qp.receive (m.recvWc fun _ => ())).map fun q' =>
        ⟨⟨s.host.pc, q', h⟩, { s.server with qp := q }⟩

/-- The state after an action. -/
def step (s : Session) : SessionAct → Option Session
  | .edit m => (s.editStep m).map fun host => { s with host }
  | .call a => (s.callStep a).map fun host => { s with host }
  | .host => s.hostStep.map fun host => { s with host }
  | .server => s.serverStep.map fun server => { s with server }
  | .serve env => (s.serveStep env).map fun server => { s with server }
  | .connectReturn => s.connectReturnStep.map fun server => { s with server }
  | .arriveAtServer => s.arriveAtServer
  | .arriveAtHost => s.arriveAtHost
  | .completeHost => s.host.qp.complete.map fun qp => { s with host := { s.host with qp } }
  | .completeServer => s.server.qp.complete.map fun qp => { s with server := { s.server with qp } }

/-- If the action is the arrival of a request, then the server is not about to clear a request;
if it is the arrival of a reply, then the reply is as it was posted; if it serves a request, then
the request is answered with one message. -/
def Timely (s : Session) : SessionAct → Prop
  | .arriveAtServer => ∀ chunked awaits, s.server.pc ≠ .finish (some .write) chunked awaits
  | .arriveAtHost => ∀ m, s.server.qp.inFlight.head? = some (.writeWithImm m) →
      s.server.cInfo.mem.AgreeOn m rtnErrno rtnSize
  | .serve env => ∀ imm, s.server.pc = .serve imm →
      ¬ (s.server.cInfo.request = some .read ∧ 599988 ≤ env.val.outcome.ret.toInt)
  | _ => True

end Session

/-! ### The three parts of serving a request -/

/-- The branch of the request posts the reply that is in `y`, and then clears its buffer. -/
structure Posts (env : ServerEnv) (c : ClientRInfo) (req : Option RdmaReq) (y : Exec) : Prop where
  silent : ∀ e ∈ y.trace, ¬ e.1.IsPost
  posts : y.posts = 0
  trace : ∃ rest, (serve env (.start c) req).trace = (reply env y).trace ++ rest ∧
    ∀ e ∈ rest, ¬ e.1.IsPost
  mem : (serve env (.start c) req).cInfo.mem = branchCleared (reply env y).cInfo.mem req

/-- A branch that executes a handler, replies, and clears its buffer. -/
theorem posts_handled {env : ServerEnv} {c : ClientRInfo} {req : RdmaReq} (hd : Handled)
    (h : serve env (.start c) (some req) = reply env ((Exec.start c).handled hd) ∧
        (∀ m, branchCleared m (some req) = m) ∨
      serve env (.start c) (some req) = (reply env ((Exec.start c).handled hd)).assign
        (branchCleared (reply env ((Exec.start c).handled hd)).cInfo.mem (some req))) :
  Posts env c (some req) ((Exec.start c).handled hd)
  := by
  obtain ⟨tr, heq, htr⟩ := Exec.handled_start c hd
  obtain ⟨h, hclear⟩ | h := h
  · constructor
    · rw [heq]
      apply htr
    · rw [heq]
    · use []
      rw [h, List.append_nil]
      simp
    · rw [h, hclear]
  · constructor
    · rw [heq]
      apply htr
    · rw [heq]
    · rw [h, Exec.assign_trace]
      exact ⟨_, rfl, by simp [ServerAct.IsPost]⟩
    · rw [h]
      rfl

/-- A branch that goes on with actions that leave its messages alone. -/
theorem posts_acts {env : ServerEnv} {c : ClientRInfo} {req : RdmaReq} {y : Exec}
    (acts : List ServerAct) (hsilent : ∀ e ∈ y.trace, ¬ e.1.IsPost) (hposts : y.posts = 0)
    (hacts : ∀ a ∈ acts, a.Silent) (hclear : ∀ m, branchCleared m (some req) = m)
    (h : serve env (.start c) (some req) = acts.foldl Exec.act (reply env y)) :
  Posts env c (some req) y
  := by
  have hfold : ∀ x : Exec, (acts.foldl Exec.act x).cInfo = x.cInfo ∧
      (acts.foldl Exec.act x).trace = x.trace ++ acts.map fun a => (a, x.cInfo.mem) := by
    clear h hacts
    induction acts with
    | nil => simp
    | cons a acts ih =>
        intro x
        obtain ⟨hcInfo, htrace⟩ := ih (x.act a)
        rw [List.foldl_cons, hcInfo, htrace]
        simp [Exec.act]
  obtain ⟨hcInfo, htrace⟩ := hfold (reply env y)
  constructor
  · apply hsilent
  · apply hposts
  · rw [h, htrace]
    refine ⟨_, rfl, ?_⟩
    intro e he
    obtain ⟨a, ha, rfl⟩ := List.mem_map.mp he
    apply (hacts a ha).not_isPost
  · rw [h, hcInfo, hclear]

theorem silent_assign (c : ClientRInfo) (m : ByteMem) :
  ∀ e ∈ ((Exec.start c).assign m).trace, ¬ e.1.IsPost
  := by
  simp [Exec.start, Exec.assign, Exec.act, ServerAct.IsPost]

theorem exists_posts (env : ServerEnv) (c : ClientRInfo) (req : Option RdmaReq) :
  ∃ y, Posts env c req y
  := by
  cases req with
  | none =>
      use (Exec.start c).assign (setValue c.mem (-1))
      refine ⟨silent_assign c _, rfl, ⟨[], (List.append_nil _).symm, by simp⟩, rfl⟩
  | some req =>
      cases req with
      | write | select => exact ⟨_, posts_handled _ (Or.inr rfl)⟩
      | epollCreate1 =>
          by_cases hret : (sockEpollCreate1 env.toHandlerEnv c.mem).ret.toInt < 0
          · exact ⟨_, posts_handled _ (Or.inl ⟨if_pos hret, fun _ => rfl⟩)⟩
          · obtain ⟨tr, heq, htr⟩ := Exec.handled_start c (sockEpollCreate1 env.toHandlerEnv c.mem)
            use ((Exec.start c).handled (sockEpollCreate1 env.toHandlerEnv c.mem)).setSockfd
              (sockEpollCreate1 env.toHandlerEnv c.mem).ret
            apply posts_acts [.socketInsertByValue (sockEpollCreate1 env.toHandlerEnv c.mem).ret]
              (y := ((Exec.start c).handled _).setSockfd _)
            · rw [heq]
              apply htr
            · rw [heq]
              rfl
            · simp [ServerAct.Silent]
            · exact fun _ => rfl
            · exact if_neg hret
      | newRdmaConn =>
          use (Exec.start c).assign (setValue c.mem 1)
          by_cases hconnect : env.connect = 0
          · apply posts_acts [.connectClientRInfo env.connect, .pthreadCreate env.pthreadCreate]
              (silent_assign c _) rfl (by simp [ServerAct.Silent]) (fun _ => rfl)
            exact if_neg (not_not.mpr hconnect)
          · apply posts_acts [.connectClientRInfo env.connect] (silent_assign c _) rfl
              (by simp [ServerAct.Silent]) (fun _ => rfl)
            exact if_pos hconnect
      | delRdmaConn =>
          use (Exec.start c).assign (setValue c.mem 1)
          by_cases hgone : env.disconnected
          · apply posts_acts [.cleanup, .deleteByKey c.sockfd] (silent_assign c _) rfl
              (by simp [ServerAct.Silent]) (fun _ => rfl)
            exact if_pos hgone
          · apply posts_acts [] (silent_assign c _) rfl (by simp) (fun _ => rfl)
            exact if_neg hgone
      | _ => exact ⟨_, posts_handled _ (Or.inl ⟨rfl, fun _ => rfl⟩)⟩

/-- A request that is answered with one message is served in three parts: the handler, the
posting of the reply, and what is left then. -/
theorem finish_prepare {env : PostingEnv} {c : ClientRInfo} (h : messageCount env c = 1) :
  (c.prepare env).finish c.request (Chunked (c.prepare env).mem) =
      (rdmaReqEvent env (.start c)).cInfo ∧
    replies env c = [(c.prepare env).mem]
  := by
  obtain ⟨y, hy⟩ := exists_posts env c c.request
  obtain ⟨ps, rest, hreply⟩ := reply_replied env y
  obtain ⟨rest', htrace, hsilent⟩ := hy.trace
  have hnot : ∀ {l : List Event}, (∀ e ∈ l, ¬ e.1.IsPost) → l.filter (fun e => e.1.IsPost) = [] := by
    intro l hl
    apply List.filter_eq_nil_iff.mpr
    simpa using hl
  have hfilter : (rdmaReqEvent env (.start c)).trace.filter (fun e => e.1.IsPost) = ps := by
    rw [show (rdmaReqEvent env (.start c)).trace = _ from htrace, hreply.trace]
    simp only [List.filter_append]
    rw [hnot hy.silent, hnot fun e he => (hreply.silent e he).not_isPost, hnot hsilent]
    simp only [List.nil_append, List.append_nil]
    apply List.filter_eq_self.mpr
    intro e he
    apply decide_eq_true (hreply.posts e he).1
  have hlen : ps.length = 1 := by
    rw [← hfilter, ← List.countP_eq_length_filter, rdmaReqEvent_posts _ _ env.2, h]
  obtain ⟨e, rfl⟩ := List.length_eq_one_iff.mp hlen
  have hreplies : replies env c = [y.cInfo.mem] := by
    rw [replies, hfilter, ← (hreply.posts e (List.mem_singleton_self e)).2]
    rfl
  have hprepare : (c.prepare env).mem = y.cInfo.mem := by
    rw [ClientRInfo.prepare, hreplies]
    rfl
  constructor
  · have hdone := (hreply.done fun i _ => env.2 _).2.1
    have hmem : (rdmaReqEvent env (.start c)).cInfo.mem = _ := hy.mem
    rw [hdone, settled, dataCleared, ← hprepare] at hmem
    simp only [ClientRInfo.finish, decide_eq_true_eq, ← hmem]
    rfl
  · rw [hreplies, hprepare]

end SocketToRdma
