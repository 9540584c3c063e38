import SocketToRdma.Server.Socket

/-!
# Serving a request

The server thread of a connection executes `rdma_req_event` on every request it receives.
An execution is a state transformer on the `client_r_info` of the connection that also
records its trace: every action of the thread, with the memory of the `client_r_info` after
it. A reply is posted with `ibv_post_send`; the bytes of the message are not copied then but
later, so the posting records only the work request.

What the thread does not control is taken from the environment: the outcome of the system
call, the results of the successive calls of `ibv_post_send`, and what happens to the
connection that is set up or torn down.
-/

namespace SocketToRdma

/-- A `struct ibv_mr` -/
structure Mr where
  addr : BitVec 64
  length : BitVec 64
  lkey : BitVec 32

/-- A `struct ibv_sge` -/
structure Sge where
  addr : BitVec 64
  length : BitVec 32
  lkey : BitVec 32

/-- The fields of a `struct rdma_buffer_attr` that a reply uses. -/
structure RdmaBufferAttr where
  address : BitVec 64
  remoteStag : BitVec 32

/-- A signaled `IBV_WR_RDMA_WRITE_WITH_IMM` work request with one scatter-gather entry. -/
structure SendWr where
  sge : Sge
  immData : BitVec 32
  remoteAddr : BitVec 64
  rkey : BitVec 32

/-- The `client_r_info` of a connection that is set up; `mem` holds its two messages. -/
structure ClientRInfo where
  mem : ByteMem
  sockfd : BitVec 32
  rtnMr : Mr
  clientMetadataAttr : RdmaBufferAttr
  serverSendSge : Sge

/-- What the server thread meets while it serves a request. -/
structure ServerEnv extends HandlerEnv where
  post : ℕ → BitVec 32
  connect : BitVec 32
  pthreadCreate : BitVec 32
  disconnected : Bool

/-- The actions of the server thread. -/
inductive ServerAct where
  | syscall (call : Syscall)
  | assign
  | postSend (wr : SendWr) (ret : BitVec 32)
  | socketInsertByValue (epfd : BitVec 32)
  | connectClientRInfo (ret : BitVec 32)
  | pthreadCreate (ret : BitVec 32)
  | cleanup
  | deleteByKey (sockfd : BitVec 32)

/-- The action posts a message. -/
def ServerAct.IsPost : ServerAct → Prop
  | .postSend _ _ => True
  | _ => False

instance : DecidablePred ServerAct.IsPost := fun a => by
  cases a <;> unfold ServerAct.IsPost <;> infer_instance

/-- The action neither posts a message nor executes a system call of a handler. -/
def ServerAct.Silent : ServerAct → Prop
  | .postSend _ _ | .syscall _ => False
  | _ => True

/-- An action, with the memory after it. -/
abbrev Event : Type := ServerAct × ByteMem

/-- The system calls of a trace, in order. -/
def calls (trace : List Event) : List Syscall :=
  trace.filterMap fun
    | (.syscall call, _) => some call
    | _ => none

/-- The `client_r_info` after an execution, the number of messages it posted or tried to
post, and its trace. -/
structure Exec where
  cInfo : ClientRInfo
  posts : ℕ
  trace : List Event

namespace Exec

/-- The execution that starts. -/
def start (c : ClientRInfo) : Exec :=
  ⟨c, 0, []⟩

/-- An action that leaves the `client_r_info` alone. -/
def act (x : Exec) (a : ServerAct) : Exec :=
  { x with trace := x.trace ++ [(a, x.cInfo.mem)] }

@[simp]
theorem act_cInfo (x : Exec) (a : ServerAct) :
  (x.act a).cInfo = x.cInfo
  := rfl

/-- The memory is written. -/
def assign (x : Exec) (m : ByteMem) : Exec :=
  act { x with cInfo := { x.cInfo with mem := m } } .assign

/-- A handler is executed. -/
def handled (x : Exec) (h : Handled) : Exec :=
  (h.syscalls.foldl (fun x call => x.act (.syscall call)) x).assign h.mem

/-- `sockfd` is set. -/
def setSockfd (x : Exec) (sockfd : BitVec 32) : Exec :=
  { x with cInfo := { x.cInfo with sockfd } }

/-- `server_send_sge.length` is set. -/
def setSgeLength (x : Exec) (length : BitVec 32) : Exec :=
  { x with cInfo := { x.cInfo with serverSendSge := { x.cInfo.serverSendSge with length } } }

end Exec

/-- `post_write_rtn`: the entry is set to the whole region of the reply. -/
def postWriteRtn (env : ServerEnv) (x : Exec) : Exec × BitVec 32 :=
  let c := x.cInfo
  let sge : Sge := ⟨c.rtnMr.addr, c.rtnMr.length.setWidth 32, c.rtnMr.lkey⟩
  let wr : SendWr :=
    { sge := sge
      immData := htonl c.sockfd
      remoteAddr := c.clientMetadataAttr.address
      rkey := c.clientMetadataAttr.remoteStag }
  let ret := env.post x.posts
  let x := { x with cInfo := { c with serverSendSge := sge }, posts := x.posts + 1 }
  (x.act (.postSend wr ret), ret)

/-- The number of bytes the chunk loop counts as sent by one message. -/
def bytesToCopy (totalSize offset : ℕ) : ℕ :=
  if totalSize - offset < bufferSize then totalSize - offset else bufferSize - headerSz

theorem bytesToCopy_pos {totalSize offset : ℕ} (h : offset < totalSize) :
  0 < bytesToCopy totalSize offset
  := by
  unfold bytesToCopy
  split
  · omega
  · decide

/-- The chunk loop of `write_msg_to_client`. -/
def postChunks (env : ServerEnv) (totalSize offset : ℕ) (x : Exec) : Exec × BitVec 32 :=
  if offset < totalSize then
    let bytes := bytesToCopy totalSize offset
    let y := postWriteRtn env (x.setSgeLength (BitVec.ofNat 32 (bytes + 1)))
    if y.2 ≠ 0 then y else postChunks env totalSize (offset + bytes) y.1
  else (x, 0)
termination_by totalSize - offset
decreasing_by
  have := bytesToCopy_pos ‹_›
  omega

/-- `write_msg_to_client`. The size of a message to be read is positive, so that the sum with
the header size does not wrap. -/
def writeMsgToClient (env : ServerEnv) (x : Exec) : Exec × BitVec 32 :=
  let m := x.cInfo.mem
  if rdmaReq m = RdmaReq.read.code ∧ 0 < (value m).toInt then
    let y := postChunks env (headerSz + (value m).toNat) 0 x
    if y.2 ≠ 0 then y
    else
      -- only as many bytes are cleared as the offset is wide
      let z := y.1.assign (y.1.cInfo.mem.memset rtnData 0 8)
      (z.assign (setErrno z.cInfo.mem 0), 0)
  else
    let y := postWriteRtn env x
    if y.2 ≠ 0 then y else (y.1.assign (setErrno y.1.cInfo.mem 0), 0)

/-- `write_msg_to_client` where its value is ignored. -/
def reply (env : ServerEnv) (x : Exec) : Exec :=
  (writeMsgToClient env x).1

/-- The branches of `rdma_req_event`. -/
def serve (env : ServerEnv) (x : Exec) : Option RdmaReq → Exec :=
  let c := x.cInfo
  let h := env.toHandlerEnv
  fun
  | some .socket => reply env (x.handled (sockSocket h c.mem))
  | some .accept => reply env (x.handled (sockAccept h c.mem c.sockfd))
  | some .connect => reply env (x.handled (sockConnect h c.mem c.sockfd))
  | some .close => reply env (x.handled (sockClose h c.mem c.sockfd))
  | some .read => reply env (x.handled (sockReadMessage h c.mem c.sockfd))
  | some .write =>
      let x := reply env (x.handled (sockSendMessage h c.mem c.sockfd))
      -- the size is that of the whole message, so that the start of `rtn` is cleared as well
      x.assign (x.cInfo.mem.memset reqData 0 reqSize)
  | some .bind => reply env (x.handled (sockBind h c.mem c.sockfd))
  | some .listen => reply env (x.handled (sockListen h c.mem c.sockfd))
  | some .select =>
      let x := reply env (x.handled (sockSelect h c.mem))
      x.assign (x.cInfo.mem.memset rtnData 0 rtnSize)
  | some .epollCreate1 =>
      let created := sockEpollCreate1 h c.mem
      let x := x.handled created
      if created.ret.toInt < 0 then reply env x
      else (reply env (x.setSockfd created.ret)).act (.socketInsertByValue created.ret)
  | some .epollCtl => reply env (x.handled (sockEpollCtl h c.mem))
  | some .epollWait => reply env (x.handled (sockEpollWait h c.mem))
  | some .poll => reply env (x.handled (sockPoll h c.mem))
  -- the next five reply in the same way whether the call failed or not
  | some .fcntl => reply env (x.handled (sockFcntl h c.mem c.sockfd))
  | some .setsockopt => reply env (x.handled (sockSetsockopt h c.mem c.sockfd))
  | some .getsockopt => reply env (x.handled (sockGetsockopt h c.mem c.sockfd))
  | some .getpeername => reply env (x.handled (sockGetpeername h c.mem c.sockfd))
  | some .getsockname => reply env (x.handled (sockGetsockname h c.mem c.sockfd))
  | some .newRdmaConn =>
      let x := reply env (x.assign (setValue c.mem 1))
      let x := x.act (.connectClientRInfo env.connect)
      if env.connect ≠ 0 then x else x.act (.pthreadCreate env.pthreadCreate)
  | some .delRdmaConn =>
      let x := reply env (x.assign (setValue c.mem 1))
      -- the thread waits for the disconnection, for ever if it does not come
      if env.disconnected then (x.act .cleanup).act (.deleteByKey c.sockfd) else x
  | none => reply env (x.assign (setValue c.mem (-1)))

/-- `rdma_req_event` -/
def rdmaReqEvent (env : ServerEnv) (x : Exec) : Exec :=
  serve env x (RdmaReq.ofCode (rdmaReq x.cInfo.mem))

end SocketToRdma
