import SocketToRdma.Codec
import SocketToRdma.Message

/-!
# The socket handlers of the server

Each handler decodes the arguments of a request from `req`, executes the system call, and
fills the reply `rtn`. A handler is a function of the memory of the `client_r_info` and of
what the kernel makes of the call, its `Outcome`; its result is the memory after it, the
system calls it executed, in order, and the value it returned. The socket calls are those of
the IPv4 configuration.
-/

namespace SocketToRdma

/-- A `struct sockaddr_in`; the port and the address are in network byte order. -/
structure SockaddrIn where
  sinFamily : BitVec 16
  sinPort : BitVec 16
  sAddr : BitVec 32

/-- `INADDR_ANY` -/
def inaddrAny : BitVec 32 := 0

/-- `inet_addr(DEFAULT_RDMA_SERVER_IP)`, the address `10.0.10.2`. -/
def defaultRdmaServerIp : BitVec 32 := 0x020a000a

/-- The system calls of the handlers, with what their arguments point to. -/
inductive Syscall where
  | socket (domain type protocol : BitVec 32)
  | bind (sockfd : BitVec 32) (address : SockaddrIn) (addrlen : BitVec 32)
  | listen (sockfd backlog : BitVec 32)
  | accept (sockfd : BitVec 32) (address : SockaddrIn) (addrlen : BitVec 64)
  | connect (sockfd : BitVec 32) (address : SockaddrIn) (addrlen : BitVec 32)
  | close (sockfd : BitVec 32)
  | send (sockfd : BitVec 32) (data : ByteMem) (len : BitVec 64) (flags : BitVec 32)
  | read (sockfd : BitVec 32) (count : BitVec 64)
  | select (args : SelectArgs)
  | epollCreate1 (flags : BitVec 32)
  | epollCtl (args : EpollCtlArgs)
  | epollWait (epfd maxevents timeout : BitVec 32)
  | poll (args : PollArgs)
  | fcntl (fd cmd : BitVec 32) (arg : Option (Option FcntlArg))
  | setsockopt (sockfd : BitVec 32) (args : SockoptArgs)
  | getsockopt (sockfd : BitVec 32) (args : SockoptArgs)
  | getpeername (sockfd : BitVec 32) (args : AddrArgs)
  | getsockname (sockfd : BitVec 32) (args : AddrArgs)

/-- What the kernel makes of a system call: the value returned, `errno` after the call, the
bytes it left in the buffers it was given, and the length it left. -/
structure Outcome where
  ret : BitVec 64
  errno : BitVec 32
  buf : ByteMem
  len : BitVec 32

/-- The value of a call that returns an `int`. -/
def Outcome.int (o : Outcome) : BitVec 32 :=
  o.ret.setWidth 32

/-- What a handler meets: the outcome of its system call, whether `malloc` succeeds, and the
bytes of its uninitialized local variables. -/
structure HandlerEnv where
  outcome : Outcome
  malloc : Bool
  locals : ByteMem

/-- The memory after a handler, the system calls it executed, and the value it returned. -/
structure Handled where
  mem : ByteMem
  syscalls : List Syscall
  ret : BitVec 32

/-! ### The messages -/

/-- A memory of zeros. -/
def zeros : ByteMem :=
  fun _ => 0

/-- `req.rdma_req` -/
def rdmaReq (m : ByteMem) : BitVec 32 :=
  m.loadBits 32 reqRdmaReq

/-- `req.buf_sz` -/
def bufSz (m : ByteMem) : BitVec 64 :=
  m.loadBits 64 reqBufSz

/-- `req.port` -/
def port (m : ByteMem) : BitVec 16 :=
  m.loadBits 16 reqPort

/-- `rtn.errno_` -/
def errno (m : ByteMem) : BitVec 32 :=
  m.loadBits 32 rtnErrno

/-- `rtn.rtn_value` -/
def value (m : ByteMem) : BitVec 64 :=
  m.loadBits 64 rtnValue

/-- `rtn.errno_` set -/
def setErrno (m : ByteMem) (e : BitVec 32) : ByteMem :=
  m.storeBits rtnErrno e

/-- `rtn.rtn_value` set -/
def setValue (m : ByteMem) (v : BitVec 64) : ByteMem :=
  m.storeBits rtnValue v

/-- `rtn.rtn_value` set, and `rtn.errno_` too if the call failed. -/
def fillRtn (m : ByteMem) (v : BitVec 64) (failed : Prop) [Decidable failed] (e : BitVec 32) :
    ByteMem :=
  if failed then setErrno (setValue m v) e else setValue m v

@[simp]
theorem value_setValue (m : ByteMem) (v : BitVec 64) :
  value (setValue m v) = v
  := ByteMem.loadBits_storeBits m rtnValue v (by decide)

@[simp]
theorem value_setErrno (m : ByteMem) (e : BitVec 32) :
  value (setErrno m e) = value m
  := ByteMem.loadBits_storeBits_of_disjoint m rtnErrno e (Or.inr (by decide))

@[simp]
theorem errno_setErrno (m : ByteMem) (e : BitVec 32) :
  errno (setErrno m e) = e
  := ByteMem.loadBits_storeBits m rtnErrno e (by decide)

@[simp]
theorem errno_setValue (m : ByteMem) (v : BitVec 64) :
  errno (setValue m v) = errno m
  := ByteMem.loadBits_storeBits_of_disjoint m rtnValue v (Or.inl (by decide))

/-! ### The handlers -/

/-- The address a handler sets up from the port of the request. -/
def sockAddress (m : ByteMem) (addr : BitVec 32) : SockaddrIn :=
  ⟨2, htons (port m), addr⟩

/-- The reply of a call that returns an `int`, negative when the call failed. -/
def intReply (m : ByteMem) (o : Outcome) : ByteMem :=
  fillRtn m (o.int.signExtend 64) (o.int.toInt < 0) o.errno

/-- `sock_socket`: a descriptor `0` counts as a failure. -/
def sockSocket (env : HandlerEnv) (m : ByteMem) : Handled where
  mem := fillRtn m (env.outcome.int.signExtend 64) (env.outcome.int.toInt ≤ 0) env.outcome.errno
  syscalls := [.socket 2 1 0]
  ret := env.outcome.int

/-- `sock_bind` -/
def sockBind (env : HandlerEnv) (m : ByteMem) (sockfd : BitVec 32) : Handled where
  mem := intReply m env.outcome
  syscalls := [.bind sockfd (sockAddress m inaddrAny) 16]
  ret := env.outcome.int

/-- `sock_listen` -/
def sockListen (env : HandlerEnv) (m : ByteMem) (sockfd : BitVec 32) : Handled where
  mem := intReply m env.outcome
  syscalls := [.listen sockfd 1024]
  ret := env.outcome.int

/-- `sock_accept`: the length is passed in place of a pointer to it. -/
def sockAccept (env : HandlerEnv) (m : ByteMem) (sockfd : BitVec 32) : Handled where
  mem := intReply m env.outcome
  syscalls := [.accept sockfd (sockAddress m inaddrAny) 16]
  ret := env.outcome.int

/-- `sock_close` -/
def sockClose (env : HandlerEnv) (m : ByteMem) (sockfd : BitVec 32) : Handled where
  mem := intReply m env.outcome
  syscalls := [.close sockfd]
  ret := env.outcome.int

/-- `sock_connect` -/
def sockConnect (env : HandlerEnv) (m : ByteMem) (sockfd : BitVec 32) : Handled where
  mem := intReply m env.outcome
  syscalls := [.connect sockfd (sockAddress m defaultRdmaServerIp) 16]
  ret := env.outcome.int

/-- `sock_send_message`: the size is narrowed to an `int` and widened again for `send`. -/
def sockSendMessage (env : HandlerEnv) (m : ByteMem) (sockfd : BitVec 32) : Handled where
  mem := fillRtn m env.outcome.ret (env.outcome.ret.toInt < 0) env.outcome.errno
  syscalls :=
    [.send sockfd (fun j => m (reqData + j)) (((bufSz m).setWidth 32).signExtend 64) 0]
  ret := env.outcome.int

/-- `sock_read_message`: `errno_` is set when nothing was read, and cleared otherwise. -/
def sockReadMessage (env : HandlerEnv) (m : ByteMem) (sockfd : BitVec 32) : Handled where
  mem :=
    let o := env.outcome
    let m := m.store rtnData (o.buf.load 0 o.ret.toInt.toNat)
    setErrno (setValue m o.ret) (if o.ret.toInt ≤ 0 then o.errno else 0)
  syscalls := [.read sockfd (((bufSz m).setWidth 32).signExtend 64)]
  ret := env.outcome.int

/-- The arguments of `select` decoded from the request; the sets are uninitialized local
variables, the timeout is zero. -/
def selectArgs (env : HandlerEnv) (m : ByteMem) : SelectArgs :=
  deserializeSelectFdSet m reqData
    { nfds := env.locals.loadBits 32 384
      readfds := some (env.locals.load 0 128)
      writefds := some (env.locals.load 128 128)
      exceptfds := some (env.locals.load 256 128)
      timeout := some (Block.fill 16 0) }

/-- The arguments `select` left. -/
def selectResult (o : Outcome) (nfds : BitVec 32) : SelectArgs where
  nfds := nfds
  readfds := some (o.buf.load 0 128)
  writefds := some (o.buf.load 128 128)
  exceptfds := some (o.buf.load 256 128)
  timeout := some (o.buf.load 384 16)

/-- `sock_select` -/
def sockSelect (env : HandlerEnv) (m : ByteMem) : Handled where
  mem :=
    let o := env.outcome
    let m' := fillRtn m (o.int.signExtend 64) (o.int = -1) o.errno
    if 0 < o.int.toInt then
      serializeSelectFdSet m' rtnData (selectResult o (selectArgs env m).nfds)
    else m'
  syscalls := [.select (selectArgs env m)]
  ret := env.outcome.int

/-- `sock_epoll_create1` -/
def sockEpollCreate1 (env : HandlerEnv) (m : ByteMem) : Handled where
  mem := fillRtn m (env.outcome.int.signExtend 64) (env.outcome.int = -1) env.outcome.errno
  syscalls := [.epollCreate1 (deserializeEpollCreateDt m reqData)]
  ret := env.outcome.int

/-- `sock_epoll_ctl`: both descriptors are probed with `fcntl` first. -/
def sockEpollCtl (env : HandlerEnv) (m : ByteMem) : Handled where
  mem := fillRtn m (env.outcome.int.signExtend 64) (env.outcome.int = -1) env.outcome.errno
  syscalls :=
    let args := deserializeEpollCtlDt m reqData
    [.fcntl args.epfd fGetfd none, .fcntl args.fd fGetfd none, .epollCtl args]
  ret := if env.outcome.int = -1 then -1 else 0

/-- `sock_epoll_wait` -/
def sockEpollWait (env : HandlerEnv) (m : ByteMem) : Handled where
  mem :=
    let o := env.outcome
    let m' := fillRtn m (o.int.signExtend 64) (o.int = -1) o.errno
    if o.int = -1 then m'
    else
      serializeEpollWaitDt m' rtnData { deserializeEpollWaitDt m reqData with nfds := o.int } o.buf
  syscalls :=
    let args := deserializeEpollWaitDt m reqData
    [.epollWait args.epfd args.maxevents args.timeout]
  ret := env.outcome.int

/-- The arguments of `poll` decoded from the request. -/
def pollArgs (env : HandlerEnv) (m : ByteMem) : PollArgs :=
  deserializePollPollfd m reqData env.malloc

/-- The arguments `poll` left: only the returned events, the last two bytes of each entry,
change. -/
def pollResult (o : Outcome) (args : PollArgs) : PollArgs :=
  { args with fds := args.fds.map fun fds j => if 6 ≤ j % 8 then o.buf j else fds j }

/-- `sock_poll` -/
def sockPoll (env : HandlerEnv) (m : ByteMem) : Handled where
  mem :=
    let o := env.outcome
    let m' := intReply m o
    if o.int.toInt < 0 then m' else serializePollPollfd m' rtnData (pollResult o (pollArgs env m))
  syscalls := [.poll (pollArgs env m)]
  ret := env.outcome.int

/-- `sock_fcntl` -/
def sockFcntl (env : HandlerEnv) (m : ByteMem) (sockfd : BitVec 32) : Handled where
  mem := intReply m env.outcome
  syscalls :=
    let args := deserializeFcntlDt m reqData env.malloc
    [.fcntl sockfd args.cmd (if args.flag = 0 then none else some args.arg)]
  ret := if env.outcome.int.toInt < 0 then -1 else env.outcome.int

/-- `sock_setsockopt`: `rtn_value` is not set. -/
def sockSetsockopt (env : HandlerEnv) (m : ByteMem) (sockfd : BitVec 32) : Handled where
  mem := if env.outcome.int.toInt < 0 then setErrno m env.outcome.errno else m
  syscalls := [.setsockopt sockfd (deserializeSockoptDt m reqData env.malloc)]
  ret := if env.outcome.int.toInt < 0 then -1 else env.outcome.int

/-- `sock_getsockopt`: `rtn_value` is not set. -/
def sockGetsockopt (env : HandlerEnv) (m : ByteMem) (sockfd : BitVec 32) : Handled where
  mem :=
    let o := env.outcome
    let args := deserializeSockoptDt m reqData env.malloc
    if o.int.toInt < 0 then setErrno m o.errno
    else serializeSockoptDt m rtnData args.level args.optname o.buf o.len
  syscalls := [.getsockopt sockfd (deserializeSockoptDt m reqData env.malloc)]
  ret := if env.outcome.int.toInt < 0 then -1 else env.outcome.int

/-- The reply of the two calls that return an address. -/
def addrReply (m : ByteMem) (o : Outcome) : ByteMem :=
  if o.int.toInt < 0 then intReply m o
  else serializeAddrDt (intReply m o) rtnData ⟨o.len, o.buf.load 0 16⟩

/-- `sock_getpeername` -/
def sockGetpeername (env : HandlerEnv) (m : ByteMem) (sockfd : BitVec 32) : Handled where
  mem := addrReply m env.outcome
  syscalls := [.getpeername sockfd (deserializeAddrDt m reqData)]
  ret := if env.outcome.int.toInt < 0 then -1 else env.outcome.int

/-- `sock_getsockname` -/
def sockGetsockname (env : HandlerEnv) (m : ByteMem) (sockfd : BitVec 32) : Handled where
  mem := addrReply m env.outcome
  syscalls := [.getsockname sockfd (deserializeAddrDt m reqData)]
  ret := if env.outcome.int.toInt < 0 then -1 else env.outcome.int

end SocketToRdma
