import SocketToRdma.Codec
import SocketToRdma.Message
import SocketToRdma.Table.FdLayout

/-!
# The hooks of the host

Each hooked libc function looks its descriptor up in `fd_ht` and either calls the original
function or forwards the call to the server with `set_req_sock`. A hook is a function of
the table and of what the call meets outside it, `HookEnv`; its result is the table after the
call, the request it forwarded, if any, and the value it returned. A hook that goes on with
the null pointer `get_r_info` returned has no result.
-/

namespace SocketToRdma

/-- What a hooked call meets outside the hooks: the thread id of the caller, whether
`get_r_info` returns a connection, whether the RDMA library made the call, what `set_req_sock`
returns, what the original function returns, and the allocator. -/
structure HookEnv where
  tid : BitVec 32
  rInfo : Bool
  fromRdmaClient : Bool
  reply : BitVec 32
  original : ℤ
  malloc : Malloc 32

/-- The arguments of `set_req_sock` besides the buffers. -/
structure Forward where
  sockfd : BitVec 32
  req : RdmaReq
  bufSz : BitVec 64
  port : BitVec 16
  deriving DecidableEq

/-- The table after a hooked call, the request forwarded, and the value returned. -/
structure HookResult where
  fdHt : FDHashTable
  forward : Option Forward
  ret : ℤ

/-- The family and the port of a `sockaddr`; the port is in network byte order. -/
structure SockAddr where
  saFamily : BitVec 16
  port : BitVec 16

/-- `AF_INET` -/
def afInet : BitVec 16 := 2

/-- `AF_INET6` -/
def afInet6 : BitVec 16 := 10

/-- The port that `req_connect` reads from an address. -/
def SockAddr.hostPort (addr : SockAddr) : BitVec 16 :=
  if addr.saFamily = afInet then htons addr.port
  else if addr.saFamily = afInet6 then htons addr.port
  else 0

/-! ### Routing -/

/-- The call of the original function. -/
def callOriginal (fdHt : FDHashTable) (env : HookEnv) : HookResult where
  fdHt := fdHt
  forward := none
  ret := env.original

/-- The routing all hooks on a descriptor share: a zero `tid` sends the call to the original
function, any other one to the server, over the connection `get_r_info` returns. -/
def route (tid : BitVec 32) (fdHt : FDHashTable) (env : HookEnv) (forwarded : HookResult) :
    Option HookResult :=
  if tid = 0 then some (callOriginal fdHt env)
  else if env.rInfo then some forwarded
  else none

/-- The routing of `req_bind` and `req_listen`, which call the original function also when
there is no connection. -/
def routeIfConnected (tid : BitVec 32) (fdHt : FDHashTable) (env : HookEnv)
    (forwarded : HookResult) : Option HookResult :=
  if tid = 0 then some (callOriginal fdHt env)
  else if env.rInfo then some forwarded
  else some (callOriginal fdHt env)

/-- The call forwarded to the server, whose reply the hook returns. -/
def callServer (fdHt : FDHashTable) (env : HookEnv) (sockfd : BitVec 32) (req : RdmaReq)
    (bufSz : BitVec 64) (port : BitVec 16) : HookResult where
  fdHt := fdHt
  forward := some ⟨sockfd, req, bufSz, port⟩
  ret := env.reply.toInt

/-- The descriptor the server returned is entered for the calling thread. -/
def enter (fdHt : FDHashTable) (env : HookEnv) (forward : Forward) : HookResult :=
  let inserted := fdInsertByValue env.malloc fdHt env.reply env.tid
  { fdHt := inserted.1
    forward := some forward
    ret := if inserted.2 then env.reply.toInt else -1 }

/-! ### The hooks -/

/-- `req_sock` -/
def reqSock (fdHt : FDHashTable) (env : HookEnv) : Option HookResult :=
  let forward : Forward := ⟨0, .socket, 0, 0⟩
  if env.rInfo then
    if env.reply.toInt ≤ 0 then some ⟨fdHt, some forward, -1⟩
    else if env.reply.toInt ≤ 2 then some ⟨fdHt, some forward, -1⟩
    else some (enter fdHt env forward)
  else
    none

/-- `req_connect`: the descriptor is entered once more, and the hook returns what the
insertion returns. -/
def reqConnect (fdHt : FDHashTable) (env : HookEnv) (sockfd : BitVec 32) (addr : SockAddr) :
    Option HookResult :=
  let tid := tidBySearchByKey fdHt sockfd
  let inserted := fdInsertByValue env.malloc fdHt sockfd tid
  route tid fdHt env
    { fdHt := inserted.1
      forward := some ⟨sockfd, .connect, 0, addr.hostPort⟩
      ret := if inserted.2 then 1 else -1 }

/-- `req_send` -/
def reqSend (fdHt : FDHashTable) (env : HookEnv) (socket : BitVec 32) (length : BitVec 64) :
    Option HookResult :=
  route (tidBySearchByKey fdHt socket) fdHt env (callServer fdHt env socket .write length 0)

/-- `req_read` -/
def reqRead (fdHt : FDHashTable) (env : HookEnv) (fs : BitVec 32) (n : BitVec 64) :
    Option HookResult :=
  route (tidBySearchByKey fdHt fs) fdHt env (callServer fdHt env fs .read n 0)

/-- `req_write` -/
def reqWrite (fdHt : FDHashTable) (env : HookEnv) (fs : BitVec 32) (n : BitVec 64) :
    Option HookResult :=
  route (fdSearchByKey fdHt fs) fdHt env (callServer fdHt env fs .write n 0)

/-- `req_recv` -/
def reqRecv (fdHt : FDHashTable) (env : HookEnv) (fs : BitVec 32) (length : BitVec 64) :
    Option HookResult :=
  route (tidBySearchByKey fdHt fs) fdHt env (callServer fdHt env fs .read length 0)

/-- `req_close`: an entry of the descriptor is removed, whatever the server replied. -/
def reqClose (fdHt : FDHashTable) (env : HookEnv) (socket : BitVec 32) : Option HookResult :=
  route (tidBySearchByKey fdHt socket) fdHt env
    { callServer fdHt env socket .close 0 0 with fdHt := fdDeleteByKey fdHt socket }

/-- `req_bind`: the port of the request is `8080`. -/
def reqBind (fdHt : FDHashTable) (env : HookEnv) (socket : BitVec 32) : Option HookResult :=
  routeIfConnected (fdSearchByKey fdHt socket) fdHt env (callServer fdHt env socket .bind 0 8080)

/-- `req_listen` -/
def reqListen (fdHt : FDHashTable) (env : HookEnv) (socket : BitVec 32) : Option HookResult :=
  routeIfConnected (fdSearchByKey fdHt socket) fdHt env (callServer fdHt env socket .listen 0 0)

/-- `req_accept` -/
def reqAccept (fdHt : FDHashTable) (env : HookEnv) (socket : BitVec 32) : Option HookResult :=
  let forward : Forward := ⟨socket, .accept, 0, 0⟩
  route (fdSearchByKey fdHt socket) fdHt env
    (if 0 < env.reply.toInt then enter fdHt env forward
      else ⟨fdHt, some forward, env.reply.toInt⟩)

/-- `req_select`: the descriptor looked up is `nfds - 1`. -/
def reqSelect (fdHt : FDHashTable) (env : HookEnv) (nfds : BitVec 32) : Option HookResult :=
  route (fdSearchByKey fdHt (nfds - 1)) fdHt env (callServer fdHt env 0 .select 0 0)

/-- `req_epoll_create1` -/
def reqEpollCreate1 (fdHt : FDHashTable) (env : HookEnv) : Option HookResult :=
  let forward : Forward := ⟨0, .epollCreate1, 0, 0⟩
  if env.rInfo then
    if 0 < env.reply.toInt then some (enter fdHt env forward)
    else some ⟨fdHt, some forward, env.reply.toInt⟩
  else
    some (callOriginal fdHt env)

/-- `req_epoll_ctl` -/
def reqEpollCtl (fdHt : FDHashTable) (env : HookEnv) (epfd : BitVec 32) : Option HookResult :=
  route (fdSearchByKey fdHt epfd) fdHt env (callServer fdHt env epfd .epollCtl 0 0)

/-- `req_epoll_wait` -/
def reqEpollWait (fdHt : FDHashTable) (env : HookEnv) (epfd : BitVec 32) : Option HookResult :=
  route (fdSearchByKey fdHt epfd) fdHt env (callServer fdHt env epfd .epollWait 0 0)

/-- `req_poll`: the descriptor looked up is `fds[0].fd`. -/
def reqPoll (fdHt : FDHashTable) (env : HookEnv) (fd : BitVec 32) : Option HookResult :=
  route (fdSearchByKey fdHt fd) fdHt env (callServer fdHt env fd .poll 0 0)

/-- `req_fcntl`: the encoder of the arguments takes `&fd` for its `flag`, so that the request is
sent with the flag for its descriptor. -/
def reqFcntl (fdHt : FDHashTable) (env : HookEnv) (fd cmd : BitVec 32) : Option HookResult :=
  route (fdSearchByKey fdHt fd) fdHt env (callServer fdHt env (fcntlFlag cmd) .fcntl 0 0)

/-- `req_setsockopt` -/
def reqSetsockopt (fdHt : FDHashTable) (env : HookEnv) (sockfd : BitVec 32) : Option HookResult :=
  route (fdSearchByKey fdHt sockfd) fdHt env (callServer fdHt env sockfd .setsockopt 0 0)

/-- `req_getsockopt` -/
def reqGetsockopt (fdHt : FDHashTable) (env : HookEnv) (sockfd : BitVec 32) : Option HookResult :=
  route (fdSearchByKey fdHt sockfd) fdHt env (callServer fdHt env sockfd .getsockopt 0 0)

/-- `req_getpeername`: the request sent is the one of `getsockopt`. -/
def reqGetpeername (fdHt : FDHashTable) (env : HookEnv) (sockfd : BitVec 32) :
    Option HookResult :=
  route (fdSearchByKey fdHt sockfd) fdHt env (callServer fdHt env sockfd .getsockopt 0 0)

/-- `req_getsockname` -/
def reqGetsockname (fdHt : FDHashTable) (env : HookEnv) (sockfd : BitVec 32) :
    Option HookResult :=
  route (fdSearchByKey fdHt sockfd) fdHt env (callServer fdHt env sockfd .getsockname 0 0)

/-- `req_pthread_exit`: one entry of the thread is removed. -/
def reqPthreadExit (fdHt : FDHashTable) (env : HookEnv) : Option HookResult :=
  if env.rInfo then
    some ⟨fdDeleteByValue fdHt env.tid, some ⟨0, .delRdmaConn, 0, 0⟩, 0⟩
  else
    none

/-- A call of a hooked libc function. -/
inductive HookCall where
  | socket
  | connect (sockfd : BitVec 32) (addr : SockAddr)
  | send (socket : BitVec 32) (length : BitVec 64)
  | read (fs : BitVec 32) (n : BitVec 64)
  | write (fs : BitVec 32) (n : BitVec 64)
  | recv (fs : BitVec 32) (length : BitVec 64)
  | close (socket : BitVec 32)
  | bind (socket : BitVec 32)
  | listen (socket : BitVec 32)
  | accept (socket : BitVec 32)
  | select (nfds : BitVec 32)
  | epollCreate1
  | epollCtl (epfd : BitVec 32)
  | epollWait (epfd : BitVec 32)
  | poll (fd : BitVec 32)
  | fcntl (fd cmd : BitVec 32)
  | setsockopt (sockfd : BitVec 32)
  | getsockopt (sockfd : BitVec 32)
  | getpeername (sockfd : BitVec 32)
  | getsockname (sockfd : BitVec 32)
  | pthreadExit

namespace HookCall

/-- The hooked functions: `socket` and `read` call the original function when the RDMA
library calls them, the others are their `req_` functions. -/
def run (fdHt : FDHashTable) (env : HookEnv) : HookCall → Option HookResult
  | socket => if env.fromRdmaClient then some (callOriginal fdHt env) else reqSock fdHt env
  | connect sockfd addr => reqConnect fdHt env sockfd addr
  | send fs length => reqSend fdHt env fs length
  | read fs n =>
      if env.fromRdmaClient then some (callOriginal fdHt env) else reqRead fdHt env fs n
  | write fs n => reqWrite fdHt env fs n
  | recv fs length => reqRecv fdHt env fs length
  | close fs => reqClose fdHt env fs
  | bind fs => reqBind fdHt env fs
  | listen fs => reqListen fdHt env fs
  | accept fs => reqAccept fdHt env fs
  | select nfds => reqSelect fdHt env nfds
  | epollCreate1 => reqEpollCreate1 fdHt env
  | epollCtl epfd => reqEpollCtl fdHt env epfd
  | epollWait epfd => reqEpollWait fdHt env epfd
  | poll fd => reqPoll fdHt env fd
  | fcntl fd cmd => reqFcntl fdHt env fd cmd
  | setsockopt sockfd => reqSetsockopt fdHt env sockfd
  | getsockopt sockfd => reqGetsockopt fdHt env sockfd
  | getpeername sockfd => reqGetpeername fdHt env sockfd
  | getsockname sockfd => reqGetsockname fdHt env sockfd
  | pthreadExit => reqPthreadExit fdHt env

/-- The descriptor a call is on: the one its hook looks up. -/
def fd : HookCall → Option (BitVec 32)
  | socket | epollCreate1 | pthreadExit => none
  | connect d _ | send d _ | read d _ | write d _ | recv d _ | close d | bind d | listen d
  | accept d | epollCtl d | epollWait d | poll d | fcntl d _ | setsockopt d | getsockopt d
  | getpeername d | getsockname d => some d
  | select nfds => some (nfds - 1)

/-- The calls that return a new descriptor. -/
def Opens : HookCall → Prop
  | socket | accept _ | epollCreate1 => True
  | _ => False

/-! ### What a call does to the table -/

/-- A routed call is the call of the original function or the forwarded one. -/
theorem route_cases {tid : BitVec 32} {fdHt : FDHashTable} {env : HookEnv}
    {forwarded r : HookResult} (h : route tid fdHt env forwarded = some r) :
  r = callOriginal fdHt env ∨ (tid ≠ 0 ∧ r = forwarded)
  := by
  unfold route at h
  split at h
  · left
    apply (Option.some.inj h).symm
  · right
    split at h
    · exact ⟨by assumption, (Option.some.inj h).symm⟩
    · cases h

/-- What a routed call forwards does not depend on the route. -/
theorem forward_of_route {tid : BitVec 32} {fdHt : FDHashTable} {env : HookEnv}
    {forwarded r : HookResult} {f : Forward} (h : route tid fdHt env forwarded = some r)
    (hf : r.forward = some f) :
  forwarded.forward = some f
  := by
  obtain rfl | ⟨-, rfl⟩ := route_cases h
  · cases hf
  · exact hf

theorem routeIfConnected_cases {tid : BitVec 32} {fdHt : FDHashTable} {env : HookEnv}
    {forwarded r : HookResult} (h : routeIfConnected tid fdHt env forwarded = some r) :
  r = callOriginal fdHt env ∨ (tid ≠ 0 ∧ r = forwarded)
  := by
  unfold routeIfConnected at h
  split at h
  · left
    apply (Option.some.inj h).symm
  · split at h
    · right
      exact ⟨by assumption, (Option.some.inj h).symm⟩
    · left
      apply (Option.some.inj h).symm

/-- A call whose descriptor was found goes to the server. -/
theorem route_of_ne {tid : BitVec 32} {env : HookEnv} (htid : tid ≠ 0) (hinfo : env.rInfo = true)
    (fdHt : FDHashTable) (forwarded : HookResult) :
  route tid fdHt env forwarded = some forwarded
  := by
  rw [route, if_neg htid, if_pos hinfo]

/-- What a hooked call can do to the table: nothing, enter the descriptor that an opening
call returns, enter the descriptor of a `connect` once more, remove an entry of the
descriptor of a `close`, or remove an entry of the thread that exits. -/
inductive Effect (fdHt : FDHashTable) (env : HookEnv) : HookCall → HookResult → Prop where
  | keep {call r} (h : r.fdHt = fdHt) : Effect fdHt env call r
  | enter {call forward} (h : call.Opens) (hreply : 0 < env.reply.toInt) :
      Effect fdHt env call (enter fdHt env forward)
  | connect {d addr r} (htid : tidBySearchByKey fdHt d ≠ 0)
      (h : r.fdHt = (fdInsertByValue env.malloc fdHt d (tidBySearchByKey fdHt d)).1) :
      Effect fdHt env (connect d addr) r
  | close {d r} (htid : tidBySearchByKey fdHt d ≠ 0) (h : r.fdHt = fdDeleteByKey fdHt d) :
      Effect fdHt env (close d) r
  | exit {r} (h : r.fdHt = fdDeleteByValue fdHt env.tid) : Effect fdHt env pthreadExit r

theorem Effect.of_route {call : HookCall} {tid : BitVec 32} {fdHt : FDHashTable} {env : HookEnv}
    {forwarded r : HookResult} (h : route tid fdHt env forwarded = some r)
    (hforwarded : forwarded.fdHt = fdHt) :
  Effect fdHt env call r
  := by
  rcases route_cases h with rfl | ⟨-, rfl⟩
  · exact Effect.keep rfl
  · exact Effect.keep hforwarded

theorem Effect.of_routeIfConnected {call : HookCall} {tid : BitVec 32} {fdHt : FDHashTable}
    {env : HookEnv} {forwarded r : HookResult}
    (h : routeIfConnected tid fdHt env forwarded = some r) (hforwarded : forwarded.fdHt = fdHt) :
  Effect fdHt env call r
  := by
  rcases routeIfConnected_cases h with rfl | ⟨-, rfl⟩
  · exact Effect.keep rfl
  · exact Effect.keep hforwarded

/-- Every call has one of the effects. -/
theorem run_effect {call : HookCall} {fdHt : FDHashTable} {env : HookEnv} {r : HookResult}
    (h : call.run fdHt env = some r) :
  Effect fdHt env call r
  := by
  cases call with
  | socket =>
      simp only [run, reqSock] at h
      split_ifs at h with hrdma hinfo hneg hstd
      · obtain rfl := Option.some.inj h
        exact Effect.keep rfl
      · obtain rfl := Option.some.inj h
        exact Effect.keep rfl
      · obtain rfl := Option.some.inj h
        exact Effect.keep rfl
      · obtain rfl := Option.some.inj h
        exact Effect.enter trivial (by omega)
  | accept d =>
      rcases route_cases h with rfl | ⟨-, rfl⟩
      · exact Effect.keep rfl
      · split
        · exact Effect.enter trivial (by assumption)
        · exact Effect.keep rfl
  | epollCreate1 =>
      simp only [run, reqEpollCreate1] at h
      split_ifs at h with hinfo hreply
      · obtain rfl := Option.some.inj h
        exact Effect.enter trivial hreply
      · obtain rfl := Option.some.inj h
        exact Effect.keep rfl
      · obtain rfl := Option.some.inj h
        exact Effect.keep rfl
  | connect d addr =>
      rcases route_cases h with rfl | ⟨htid, rfl⟩
      · exact Effect.keep rfl
      · apply Effect.connect htid rfl
  | close d =>
      rcases route_cases h with rfl | ⟨htid, rfl⟩
      · exact Effect.keep rfl
      · apply Effect.close htid rfl
  | pthreadExit =>
      simp only [run, reqPthreadExit] at h
      split_ifs at h
      obtain rfl := Option.some.inj h
      apply Effect.exit rfl
  | read d n =>
      simp only [run] at h
      split_ifs at h
      · obtain rfl := Option.some.inj h
        exact Effect.keep rfl
      · apply Effect.of_route h rfl
  | bind d => apply Effect.of_routeIfConnected h rfl
  | listen d => apply Effect.of_routeIfConnected h rfl
  | send d n => apply Effect.of_route h rfl
  | write d n => apply Effect.of_route h rfl
  | recv d n => apply Effect.of_route h rfl
  | select d => apply Effect.of_route h rfl
  | epollCtl d => apply Effect.of_route h rfl
  | epollWait d => apply Effect.of_route h rfl
  | poll d => apply Effect.of_route h rfl
  | fcntl d cmd => apply Effect.of_route h rfl
  | setsockopt d => apply Effect.of_route h rfl
  | getsockopt d => apply Effect.of_route h rfl
  | getpeername d => apply Effect.of_route h rfl
  | getsockname d => apply Effect.of_route h rfl

/-- A call that is not the call of the original function is forwarded, and one of the two
lookups found its descriptor. -/
theorem run_cases {call : HookCall} {fdHt : FDHashTable} {env : HookEnv} {r : HookResult}
    (h : call.run fdHt env = some r) :
  r = callOriginal fdHt env ∨
    (r.forward ≠ none ∧
      ∀ d, call.fd = some d → tidBySearchByKey fdHt d ≠ 0 ∨ fdSearchByKey fdHt d ≠ 0)
  := by
  cases call with
  | socket =>
      simp only [run, reqSock] at h
      split_ifs at h with hrdma hinfo hneg hstd
      · left
        apply (Option.some.inj h).symm
      all_goals
        obtain rfl := Option.some.inj h
        right
        simp [enter, fd]
  | epollCreate1 =>
      simp only [run, reqEpollCreate1] at h
      split_ifs at h with hinfo hreply
      · obtain rfl := Option.some.inj h
        right
        simp [enter, fd]
      · obtain rfl := Option.some.inj h
        right
        simp [fd]
      · left
        apply (Option.some.inj h).symm
  | pthreadExit =>
      simp only [run, reqPthreadExit] at h
      split_ifs at h
      obtain rfl := Option.some.inj h
      right
      simp [fd]
  | accept d =>
      rcases route_cases h with rfl | ⟨htid, rfl⟩
      · left
        rfl
      · right
        constructor
        · split <;> simp [enter]
        · rintro _ ⟨⟩
          right
          apply htid
  | read d n =>
      simp only [run] at h
      split_ifs at h
      · left
        apply (Option.some.inj h).symm
      · rcases route_cases h with rfl | ⟨htid, rfl⟩
        · left
          rfl
        · right
          use by simp [callServer]
          rintro _ ⟨⟩
          left
          apply htid
  | connect | send | recv | close =>
      rcases route_cases h with rfl | ⟨htid, rfl⟩
      · left
        rfl
      · right
        use by simp [callServer]
        rintro _ ⟨⟩
        left
        apply htid
  | bind | listen =>
      rcases routeIfConnected_cases h with rfl | ⟨htid, rfl⟩
      · left
        rfl
      · right
        use by simp [callServer]
        rintro _ ⟨⟩
        right
        apply htid
  | write | select | epollCtl | epollWait | poll | fcntl | setsockopt | getsockopt
  | getpeername | getsockname =>
      rcases route_cases h with rfl | ⟨htid, rfl⟩
      · left
        rfl
      · right
        use by simp [callServer]
        rintro _ ⟨⟩
        right
        apply htid

/-- A call on a descriptor is forwarded only if one of the two lookups finds the descriptor. -/
theorem lookup_of_forward {call : HookCall} {fdHt : FDHashTable} {env : HookEnv} {r : HookResult}
    {d : BitVec 32} (h : call.run fdHt env = some r) (hfwd : r.forward ≠ none)
    (hd : call.fd = some d) :
  tidBySearchByKey fdHt d ≠ 0 ∨ fdSearchByKey fdHt d ≠ 0
  := by
  rcases run_cases h with rfl | ⟨-, hlookup⟩
  · cases hfwd rfl
  · apply hlookup d hd

/-- A call on a descriptor that no lookup finds is the call of the original function. -/
theorem run_of_lookup_eq_zero {call : HookCall} {fdHt : FDHashTable} {d : BitVec 32}
    (htid : tidBySearchByKey fdHt d = 0) (hfd : fdSearchByKey fdHt d = 0)
    (hd : call.fd = some d) (env : HookEnv) :
  call.run fdHt env = some (callOriginal fdHt env)
  := by
  cases call with
  | socket | epollCreate1 | pthreadExit => cases hd
  | connect | send | recv | close =>
      obtain rfl := Option.some.inj hd
      apply if_pos htid
  | read =>
      obtain rfl := Option.some.inj hd
      simp only [run]
      split
      · rfl
      · apply if_pos htid
  | bind | listen | write | accept | select | epollCtl | epollWait | poll | fcntl | setsockopt
  | getsockopt | getpeername | getsockname =>
      obtain rfl := Option.some.inj hd
      apply if_pos hfd

/-- An opening call that is forwarded and returns a positive number enters it. -/
theorem enter_of_pos {call : HookCall} {fdHt : FDHashTable} {env : HookEnv} {r : HookResult}
    (h : call.run fdHt env = some r) (hopens : call.Opens) (hfwd : r.forward ≠ none)
    (hpos : 0 < r.ret) :
  ∃ forward, r = enter fdHt env forward
  := by
  cases call with
  | socket =>
      simp only [run, reqSock] at h
      split_ifs at h with hrdma hinfo hneg hstd
      · obtain rfl := Option.some.inj h
        cases hfwd rfl
      · obtain rfl := Option.some.inj h
        cases hpos
      · obtain rfl := Option.some.inj h
        cases hpos
      · exact ⟨_, (Option.some.inj h).symm⟩
  | accept d =>
      rcases route_cases h with rfl | ⟨-, rfl⟩
      · cases hfwd rfl
      · split_ifs at hpos ⊢ with hreply
        · exact ⟨_, rfl⟩
        · cases hreply hpos
  | epollCreate1 =>
      simp only [run, reqEpollCreate1] at h
      split_ifs at h with hinfo hreply
      · exact ⟨_, (Option.some.inj h).symm⟩
      · obtain rfl := Option.some.inj h
        cases hreply hpos
      · obtain rfl := Option.some.inj h
        cases hfwd rfl
  | _ => cases hopens

end HookCall

end SocketToRdma
