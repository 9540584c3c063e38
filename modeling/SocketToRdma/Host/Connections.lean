import SocketToRdma.Host.Hooks
import SocketToRdma.Lib.Run
import SocketToRdma.Lib.RwLock

/-!
# The connections of a thread

A thread gets its `client_r_info` from `get_r_info`, which creates one when the thread has none and
keeps the pointer in the storage of the thread. The creation can fail, and then a hook may go on
with the null pointer. A hook that cannot enter a descriptor frees the `client_r_info`, and the exit
of the thread disconnects it; both leave the pointer in the storage. So only live connections are
used exactly when no hook goes on with a null pointer, and nothing is forwarded after a call that
gave up its connection. The lock of `global_info` is released in any case.
-/

namespace SocketToRdma

open Run

/-! ### What a thread does with connections -/

/-- The actions of a thread on the lock of `global_info` and on the `client_r_info`s, which are
numbered in the order of their allocation; `setReqSock` has the pointer it is called with. -/
inductive ConnAct where
  | wrlock
  | unlock
  | setReqSock (rInfo : Option ℕ) (req : RdmaReq)
  | connectServer (rInfo : ℕ) (ret : BitVec 32)
  | free (rInfo : ℕ)
  | disconnect (rInfo : ℕ)
  deriving DecidableEq

/-- A thread of the host: the pointer in its storage, the number of the next `client_r_info`, what
it did, and whether it used a null pointer. -/
structure HostThread where
  tls : Option ℕ
  next : ℕ
  trace : List ConnAct
  crashed : Bool

/-- `global_info->r_info`, which was connected before the program started. -/
def globalRInfo : ℕ := 0

/-- What `get_r_info` meets when it creates a `client_r_info`: the result of the request for a new
connection, whether `malloc` succeeds, and the result of `connect_server`. -/
structure CreateEnv where
  newRdmaConn : BitVec 32
  malloc : Bool
  connectServer : BitVec 32

namespace HostThread

/-- A thread that starts has no connection. -/
def start : HostThread :=
  ⟨none, 1, [.connectServer globalRInfo 0], false⟩

/-- The thread does something. -/
def act (s : HostThread) (a : ConnAct) : HostThread :=
  { s with trace := s.trace ++ [a] }

/-- `get_r_info` -/
def getRInfo (env : CreateEnv) (s : HostThread) : Option ℕ × HostThread :=
  match s.tls with
  | some rInfo => (some rInfo, s)
  | none =>
      let s := (s.act .wrlock).act (.setReqSock (some globalRInfo) .newRdmaConn)
      if env.newRdmaConn.toInt < 1 then (none, s.act .unlock)
      else if env.malloc = false then (none, s.act .unlock)
      else
        let rInfo := s.next
        let s := { s with next := s.next + 1 }.act (.connectServer rInfo env.connectServer)
        if env.connectServer ≠ 0 then (none, (s.act (.free rInfo)).act .unlock)
        else (some rInfo, { s with tls := some rInfo }.act .unlock)

/-- The call of `set_req_sock`, which writes to the `client_r_info` first. -/
def setReqSock (rInfo : Option ℕ) (req : RdmaReq) (s : HostThread) : HostThread :=
  { s.act (.setReqSock rInfo req) with crashed := rInfo.isNone }

end HostThread

/-! ### The hooks -/

/-- What becomes of the connection after the call of `set_req_sock`. -/
inductive Aftermath where
  | keeps
  | frees
  | disconnects
  deriving DecidableEq

/-- What a hook does with the pointer that `get_r_info` returned: whether it calls the original
function if it is null, whether it writes the arguments of the call through it first, the request,
and what becomes of the connection. -/
structure RInfoUse where
  checked : Bool
  encoded : Bool
  req : RdmaReq
  aftermath : Aftermath

namespace RInfoUse

/-- The use of a hook that only calls `set_req_sock`. -/
def plain (req : RdmaReq) : RInfoUse :=
  ⟨false, false, req, .keeps⟩

/-- A hook whose lookup found `tid`: if it is zero, no connection is used. -/
def routed (tid : BitVec 32) (use : RInfoUse) : Option RInfoUse :=
  if tid = 0 then none else some use

/-- The `client_r_info` is freed if the descriptor could not be entered. -/
def afterInsertion (env : HookEnv) (fdHt : FDHashTable) (key value : BitVec 32) : Aftermath :=
  if (fdInsertByValue env.malloc fdHt key value).2 then .keeps else .frees

/-- `req_sock` -/
def reqSock (fdHt : FDHashTable) (env : HookEnv) : Option RInfoUse :=
  some { plain .socket with
    aftermath :=
      if env.reply.toInt ≤ 2 then .keeps else afterInsertion env fdHt env.reply env.tid }

/-- `req_connect` -/
def reqConnect (fdHt : FDHashTable) (env : HookEnv) (sockfd : BitVec 32) : Option RInfoUse :=
  let tid := tidBySearchByKey fdHt sockfd
  routed tid { plain .connect with aftermath := afterInsertion env fdHt sockfd tid }

/-- `req_send` -/
def reqSend (fdHt : FDHashTable) (socket : BitVec 32) : Option RInfoUse :=
  routed (tidBySearchByKey fdHt socket) (plain .write)

/-- `req_read` -/
def reqRead (fdHt : FDHashTable) (fs : BitVec 32) : Option RInfoUse :=
  routed (tidBySearchByKey fdHt fs) (plain .read)

/-- `req_write` -/
def reqWrite (fdHt : FDHashTable) (fs : BitVec 32) : Option RInfoUse :=
  routed (fdSearchByKey fdHt fs) (plain .write)

/-- `req_recv` -/
def reqRecv (fdHt : FDHashTable) (fs : BitVec 32) : Option RInfoUse :=
  routed (tidBySearchByKey fdHt fs) (plain .read)

/-- `req_close` -/
def reqClose (fdHt : FDHashTable) (socket : BitVec 32) : Option RInfoUse :=
  routed (tidBySearchByKey fdHt socket) (plain .close)

/-- `req_bind` -/
def reqBind (fdHt : FDHashTable) (socket : BitVec 32) : Option RInfoUse :=
  routed (fdSearchByKey fdHt socket) { plain .bind with checked := true }

/-- `req_listen` -/
def reqListen (fdHt : FDHashTable) (socket : BitVec 32) : Option RInfoUse :=
  routed (fdSearchByKey fdHt socket) { plain .listen with checked := true }

/-- `req_accept` -/
def reqAccept (fdHt : FDHashTable) (env : HookEnv) (socket : BitVec 32) : Option RInfoUse :=
  routed (fdSearchByKey fdHt socket) { plain .accept with
    aftermath :=
      if 0 < env.reply.toInt then afterInsertion env fdHt env.reply env.tid else .keeps }

/-- `req_select` -/
def reqSelect (fdHt : FDHashTable) (nfds : BitVec 32) : Option RInfoUse :=
  routed (fdSearchByKey fdHt (nfds - 1)) { plain .select with encoded := true }

/-- `req_epoll_create1` -/
def reqEpollCreate1 (fdHt : FDHashTable) (env : HookEnv) : Option RInfoUse :=
  some { plain .epollCreate1 with
    checked := true
    encoded := true
    aftermath :=
      if 0 < env.reply.toInt then afterInsertion env fdHt env.reply env.tid else .keeps }

/-- `req_epoll_ctl` -/
def reqEpollCtl (fdHt : FDHashTable) (epfd : BitVec 32) : Option RInfoUse :=
  routed (fdSearchByKey fdHt epfd) { plain .epollCtl with encoded := true }

/-- `req_epoll_wait` -/
def reqEpollWait (fdHt : FDHashTable) (epfd : BitVec 32) : Option RInfoUse :=
  routed (fdSearchByKey fdHt epfd) { plain .epollWait with encoded := true }

/-- `req_poll` -/
def reqPoll (fdHt : FDHashTable) (fd : BitVec 32) : Option RInfoUse :=
  routed (fdSearchByKey fdHt fd) { plain .poll with encoded := true }

/-- `req_fcntl` -/
def reqFcntl (fdHt : FDHashTable) (fd : BitVec 32) : Option RInfoUse :=
  routed (fdSearchByKey fdHt fd) { plain .fcntl with encoded := true }

/-- `req_setsockopt` -/
def reqSetsockopt (fdHt : FDHashTable) (sockfd : BitVec 32) : Option RInfoUse :=
  routed (fdSearchByKey fdHt sockfd) { plain .setsockopt with encoded := true }

/-- `req_getsockopt` -/
def reqGetsockopt (fdHt : FDHashTable) (sockfd : BitVec 32) : Option RInfoUse :=
  routed (fdSearchByKey fdHt sockfd) (plain .getsockopt)

/-- `req_getpeername`: the encoder does nothing if one of the pointers it is given is null. -/
def reqGetpeername (fdHt : FDHashTable) (sockfd : BitVec 32) (hasAddr : Bool) :
    Option RInfoUse :=
  routed (fdSearchByKey fdHt sockfd) { plain .getsockopt with encoded := hasAddr }

/-- `req_getsockname` -/
def reqGetsockname (fdHt : FDHashTable) (sockfd : BitVec 32) (hasAddr : Bool) :
    Option RInfoUse :=
  routed (fdSearchByKey fdHt sockfd) { plain .getsockname with encoded := hasAddr }

/-- `req_pthread_exit` -/
def reqPthreadExit : Option RInfoUse :=
  some { plain .delRdmaConn with aftermath := .disconnects }

end RInfoUse

/-- A hooked call: the table it meets, what it meets besides, which `rInfo` is not a part of here,
and whether both pointers of a call that returns an address are there. -/
structure ConnCall where
  call : HookCall
  fdHt : FDHashTable
  env : HookEnv
  create : CreateEnv
  hasAddr : Bool

/-- What the hook of the call does with a connection, if it does not call the original function
right away. -/
def ConnCall.use (a : ConnCall) : Option RInfoUse :=
  match a.call with
  | .socket => if a.env.fromRdmaClient then none else RInfoUse.reqSock a.fdHt a.env
  | .connect sockfd _ => RInfoUse.reqConnect a.fdHt a.env sockfd
  | .send socket _ => RInfoUse.reqSend a.fdHt socket
  | .read fs _ => if a.env.fromRdmaClient then none else RInfoUse.reqRead a.fdHt fs
  | .write fs _ => RInfoUse.reqWrite a.fdHt fs
  | .recv fs _ => RInfoUse.reqRecv a.fdHt fs
  | .close socket => RInfoUse.reqClose a.fdHt socket
  | .bind socket => RInfoUse.reqBind a.fdHt socket
  | .listen socket => RInfoUse.reqListen a.fdHt socket
  | .accept socket => RInfoUse.reqAccept a.fdHt a.env socket
  | .select nfds => RInfoUse.reqSelect a.fdHt nfds
  | .epollCreate1 => RInfoUse.reqEpollCreate1 a.fdHt a.env
  | .epollCtl epfd => RInfoUse.reqEpollCtl a.fdHt epfd
  | .epollWait epfd => RInfoUse.reqEpollWait a.fdHt epfd
  | .poll fd => RInfoUse.reqPoll a.fdHt fd
  | .fcntl fd _ => RInfoUse.reqFcntl a.fdHt fd
  | .setsockopt sockfd => RInfoUse.reqSetsockopt a.fdHt sockfd
  | .getsockopt sockfd => RInfoUse.reqGetsockopt a.fdHt sockfd
  | .getpeername sockfd => RInfoUse.reqGetpeername a.fdHt sockfd a.hasAddr
  | .getsockname sockfd => RInfoUse.reqGetsockname a.fdHt sockfd a.hasAddr
  | .pthreadExit => RInfoUse.reqPthreadExit

namespace HostThread

/-- The connection is given up, or not. -/
def giveUp (aftermath : Aftermath) (rInfo : Option ℕ) (s : HostThread) : HostThread :=
  match aftermath, rInfo with
  | .frees, some rInfo => s.act (.free rInfo)
  | .disconnects, some rInfo => s.act (.disconnect rInfo)
  | _, _ => s

/-- The part of a hook from `get_r_info` on. -/
def forward (use : RInfoUse) (env : CreateEnv) (s : HostThread) : HostThread :=
  let got := s.getRInfo env
  let rInfo := got.1
  let s := got.2
  if rInfo = none ∧ use.checked then s
  else if rInfo = none ∧ use.encoded then { s with crashed := true }
  else (s.setReqSock rInfo use.req).giveUp use.aftermath rInfo

/-- A hooked call. -/
def serve (s : HostThread) (a : ConnCall) : HostThread :=
  match a.use with
  | none => s
  | some use => s.forward use a.create

/-- The thread after a hooked call, if it did not crash. -/
def step (s : HostThread) (a : ConnCall) : Option HostThread :=
  if (s.serve a).crashed then none else some (s.serve a)

end HostThread

/-! ### Live connections -/

/-- `connect_server` returned zero for the `client_r_info`, which was neither freed nor disconnected
since. -/
def Live (trace : List ConnAct) (rInfo : ℕ) : Prop :=
  .connectServer rInfo 0 ∈ trace ∧ .free rInfo ∉ trace ∧ .disconnect rInfo ∉ trace

/-- Every call of `set_req_sock` is given a live `client_r_info`. -/
def LiveUses (trace : List ConnAct) : Prop :=
  ∀ before rInfo req, before ++ [.setReqSock rInfo req] <+: trace →
    ∃ q, rInfo = some q ∧ Live before q

/-- The lock of `global_info` after an action. -/
def lockAct (lock : Option RwLock) : ConnAct → Option RwLock
  | .wrlock => lock.bind RwLock.wrlock
  | .unlock => lock.map RwLock.unlock
  | _ => lock

/-- The lock of `global_info` is released. -/
def LockReleased (trace : List ConnAct) : Prop :=
  trace.foldl lockAct (some .free) = some .free

namespace HostThread

/-- In the call and before it only live connections are used, and the lock is released after it. -/
def Sound (s : HostThread) (a : ConnCall) : Prop :=
  LiveUses (s.serve a).trace ∧ LockReleased (s.serve a).trace

end HostThread

/-- The creation of a connection succeeds. -/
def CreateEnv.Succeeds (env : CreateEnv) : Prop :=
  1 ≤ env.newRdmaConn.toInt ∧ env.malloc = true ∧ env.connectServer = 0

/-- The call is forwarded. -/
def ConnCall.Forwarded (a : ConnCall) : Prop :=
  a.use ≠ none

namespace HostThread

/-- If the hook goes on without a look at the pointer and the thread has no connection, one can be
created. -/
def Creates (s : HostThread) (a : ConnCall) : Prop :=
  ∀ use, a.use = some use → ¬ use.checked → ¬ use.encoded → s.tls = none → a.create.Succeeds

/-- The call has a connection, and gives it up. -/
def GivesUp (s : HostThread) (a : ConnCall) : Prop :=
  ∃ use, a.use = some use ∧ use.aftermath ≠ .keeps ∧ (s.tls ≠ none ∨ a.create.Succeeds)

/-- A connection can be created whenever a hook does not look whether there is one, and after a call
that gives up its connection no call is forwarded. -/
def Careful (s : HostThread) : List ConnCall → Prop
  | [] => True
  | a :: acts =>
      s.Creates a ∧ (s.GivesUp a → ∀ b ∈ acts, ¬ b.Forwarded) ∧
        ∀ s', s.step a = some s' → s'.Careful acts

end HostThread

/-! ### The hooks and their calls -/

namespace RInfoUse

theorem routed_eq_none {tid : BitVec 32} {use : RInfoUse} :
  routed tid use = none ↔ tid = 0
  := by
  rw [routed]
  split
  case isTrue h => apply iff_of_true rfl h
  case isFalse h => apply iff_of_false nofun h

theorem routed_eq_some {tid : BitVec 32} {use use' : RInfoUse} :
  routed tid use = some use' ↔ tid ≠ 0 ∧ use = use'
  := by
  rw [routed]
  split
  case isTrue h => apply iff_of_false nofun fun huse => huse.1 h
  case isFalse h => simp only [Option.some.injEq, ne_eq, h, not_false_eq_true, true_and]

end RInfoUse

/-- A routed call without a connection has no result. -/
theorem route_of_not_connected {tid : BitVec 32} {fdHt : FDHashTable} {env : HookEnv}
    {forwarded : HookResult} (htid : tid ≠ 0) (hinfo : env.rInfo = false) :
  ¬ ∃ r, route tid fdHt env forwarded = some r
  := by
  rintro ⟨r, hr⟩
  rw [route, if_neg htid, hinfo] at hr
  cases hr

namespace ConnCall

/-- A call that uses no connection is the call of the original function. -/
theorem run_of_use_eq_none {a : ConnCall} (h : a.use = none) (connected : Bool) :
  ∃ r, a.call.run a.fdHt { a.env with rInfo := connected } = some r ∧ r.forward = none
  := by
  obtain ⟨call, fdHt, env, create, hasAddr⟩ := a
  cases call with
  | socket =>
      simp only [use, RInfoUse.reqSock, ite_eq_left_iff, reduceCtorEq, imp_false, not_not] at h
      exact ⟨_, if_pos h, rfl⟩
  | read fs n =>
      simp only [use] at h
      split at h
      case isTrue hrdma => exact ⟨_, if_pos hrdma, rfl⟩
      case isFalse hrdma =>
        exact ⟨_, (if_neg hrdma).trans (if_pos (RInfoUse.routed_eq_none.mp h)), rfl⟩
  | epollCreate1 => cases h
  | pthreadExit => cases h
  | _ => exact ⟨_, if_pos (RInfoUse.routed_eq_none.mp h), rfl⟩

/-- A call that uses a connection forwards its request over it; without one it calls the original
function if it looks at the pointer, and else it has no result. -/
theorem run_of_use {a : ConnCall} {use : RInfoUse} (h : a.use = some use) :
  (∃ r f, a.call.run a.fdHt { a.env with rInfo := true } = some r ∧ r.forward = some f ∧
      f.req = use.req) ∧
    ((∃ r, a.call.run a.fdHt { a.env with rInfo := false } = some r) ↔ use.checked = true)
  := by
  obtain ⟨call, fdHt, env, create, hasAddr⟩ := a
  cases call with
  | socket =>
      simp only [ConnCall.use] at h
      split at h
      case isTrue => cases h
      case isFalse hrdma =>
        obtain rfl := Option.some.inj h
        constructor
        · simp only [HookCall.run, SocketToRdma.reqSock, if_neg hrdma, if_true]
          split_ifs
          · exact ⟨_, _, rfl, rfl, rfl⟩
          · exact ⟨_, _, rfl, rfl, rfl⟩
          · exact ⟨_, _, rfl, rfl, rfl⟩
        · rw [HookCall.run, if_neg hrdma]
          simp [SocketToRdma.reqSock, RInfoUse.plain]
  | read fs n =>
      simp only [ConnCall.use] at h
      split at h
      case isTrue => cases h
      case isFalse hrdma =>
        obtain ⟨htid, rfl⟩ := RInfoUse.routed_eq_some.mp h
        simp only [HookCall.run, if_neg hrdma]
        refine ⟨⟨_, _, HookCall.route_of_ne htid rfl _ _, rfl, rfl⟩, ?_⟩
        apply iff_of_false (route_of_not_connected htid rfl) (by simp [RInfoUse.plain])
  | epollCreate1 =>
      obtain rfl := Option.some.inj h
      constructor
      · simp only [HookCall.run, SocketToRdma.reqEpollCreate1, if_true]
        split_ifs
        · exact ⟨_, _, rfl, rfl, rfl⟩
        · exact ⟨_, _, rfl, rfl, rfl⟩
      · apply iff_of_true ⟨_, rfl⟩ rfl
  | pthreadExit =>
      obtain rfl := Option.some.inj h
      exact ⟨⟨_, _, rfl, rfl, rfl⟩, by simp [HookCall.run, SocketToRdma.reqPthreadExit, RInfoUse.plain]⟩
  | accept socket =>
      obtain ⟨htid, rfl⟩ := RInfoUse.routed_eq_some.mp h
      constructor
      · refine ⟨_, ⟨socket, .accept, 0, 0⟩, HookCall.route_of_ne htid rfl _ _, ?_⟩
        split_ifs
        · exact ⟨rfl, rfl⟩
        · exact ⟨rfl, rfl⟩
      · apply iff_of_false (route_of_not_connected htid rfl) (by simp [RInfoUse.plain])
  | bind | listen =>
      obtain ⟨htid, rfl⟩ := RInfoUse.routed_eq_some.mp h
      constructor
      · exact ⟨_, _, (if_neg htid).trans (if_pos rfl), rfl, rfl⟩
      · apply iff_of_true ⟨_, (if_neg htid).trans (if_neg Bool.false_ne_true)⟩ rfl
  | _ =>
      obtain ⟨htid, rfl⟩ := RInfoUse.routed_eq_some.mp h
      refine ⟨⟨_, _, HookCall.route_of_ne htid rfl _ _, rfl, rfl⟩, ?_⟩
      apply iff_of_false (route_of_not_connected htid rfl) (by simp [RInfoUse.plain])

end ConnCall

/-! ### Traces -/

theorem liveUses_concat {trace : List ConnAct} {a : ConnAct} :
  LiveUses (trace ++ [a]) ↔
    LiveUses trace ∧ ∀ rInfo req, a = .setReqSock rInfo req → ∃ q, rInfo = some q ∧ Live trace q
  := by
  constructor
  · intro h
    constructor
    · intro before rInfo req hbefore
      apply h before rInfo req (hbefore.trans (List.prefix_append _ _))
    · rintro rInfo req rfl
      apply h trace rInfo req (List.prefix_refl _)
  · rintro ⟨h, ha⟩ before rInfo req hbefore
    obtain hsplit | hbefore := List.prefix_concat_iff.mp hbefore
    · obtain ⟨rfl, hlast⟩ := List.append_inj' hsplit rfl
      apply ha rInfo req (List.singleton_injective hlast).symm
    · apply h before rInfo req hbefore

/-- A use of something else. -/
theorem not_liveUses {before trace : List ConnAct} {rInfo : Option ℕ} {req : RdmaReq}
    (htrace : before ++ [.setReqSock rInfo req] <+: trace)
    (h : ∀ q, rInfo = some q → ¬ Live before q) :
  ¬ LiveUses trace
  := by
  intro huses
  obtain ⟨q, hq, hlive⟩ := huses before rInfo req htrace
  apply h q hq hlive

theorem lockReleased_concat {trace : List ConnAct} {a : ConnAct} (h : LockReleased trace)
    (ha : lockAct (some .free) a = some .free) :
  LockReleased (trace ++ [a])
  := by
  rw [LockReleased, List.foldl_append, h]
  apply ha

theorem Live.concat {trace : List ConnAct} {q : ℕ} (h : Live trace q) {a : ConnAct}
    (hfree : a ≠ .free q) (hdisconnect : a ≠ .disconnect q) :
  Live (trace ++ [a]) q
  := by
  simp only [Live, List.mem_append, List.mem_singleton, not_or]
  exact ⟨Or.inl h.1, ⟨h.2.1, hfree.symm⟩, ⟨h.2.2, hdisconnect.symm⟩⟩

/-! ### A thread that gave up no connection -/

namespace HostThread

/-- A thread whose pointer, if there is one, is that of a live connection of its own. -/
structure Ok (s : HostThread) : Prop where
  uses : LiveUses s.trace
  global : Live s.trace globalRInfo
  tls : ∀ q, s.tls = some q → Live s.trace q ∧ globalRInfo < q
  fresh : ∀ q, s.next ≤ q → .free q ∉ s.trace ∧ .disconnect q ∉ s.trace
  next_pos : globalRInfo < s.next

namespace Ok

variable {s : HostThread}

theorem start :
  start.Ok
  := by
  constructor
  · intro before rInfo req hbefore
    have hmem := hbefore.subset (List.mem_append_right before (List.mem_singleton_self _))
    simp [HostThread.start] at hmem
  · simp [Live, HostThread.start]
  · nofun
  · simp [HostThread.start]
  · decide

/-- An action that neither gives up a connection nor uses one that is not live. -/
theorem act (h : s.Ok) {a : ConnAct} (hfree : ∀ q, a ≠ .free q) (hdisconnect : ∀ q, a ≠ .disconnect q)
    (huse : ∀ rInfo req, a = .setReqSock rInfo req → ∃ q, rInfo = some q ∧ Live s.trace q) :
  (s.act a).Ok
  := by
  constructor
  · exact liveUses_concat.mpr ⟨h.uses, huse⟩
  · apply h.global.concat (hfree _) (hdisconnect _)
  · intro q hq
    exact ⟨(h.tls q hq).1.concat (hfree q) (hdisconnect q), (h.tls q hq).2⟩
  · intro q hq
    simp only [HostThread.act, List.mem_append, List.mem_singleton, not_or]
    exact ⟨⟨(h.fresh q hq).1, (hfree q).symm⟩, ⟨(h.fresh q hq).2, (hdisconnect q).symm⟩⟩
  · apply h.next_pos

/-- The lock is taken or released. -/
theorem wrlock (h : s.Ok) :
  (s.act .wrlock).Ok
  := h.act (by simp) (by simp) (by simp)

theorem unlock (h : s.Ok) :
  (s.act .unlock).Ok
  := h.act (by simp) (by simp) (by simp)

/-- A live connection is used. -/
theorem setReqSock (h : s.Ok) {q : ℕ} (hq : Live s.trace q) (req : RdmaReq) :
  (s.act (.setReqSock (some q) req)).Ok
  := by
  apply h.act (by simp) (by simp)
  rintro _ _ ⟨⟩
  exact ⟨q, rfl, hq⟩

/-- A `client_r_info` is allocated and connected, or not. -/
theorem connectServer (h : s.Ok) (ret : BitVec 32) :
  (HostThread.act { s with next := s.next + 1 } (.connectServer s.next ret)).Ok
  := by
  apply Ok.act _ (by simp) (by simp) (by simp)
  constructor
  · apply h.uses
  · apply h.global
  · apply h.tls
  · intro q hq
    apply h.fresh q (Nat.le_of_succ_le hq)
  · apply h.next_pos.trans (Nat.lt_succ_self _)

/-- A new `client_r_info` is live if it was connected. -/
theorem live_next (h : s.Ok) :
  Live (HostThread.act { s with next := s.next + 1 } (.connectServer s.next 0)).trace s.next
  := by
  have hfresh := h.fresh s.next (le_refl _)
  simp [Live, HostThread.act, hfresh]

/-- A `client_r_info` that was never used is freed. -/
theorem free (h : s.Ok) {q : ℕ} (hnext : q < s.next) (hglobal : q ≠ globalRInfo)
    (htls : s.tls ≠ some q) :
  (s.act (.free q)).Ok
  := by
  constructor
  · exact liveUses_concat.mpr ⟨h.uses, nofun⟩
  · apply h.global.concat
    · simpa using hglobal
    · simp
  · intro q' hq'
    refine ⟨(h.tls q' hq').1.concat ?_ (by simp), (h.tls q' hq').2⟩
    rintro ⟨⟩
    exact htls hq'
  · intro q' hq'
    simp only [HostThread.act, List.mem_append, List.mem_singleton, not_or]
    refine ⟨⟨(h.fresh q' hq').1, ?_⟩, ⟨(h.fresh q' hq').2, by simp⟩⟩
    rintro ⟨⟩
    exact Nat.not_le_of_lt hnext hq'
  · apply h.next_pos

/-- A live `client_r_info` is put into the storage of the thread. -/
theorem setspecific (h : s.Ok) {q : ℕ} (hq : Live s.trace q) (hglobal : globalRInfo < q) :
  Ok { s with tls := some q }
  := by
  refine ⟨h.uses, h.global, ?_, h.fresh, h.next_pos⟩
  rintro _ ⟨⟩
  exact ⟨hq, hglobal⟩

/-- What `get_r_info` does in a thread that gave up no connection. -/
theorem getRInfo (h : s.Ok) (env : CreateEnv) :
  (s.getRInfo env).2.Ok ∧ (s.getRInfo env).2.crashed = s.crashed ∧
    (((s.getRInfo env).1 = none ∧ s.tls = none ∧ ¬ env.Succeeds) ∨
      ∃ q, (s.getRInfo env).1 = some q ∧ (s.getRInfo env).2.tls = some q ∧
        (s.tls ≠ none ∨ env.Succeeds))
  := by
  cases htls : s.tls with
  | some q =>
      have hgot : s.getRInfo env = (some q, s) := by
        rw [HostThread.getRInfo, htls]
      rw [hgot]
      exact ⟨h, rfl, Or.inr ⟨q, rfl, htls, Or.inl (by simp)⟩⟩
  | none =>
      have hasked : ((s.act .wrlock).act (.setReqSock (some globalRInfo) .newRdmaConn)).Ok :=
        h.wrlock.setReqSock h.wrlock.global _
      have hconnected := hasked.connectServer env.connectServer
      have hfreed := hconnected.free (Nat.lt_succ_self _) h.next_pos.ne' (by simp [HostThread.act, htls])
      rw [HostThread.getRInfo, htls]
      simp only []
      split_ifs with hrefused hmalloc hconnect
      · refine ⟨hasked.unlock, rfl, Or.inl ⟨rfl, trivial, ?_⟩⟩
        rintro ⟨hret, -⟩
        omega
      · refine ⟨hasked.unlock, rfl, Or.inl ⟨rfl, trivial, ?_⟩⟩
        rintro ⟨-, htrue, -⟩
        rw [hmalloc] at htrue
        cases htrue
      · exact ⟨hfreed.unlock, rfl, Or.inl ⟨rfl, trivial, fun hsucceeds => hconnect hsucceeds.2.2⟩⟩
      · rw [not_not] at hconnect
        have hlive := hasked.live_next
        rw [← hconnect] at hlive
        have hmalloc' : env.malloc = true := by simpa using hmalloc
        exact ⟨(hconnected.setspecific hlive h.next_pos).unlock, rfl,
          Or.inr ⟨_, rfl, rfl, Or.inr ⟨not_lt.mp hrefused, hmalloc', hconnect⟩⟩⟩

end Ok

/-! ### The lock -/

/-- `get_r_info` releases the lock on every path. -/
theorem lockReleased_getRInfo {s : HostThread} (h : LockReleased s.trace) (env : CreateEnv) :
  LockReleased (s.getRInfo env).2.trace
  := by
  unfold LockReleased at h ⊢
  rw [getRInfo]
  cases s.tls with
  | some q => apply h
  | none =>
      simp only []
      split_ifs
      all_goals
        simp only [act, List.foldl_append, h]
        rfl

theorem lockReleased_giveUp {s : HostThread} (h : LockReleased s.trace) (aftermath : Aftermath)
    (rInfo : Option ℕ) :
  LockReleased (s.giveUp aftermath rInfo).trace
  := by
  unfold giveUp
  split
  · apply lockReleased_concat h rfl
  · apply lockReleased_concat h rfl
  · apply h

/-- A hooked call releases the lock on every path. -/
theorem lockReleased_serve {s : HostThread} (h : LockReleased s.trace) (a : ConnCall) :
  LockReleased (s.serve a).trace
  := by
  rw [serve]
  cases a.use with
  | none => apply h
  | some use =>
      have hgot := lockReleased_getRInfo h a.create
      simp only [forward]
      split_ifs
      · apply hgot
      · apply hgot
      · apply lockReleased_giveUp
        apply lockReleased_concat hgot rfl

/-! ### One call -/

/-- A thread whose pointer is that of a connection it gave up. -/
structure Lost (s : HostThread) : Prop where
  uses : LiveUses s.trace
  tls : ∃ q, s.tls = some q ∧ ¬ Live s.trace q

/-- A call that is not forwarded does nothing. -/
theorem serve_of_not_forwarded {a : ConnCall} (h : ¬ a.Forwarded) (s : HostThread) :
  s.serve a = s
  := by
  rw [ConnCall.Forwarded, not_not] at h
  rw [serve, h]

/-- A hook that got a connection uses it, and gives it up or not. -/
theorem forward_of_some {s s' : HostThread} {q : ℕ} {env : CreateEnv}
    (h : s.getRInfo env = (some q, s')) (hcrashed : s'.crashed = false) (use : RInfoUse) :
  s.forward use env = (s'.act (.setReqSock (some q) use.req)).giveUp use.aftermath (some q)
  := by
  have hused : s'.setReqSock (some q) use.req = s'.act (.setReqSock (some q) use.req) := by
    rw [HostThread.setReqSock, HostThread.act, hcrashed]
    rfl
  rw [← hused]
  simp only [forward, h, reduceCtorEq, false_and, if_false]

/-- Giving up a connection adds to the trace. -/
theorem prefix_giveUp (s : HostThread) (aftermath : Aftermath) (rInfo : Option ℕ) :
  s.trace <+: (s.giveUp aftermath rInfo).trace
  := by
  unfold giveUp
  split
  · apply List.prefix_append
  · apply List.prefix_append
  · apply List.prefix_refl

/-- A connection that is given up is not live any more. -/
theorem lost_giveUp {s : HostThread} (huses : LiveUses s.trace) {q : ℕ} (htls : s.tls = some q)
    {aftermath : Aftermath} (h : aftermath ≠ .keeps) :
  (s.giveUp aftermath (some q)).Lost ∧ (s.giveUp aftermath (some q)).crashed = s.crashed
  := by
  cases aftermath with
  | keeps => contradiction
  | frees =>
      refine ⟨⟨liveUses_concat.mpr ⟨huses, by simp⟩, q, htls, ?_⟩, rfl⟩
      simp [Live, giveUp, act]
  | disconnects =>
      refine ⟨⟨liveUses_concat.mpr ⟨huses, by simp⟩, q, htls, ?_⟩, rfl⟩
      simp [Live, giveUp, act]

/-- A hook that got no connection calls the original function, or crashes, or goes on with the null
pointer. -/
theorem forward_of_none {s : HostThread} {env : CreateEnv} (h : (s.getRInfo env).1 = none)
    (use : RInfoUse) :
  s.forward use env =
    if use.checked then (s.getRInfo env).2
    else if use.encoded then { (s.getRInfo env).2 with crashed := true }
    else (s.getRInfo env).2.setReqSock none use.req
  := by
  simp only [forward, h, true_and]
  split_ifs
  · rfl
  · rfl
  · simp [giveUp]

/-- What a call of a thread that gave up no connection can do: go on with a null pointer; crash
before it uses it; keep its connection; or give it up. -/
theorem Ok.serve_cases {s : HostThread} (h : s.Ok) (hcrashed : s.crashed = false) (a : ConnCall) :
  (¬ s.Creates a ∧ ¬ LiveUses (s.serve a).trace) ∨
    (s.Creates a ∧ ¬ s.GivesUp a ∧ LiveUses (s.serve a).trace ∧ (s.serve a).crashed = true) ∨
    (s.Creates a ∧ ¬ s.GivesUp a ∧ (s.serve a).Ok ∧ (s.serve a).crashed = false) ∨
    (s.Creates a ∧ s.GivesUp a ∧ (s.serve a).Lost ∧ (s.serve a).crashed = false)
  := by
  by_cases hforwarded : a.Forwarded
  · obtain ⟨use, huse⟩ := Option.ne_none_iff_exists'.mp hforwarded
    have hserve : s.serve a = s.forward use a.create := by
      rw [serve, huse]
    simp only [Creates, GivesUp, huse, Option.some.injEq, forall_eq', exists_eq_left']
    rw [hserve]
    obtain ⟨hok, hcrash, ⟨hnone, htls, hfail⟩ | ⟨q, hsome, htls, hgot⟩⟩ := h.getRInfo a.create
    · have hnot : ¬ (s.tls ≠ none ∨ a.create.Succeeds) := fun hgot => hgot.elim (absurd htls) hfail
      rw [forward_of_none hnone]
      by_cases hchecked : use.checked
      · right
        right
        left
        rw [if_pos hchecked]
        exact ⟨absurd hchecked, fun hgives => hnot hgives.2, hok, hcrash.trans hcrashed⟩
      · rw [if_neg hchecked]
        by_cases hencoded : use.encoded
        · right
          left
          rw [if_pos hencoded]
          exact ⟨fun _ => absurd hencoded, fun hgives => hnot hgives.2, hok.uses, rfl⟩
        · left
          rw [if_neg hencoded]
          exact ⟨fun hcreates => hfail (hcreates hchecked hencoded htls),
            not_liveUses (List.prefix_refl _) (by simp)⟩
    · have hgot' : s.getRInfo a.create = (some q, (s.getRInfo a.create).2) := Prod.ext hsome rfl
      have hlive := (hok.tls q htls).1
      have hused := hok.setReqSock hlive use.req
      have hcreates : ¬ use.checked → ¬ use.encoded → s.tls = none → a.create.Succeeds :=
        fun _ _ hnone => hgot.resolve_left (absurd hnone)
      rw [forward_of_some hgot' (hcrash.trans hcrashed)]
      right
      right
      by_cases hkeeps : use.aftermath = .keeps
      · left
        rw [hkeeps]
        exact ⟨hcreates, fun hgives => hgives.1 rfl, hused, hcrash.trans hcrashed⟩
      · right
        obtain ⟨hlost, hcrash'⟩ := lost_giveUp hused.uses htls hkeeps
        exact ⟨hcreates, ⟨hkeeps, hgot⟩, hlost, hcrash'.trans (hcrash.trans hcrashed)⟩
  · right
    right
    left
    have huse : a.use = none := not_not.mp hforwarded
    simp only [serve_of_not_forwarded hforwarded, Creates, GivesUp, huse, reduceCtorEq,
      false_and, exists_false, false_imp_iff, implies_true, not_false_eq_true, true_and]
    exact ⟨h, hcrashed⟩

/-! ### A run -/

/-- A call that is forwarded over a connection that was given up does not use a live one. -/
theorem Lost.sound_iff {s : HostThread} (h : s.Lost) (hlock : LockReleased s.trace)
    (hcrashed : s.crashed = false) (a : ConnCall) :
  s.Sound a ↔ ¬ a.Forwarded
  := by
  constructor
  · intro hsound hforwarded
    obtain ⟨use, huse⟩ := Option.ne_none_iff_exists'.mp hforwarded
    obtain ⟨q, htls, hdead⟩ := h.tls
    have hgot : s.getRInfo a.create = (some q, s) := by
      rw [getRInfo, htls]
    have hserve : s.serve a =
        (s.act (.setReqSock (some q) use.req)).giveUp use.aftermath (some q) := by
      rw [serve, huse]
      apply forward_of_some hgot hcrashed
    rw [Sound, hserve] at hsound
    have hprefix : s.trace ++ [.setReqSock (some q) use.req] <+: _ :=
      prefix_giveUp (s.act (.setReqSock (some q) use.req)) use.aftermath (some q)
    apply not_liveUses hprefix _ hsound.1
    rintro _ ⟨⟩
    exact hdead
  · intro hforwarded
    rw [Sound, serve_of_not_forwarded hforwarded]
    exact ⟨h.uses, hlock⟩

/-- A thread that gave up its connection uses only live ones exactly when it forwards nothing. -/
theorem Lost.along_sound_iff {s : HostThread} (h : s.Lost) (hlock : LockReleased s.trace)
    (hcrashed : s.crashed = false) (acts : List ConnCall) :
  Along step Sound s acts ↔ ∀ b ∈ acts, ¬ b.Forwarded
  := by
  induction acts with
  | nil => simp [Along]
  | cons a acts ih =>
      rw [List.forall_mem_cons, Along, h.sound_iff hlock hcrashed]
      apply and_congr_right
      intro ha
      have hstep : s.step a = some s := by
        rw [step, serve_of_not_forwarded ha, if_neg (by simp [hcrashed])]
      simp only [hstep, Option.some.injEq, forall_eq', ih]

/-- A thread that forwards nothing is careful. -/
theorem careful_of_not_forwarded {s : HostThread} {acts : List ConnCall}
    (h : ∀ b ∈ acts, ¬ b.Forwarded) :
  s.Careful acts
  := by
  induction acts generalizing s with
  | nil => trivial
  | cons a acts ih =>
      have ha : a.use = none := not_not.mp (h a (List.mem_cons_self ..))
      have hacts : ∀ b ∈ acts, ¬ b.Forwarded := fun b hb => h b (List.mem_cons_of_mem _ hb)
      refine ⟨?_, fun _ => hacts, fun s' _ => ih hacts⟩
      intro use huse
      rw [ha] at huse
      cases huse

/-- A thread that gave up no connection uses only live ones exactly when it is careful. -/
theorem Ok.along_sound_iff {s : HostThread} (h : s.Ok) (hlock : LockReleased s.trace)
    (hcrashed : s.crashed = false) (acts : List ConnCall) :
  Along step Sound s acts ↔ s.Careful acts
  := by
  induction acts generalizing s with
  | nil => rfl
  | cons a acts ih =>
      have hlock' := lockReleased_serve hlock a
      rw [Along, Careful]
      obtain ⟨hcreates, huses⟩ | ⟨hcreates, hkeeps, huses, hcrash⟩ |
        ⟨hcreates, hkeeps, hok, hcrash⟩ | ⟨hcreates, hgives, hlost, hcrash⟩ :=
        h.serve_cases hcrashed a
      · apply iff_of_false
        · rintro ⟨hsound, -⟩
          apply huses hsound.1
        · rintro ⟨hcreate, -⟩
          apply hcreates hcreate
      · have hstep : s.step a = none := by
          rw [step, if_pos hcrash]
        simp only [hstep, reduceCtorEq, false_imp_iff, implies_true, and_true]
        apply iff_of_true ⟨huses, hlock'⟩ ⟨hcreates, fun hgives => absurd hgives hkeeps⟩
      · have hstep : s.step a = some (s.serve a) := by
          rw [step, if_neg (by simp [hcrash])]
        simp only [hstep, Option.some.injEq, forall_eq', ih hok hlock' hcrash]
        constructor
        · rintro ⟨-, hacts⟩
          exact ⟨hcreates, fun hgives => absurd hgives hkeeps, hacts⟩
        · rintro ⟨-, -, hacts⟩
          exact ⟨⟨hok.uses, hlock'⟩, hacts⟩
      · have hstep : s.step a = some (s.serve a) := by
          rw [step, if_neg (by simp [hcrash])]
        simp only [hstep, Option.some.injEq, forall_eq', hlost.along_sound_iff hlock' hcrash]
        constructor
        · rintro ⟨-, hacts⟩
          exact ⟨hcreates, fun _ => hacts, careful_of_not_forwarded hacts⟩
        · rintro ⟨-, hacts, -⟩
          exact ⟨⟨hlost.uses, hlock'⟩, hacts hgives⟩

end HostThread

/-- In a run of the hooked calls of a thread only live connections are used, and the lock of
`global_info` is released after each of them, exactly when a connection can be created whenever a
hook does not look whether there is one, and nothing is forwarded after a call that gave up its
connection. -/
theorem live_connections_used_iff (acts : List ConnCall) :
  Along HostThread.step HostThread.Sound .start acts ↔ HostThread.start.Careful acts
  := HostThread.Ok.start.along_sound_iff rfl rfl acts

/-- A `socket` whose descriptor `5` cannot be entered. -/
def unentered : ConnCall where
  call := .socket
  fdHt := createFDHashTable
  env := ⟨100, true, false, 5#32, 0, ⟨fun _ => none, by simp⟩⟩
  create := ⟨1, true, 0⟩
  hasAddr := true

/-- A `socket` of a thread whose request for a connection is refused. -/
def refused : ConnCall :=
  { unentered with create := ⟨0, true, 0⟩ }

/-- A `socket` goes on with a null pointer, and one with a connection that the one before it
freed. -/
theorem dead_connections_used :
  ¬ Along HostThread.step HostThread.Sound .start [refused] ∧
    ¬ Along HostThread.step HostThread.Sound .start [unentered, unentered]
  := by
  constructor
  · rintro ⟨⟨huses, -⟩, -⟩
    have htrace : (HostThread.start.serve refused).trace =
        [.connectServer 0 0, .wrlock, .setReqSock (some 0) .newRdmaConn, .unlock] ++
          [.setReqSock none .socket] := rfl
    rw [htrace] at huses
    apply not_liveUses (List.prefix_refl _) (by simp) huses
  · rintro ⟨-, hnext⟩
    have huses := (hnext (HostThread.start.serve unentered) rfl).1.1
    have htrace : ((HostThread.start.serve unentered).serve unentered).trace =
        ([.connectServer 0 0, .wrlock, .setReqSock (some 0) .newRdmaConn, .connectServer 1 0,
          .unlock, .setReqSock (some 1) .socket, .free 1] ++ [.setReqSock (some 1) .socket]) ++
            [.free 1] := rfl
    apply not_liveUses ⟨_, htrace.symm⟩ _ huses
    rintro _ ⟨⟩
    simp [Live]

end SocketToRdma
