import SocketToRdma.Host.Request
import SocketToRdma.Host.Routing
import SocketToRdma.Lib.Access

/-!
# The results of the hooks

A forwarded call ends with the value, the `errno` and the data of the reply. Between the reply
and the application stand `set_req_sock` and what the hook does after it: entering
descriptors, decoding results into the objects of the application, copying addresses. Every
copy of a size that is not fixed is an access to an object; a call that copies beyond an
object has no result.

The objects of the application are as large as the arguments of the call say.
-/

namespace SocketToRdma

/-- What the application passes besides the descriptors: the buffer of `read` and `recv`, the
data of `send` and `write`, the entries of `poll`, the length given to `setsockopt`, the size of
the events of `epoll_wait` and of the address of `getpeername` and `getsockname`, and whether
`getsockopt` has a length. `none` is a null pointer. A variadic argument is not passed on to
`req_fcntl`: `vararg` is the number of bytes behind the pointer it takes for one. `malloc`
tells whether the allocation of `getsockopt` succeeds. -/
structure AppArgs where
  buf : Option ByteMem
  message : ByteMem
  nfds : BitVec 64
  optlen : BitVec 32
  maxevents : Option (BitVec 32)
  addrlen : Option (BitVec 32)
  hasOptlen : Bool
  vararg : ℕ
  malloc : Bool

/-- The arguments of `set_req_sock` for a forwarded call. -/
def Forward.reqArgs (f : Forward) (app : AppArgs) : ReqArgs :=
  ⟨f.sockfd, f.req.code, f.bufSz, f.port, app.message, app.buf.isSome⟩

/-- The value a hook returned, the value of `errno` where it set it, and the buffer of `read` and
`recv` after it. -/
structure HookOutcome where
  ret : ℤ
  errno : Option (BitVec 32)
  buf : Option ByteMem

/-- The accesses to the address of `getpeername` and `getsockname`. -/
def AppArgs.addrAccesses (app : AppArgs) : List Access :=
  match app.addrlen with
  | some k => [⟨k.toNat, 0, 16⟩]
  | none => []

/-- The number of events that `deserialize_epoll_wait_dt` copies from a reply. -/
def decodedEvents (m : ByteMem) : ℕ :=
  min (m.loadBits 32 rtnData).toInt.toNat 84

/-- The number of entries that `deserialize_poll_pollfd` copies from a reply. -/
def decodedPollfds (m : ByteMem) : ℕ :=
  (m.loadBits 64 (rtnData + 4)).toNat

/-- The length that `deserialize_sockopt_dt` reads from a reply. -/
def decodedOptlen (m : ByteMem) : ℕ :=
  (m.loadBits 32 (rtnData + 8)).toNat

namespace HookCall

/-- The accesses of the encoders, before the request is sent. -/
def encodes (app : AppArgs) : HookCall → List Access
  | poll _ => [⟨bufferSize, 12, 8 * app.nfds.toNat⟩]
  | fcntl _ cmd => if fcntlFlag cmd = 2 then [⟨app.vararg, 0, 32⟩] else []
  | setsockopt _ => [⟨bufferSize, 12, app.optlen.toNat⟩]
  | getpeername _ | getsockname _ => app.addrAccesses
  | _ => []

/-- The accesses after the reply, when `set_req_sock` ended with `s`. -/
def decodes (app : AppArgs) (s : SetReqResult) : HookCall → List Access
  | read _ n | recv _ n => [⟨n.toNat, 0, s.copied⟩, ⟨bufferSize, 0, s.copied⟩]
  | epollWait _ =>
      match app.maxevents with
      | some k => [⟨k.toInt.toNat, 0, decodedEvents s.rInfo.mem⟩]
      | none => []
  | poll _ =>
      if 0 < s.ret.toInt then
        [⟨app.nfds.toNat, 0, decodedPollfds s.rInfo.mem⟩,
          ⟨bufferSize, 12, 8 * decodedPollfds s.rInfo.mem⟩]
      else []
  | getsockopt _ =>
      if app.hasOptlen ∧ app.malloc then [⟨bufferSize, 12, decodedOptlen s.rInfo.mem⟩] else []
  | getpeername _ => app.addrAccesses
  | getsockname _ =>
      app.addrAccesses ++
        if s.ret = 0 then [⟨(app.addrlen.getD 0).toNat, 0, 16⟩] else []
  | _ => []

/-- A forwarded call, from the arguments of the application to its result. -/
def complete (fdHt : FDHashTable) (env : HookEnv) (x : Exchange) (h : RInfo) (f : Forward)
    (app : AppArgs) (call : HookCall) : Option HookOutcome :=
  if ¬ Access.AllInBounds (call.encodes app) then none
  else
    (setReqSock x h (f.reqArgs app)).bind fun s =>
      if ¬ Access.AllInBounds (call.decodes app s) then none
      else
        (call.run fdHt { env with reply := s.ret }).map fun r =>
          { ret := r.ret
            errno := s.errno
            buf := app.buf.map fun b j =>
              if j < s.copied then s.rInfo.mem (rtnData + j) else b j }

/-- The request a hook sends. -/
def req : HookCall → RdmaReq
  | socket => .socket
  | connect _ _ => .connect
  | send _ _ | write _ _ => .write
  | read _ _ | recv _ _ => .read
  | close _ => .close
  | bind _ => .bind
  | listen _ => .listen
  | accept _ => .accept
  | select _ => .select
  | epollCreate1 => .epollCreate1
  | epollCtl _ => .epollCtl
  | epollWait _ => .epollWait
  | poll _ => .poll
  | fcntl _ _ => .fcntl
  | setsockopt _ => .setsockopt
  | getsockopt _ | getpeername _ => .getsockopt
  | getsockname _ => .getsockname
  | pthreadExit => .delRdmaConn

/-- The number of bytes a call asks for. -/
def size : HookCall → BitVec 64
  | send _ n | read _ n | write _ n | recv _ n => n
  | _ => 0

/-- The value a forwarded call returns for the one of `set_req_sock`, when the descriptor is
entered. -/
def result (v : ℤ) : HookCall → ℤ
  | socket => if v ≤ 2 then -1 else v
  | connect _ _ => 1
  | pthreadExit => 0
  | _ => v

/-! ### What a forwarded call sends and returns -/

theorem forwarded_of_route {tid : BitVec 32} {fdHt : FDHashTable} {env : HookEnv}
    {forwarded r : HookResult} {f : Forward} (h : route tid fdHt env forwarded = some r)
    (hf : r.forward = some f) :
  tid ≠ 0 ∧ env.rInfo = true ∧ r = forwarded
  := by
  unfold route at h
  split_ifs at h with htid hinfo
  · obtain rfl := Option.some.inj h
    cases hf
  · exact ⟨htid, hinfo, (Option.some.inj h).symm⟩

theorem forwarded_of_routeIfConnected {tid : BitVec 32} {fdHt : FDHashTable} {env : HookEnv}
    {forwarded r : HookResult} {f : Forward}
    (h : routeIfConnected tid fdHt env forwarded = some r) (hf : r.forward = some f) :
  tid ≠ 0 ∧ env.rInfo = true ∧ r = forwarded
  := by
  unfold routeIfConnected at h
  split_ifs at h with htid hinfo
  · obtain rfl := Option.some.inj h
    cases hf
  · exact ⟨htid, hinfo, (Option.some.inj h).symm⟩
  · obtain rfl := Option.some.inj h
    cases hf

/-- A routed call that is forwarded is forwarded whatever the reply. -/
theorem route_of_forward {tid : BitVec 32} {fdHt : FDHashTable} {env : HookEnv}
    {forwarded r : HookResult} {f : Forward} (h : route tid fdHt env forwarded = some r)
    (hf : r.forward = some f) (reply : BitVec 32) (forwarded' : HookResult) :
  route tid fdHt { env with reply } forwarded' = some forwarded'
  := by
  obtain ⟨htid, hinfo, -⟩ := forwarded_of_route h hf
  apply route_of_ne htid hinfo

theorem routeIfConnected_of_forward {tid : BitVec 32} {fdHt : FDHashTable} {env : HookEnv}
    {forwarded r : HookResult} {f : Forward}
    (h : routeIfConnected tid fdHt env forwarded = some r) (hf : r.forward = some f)
    (reply : BitVec 32) (forwarded' : HookResult) :
  routeIfConnected tid fdHt { env with reply } forwarded' = some forwarded'
  := by
  obtain ⟨htid, hinfo, -⟩ := forwarded_of_routeIfConnected h hf
  rw [routeIfConnected, if_neg htid, if_pos hinfo]

/-- When the descriptor is entered, the value of the reply is returned. -/
theorem enter_ret (fdHt : FDHashTable) (env : HookEnv) (hmalloc : ∀ h, env.malloc.pick h ≠ none)
    (f : Forward) :
  (enter fdHt env f).ret = env.reply.toInt
  := by
  obtain ⟨a, ha⟩ := Option.ne_none_iff_exists'.mp (hmalloc fdHt.heap)
  simp only [enter, fdInsertByValue, ChainTable.insertByValue, ha, if_true]

/-- A call that may enter the descriptor it returns. -/
theorem enterIfPos_ret (fdHt : FDHashTable) (env : HookEnv)
    (hmalloc : ∀ h, env.malloc.pick h ≠ none) (f : Forward) :
  (if 0 < env.reply.toInt then enter fdHt env f else ⟨fdHt, some f, env.reply.toInt⟩).ret
    = env.reply.toInt
  := by
  split
  · apply enter_ret fdHt env hmalloc
  · rfl

/-- What a forwarded call sends, and what it returns for a reply. -/
theorem run_of_forward {call : HookCall} {fdHt : FDHashTable} {env : HookEnv} {r : HookResult}
    {f : Forward} (hmalloc : ∀ h, env.malloc.pick h ≠ none) (hrun : call.run fdHt env = some r)
    (hf : r.forward = some f) (reply : BitVec 32) :
  f.req = call.req ∧ f.bufSz = call.size ∧
    ∃ r', call.run fdHt { env with reply } = some r' ∧ r'.ret = call.result reply.toInt
  := by
  cases call with
  | socket =>
      simp only [run, reqSock] at hrun ⊢
      split_ifs at hrun with hrdma hinfo hneg hstd
      · obtain rfl := Option.some.inj hrun
        cases hf
      all_goals
        obtain rfl := Option.some.inj hrun
        obtain rfl := Option.some.inj hf
        refine ⟨rfl, rfl, ?_⟩
        rw [if_neg hrdma, if_pos hinfo, result]
        split_ifs
        · exact ⟨_, rfl, rfl⟩
        · omega
        · exact ⟨_, rfl, rfl⟩
        · exact ⟨_, rfl, enter_ret fdHt { env with reply } hmalloc _⟩
  | epollCreate1 =>
      have hforward : f = ⟨0, .epollCreate1, 0, 0⟩ ∧ env.rInfo = true := by
        simp only [run, reqEpollCreate1] at hrun
        split_ifs at hrun with hinfo hreply
        · obtain rfl := Option.some.inj hrun
          exact ⟨(Option.some.inj hf).symm, hinfo⟩
        · obtain rfl := Option.some.inj hrun
          exact ⟨(Option.some.inj hf).symm, hinfo⟩
        · obtain rfl := Option.some.inj hrun
          cases hf
      obtain ⟨rfl, hinfo⟩ := hforward
      refine ⟨rfl, rfl, _, ?_,
        enterIfPos_ret fdHt { env with reply } hmalloc ⟨0, .epollCreate1, 0, 0⟩⟩
      simp only [run, reqEpollCreate1]
      rw [if_pos hinfo]
      split <;> rfl
  | accept d =>
      obtain ⟨-, -, rfl⟩ := forwarded_of_route hrun hf
      have hforward : f = ⟨d, .accept, 0, 0⟩ := by
        split at hf <;> exact (Option.some.inj hf).symm
      obtain rfl := hforward
      exact ⟨rfl, rfl, _, route_of_forward hrun hf reply _,
        enterIfPos_ret fdHt { env with reply } hmalloc ⟨d, .accept, 0, 0⟩⟩
  | connect d addr =>
      obtain ⟨-, -, rfl⟩ := forwarded_of_route hrun hf
      obtain rfl := Option.some.inj hf
      refine ⟨rfl, rfl, _, route_of_forward hrun hf reply _, ?_⟩
      obtain ⟨a, ha⟩ := Option.ne_none_iff_exists'.mp (hmalloc fdHt.heap)
      simp only [fdInsertByValue, ChainTable.insertByValue, ha, if_true, result]
  | pthreadExit =>
      simp only [run, reqPthreadExit] at hrun ⊢
      split_ifs at hrun ⊢
      obtain rfl := Option.some.inj hrun
      obtain rfl := Option.some.inj hf
      exact ⟨rfl, rfl, _, rfl, rfl⟩
  | read d n =>
      simp only [run] at hrun ⊢
      split_ifs at hrun ⊢
      · obtain rfl := Option.some.inj hrun
        cases hf
      · obtain ⟨-, -, rfl⟩ := forwarded_of_route hrun hf
        obtain rfl := Option.some.inj hf
        exact ⟨rfl, rfl, _, route_of_forward hrun hf reply _, rfl⟩
  | bind | listen =>
      obtain ⟨-, -, rfl⟩ := forwarded_of_routeIfConnected hrun hf
      obtain rfl := Option.some.inj hf
      exact ⟨rfl, rfl, _, routeIfConnected_of_forward hrun hf reply _, rfl⟩
  | send | recv | close | write | select | epollCtl | epollWait | poll | fcntl | setsockopt
  | getsockopt | getpeername | getsockname =>
      obtain ⟨-, -, rfl⟩ := forwarded_of_route hrun hf
      obtain rfl := Option.some.inj hf
      exact ⟨rfl, rfl, _, route_of_forward hrun hf reply _, rfl⟩

/-- What `set_req_sock` ends with, for a reply `m` with the value `v`: a buffer that is missing
hides the reply of a `read`. -/
structure Finished (call : HookCall) (app : AppArgs) (m : ByteMem) (v : ℤ) (s : SetReqResult) :
    Prop where
  mem : s.rInfo.mem.AgreeOn m rtnErrno rtnSize
  ret : s.ret.toInt = if call.req = .read ∧ app.buf = none then -1 else v
  errno : s.errno =
    if (call.req = .read ∧ app.buf = none) ∨ 0 ≤ v then none else some (SocketToRdma.errno m)
  copied : s.copied = if call.req = .read ∧ app.buf ≠ none then v.toNat else 0

end HookCall

/-- A value that fits an `int` is narrowed without loss. -/
theorem toInt_setWidth_of_fits {v : BitVec 64} (hv : -1 ≤ v.toInt) (hv' : v.toInt < 2 ^ 31) :
  (v.setWidth 32).toInt = v.toInt
  := by
  have hlt := v.isLt
  rw [BitVec.toInt_eq_toNat_cond] at hv hv' ⊢
  rw [BitVec.toInt_eq_toNat_cond, BitVec.toNat_setWidth]
  split_ifs at * <;> omega

/-- The number of bytes copied for such a value. -/
theorem toNat_copied {v : BitVec 64} (hv : 0 ≤ v.toInt) (hv' : v.toInt < 2 ^ 31) :
  ((v.setWidth 32).signExtend 64).toNat = v.toInt.toNat
  := by
  have hlt := v.isLt
  rw [BitVec.toInt_eq_toNat_cond] at hv hv' ⊢
  rw [toNat_narrowed]
  split_ifs at * <;> omega

namespace HookCall

/-- When the request is sent and answered, and the data of a `write` fit, `set_req_sock` ends
with what the reply says. -/
theorem exists_finished {call : HookCall} {x : Exchange} {h : RInfo} {f : Forward}
    (app : AppArgs) (hreq : f.req = call.req) (hmr : h.rtnMr) (hpost : 0 ≤ x.postWriteReq.toInt)
    (hpoll : 0 ≤ x.processPollCqImm.toInt) (hv : -1 ≤ (value x.reply).toInt)
    (hv' : (value x.reply).toInt < 2 ^ 31)
    (hfit : call.req = .write → f.bufSz.toNat + 12 < 2 ^ 64) :
  ∃ s, setReqSock x h (f.reqArgs app) = some s ∧
    call.Finished app x.reply (value x.reply).toInt s
  := by
  have ha : (f.reqArgs app).reqRdma = call.req.code := by
    rw [← hreq]
    rfl
  obtain ⟨h', posted, hs, hagree, -⟩ := setReqSock_of_reply ha hmr hpost hpoll
    fun hwrite => (copySize_fits_iff _).mpr (hfit hwrite)
  refine ⟨_, hs, ?_⟩
  have hvalue : value h'.mem = value x.reply := (hagree.mono (by decide) (by decide)).loadBits
  have herrno : errno h'.mem = errno x.reply := (hagree.mono (by decide) (by decide)).loadBits
  have hread : (f.reqArgs app).reqRdma = RdmaReq.read.code ↔ call.req = .read := by
    rw [ha, RdmaReq.code_inj]
  have hbuf : ¬ (f.reqArgs app).hasBuf = true ↔ app.buf = none := by
    simp [Forward.reqArgs]
  have hint := toInt_setWidth_of_fits hv hv'
  simp only [finishRequest, hvalue, herrno, hread, hbuf]
  by_cases hmissing : call.req = .read ∧ app.buf = none
  · rw [if_pos hmissing]
    constructor
    · apply hagree
    · rw [if_pos hmissing]
      rfl
    · rw [if_pos (Or.inl hmissing)]
    · rw [if_neg fun hpresent => hpresent.2 hmissing.2]
  · rw [if_neg hmissing]
    split
    case isTrue hneg =>
      have hone : (value x.reply).toInt = -1 := by omega
      constructor
      · apply hagree
      · rw [if_neg hmissing]
        split
        · apply hint
        · apply hone.symm
      · exact (if_neg fun h => h.elim hmissing hneg.not_ge).symm
      · rw [hone]
        exact (ite_self _).symm
    case isFalse hneg =>
      constructor
      · apply hagree
      · rw [if_neg hmissing]
        apply hint
      · exact (if_pos (Or.inr (not_lt.mp hneg))).symm
      · have hpresent : call.req = .read ∧ app.buf ≠ none ↔ call.req = .read := by
          constructor
          · apply And.left
          · intro hcall
            exact ⟨hcall, fun hnone => hmissing ⟨hcall, hnone⟩⟩
        rw [toNat_copied (not_lt.mp hneg) hv']
        simp only [hpresent]

/-! ### Transparency -/

/-- The call returns the value of the reply, sets `errno` to the one of the reply exactly when
the value is negative, and, if it is a `read` or `recv`, writes the data of the reply into the
buffer and nothing else. A `socket` returns the value of the reply when it is above `2`. -/
def Transparent (fdHt : FDHashTable) (env : HookEnv) (x : Exchange) (h : RInfo) (f : Forward)
    (app : AppArgs) (call : HookCall) : Prop :=
  let v := (value x.reply).toInt
  ∃ o, call.complete fdHt env x h f app = some o ∧
    ((call = .socket → 2 < v) → o.ret = v) ∧
    o.errno = (if v < 0 then some (SocketToRdma.errno x.reply) else none) ∧
    (call.req = .read → 0 ≤ v → v ≤ call.size.toNat →
      o.buf = app.buf.map fun b j => if j < v.toNat then x.reply (rtnData + j) else b j)

/-- Every copy of the call stays inside its objects. -/
def Fits (app : AppArgs) (m : ByteMem) : HookCall → Prop
  | send _ n | write _ n => n.toNat + 12 < 2 ^ 64
  | read _ n | recv _ n =>
      app.buf ≠ none → (value m).toInt ≤ n.toNat ∧ (value m).toInt ≤ bufferSize
  | epollWait _ => ∀ k, app.maxevents = some k → decodedEvents m ≤ k.toInt.toNat
  | poll _ =>
      app.nfds.toNat ≤ 74998 ∧ (0 < (value m).toInt → decodedPollfds m ≤ app.nfds.toNat)
  | fcntl _ cmd => fcntlFlag cmd = 2 → 32 ≤ app.vararg
  | setsockopt _ => app.optlen.toNat ≤ 599988
  | getsockopt _ => app.hasOptlen → app.malloc → decodedOptlen m ≤ 599988
  | getpeername _ => ∀ k, app.addrlen = some k → 16 ≤ k.toNat
  | getsockname _ =>
      (∀ k, app.addrlen = some k → 16 ≤ k.toNat) ∧ ((value m).toInt = 0 → app.addrlen ≠ none)
  | _ => True

/-- The reply `m` is passed on as it is: the copies fit, a `connect` returned `1`, and a `read` has
a buffer. -/
structure Passes (app : AppArgs) (m : ByteMem) (call : HookCall) : Prop where
  fits : call.Fits app m
  connect : ∀ d addr, call = .connect d addr → (value m).toInt = 1
  buf : call.req = .read → app.buf ≠ none

theorem addrAccesses_iff (app : AppArgs) :
  Access.AllInBounds app.addrAccesses ↔ ∀ k, app.addrlen = some k → 16 ≤ k.toNat
  := by
  unfold AppArgs.addrAccesses
  cases app.addrlen with
  | none => simp
  | some k => simp

/-- The accesses of a call are in bounds exactly when its copies fit. -/
theorem inBounds_iff {call : HookCall} {app : AppArgs} {m : ByteMem} {s : SetReqResult}
    (hs : call.Finished app m (value m).toInt s) :
  Access.AllInBounds (call.encodes app) ∧ Access.AllInBounds (call.decodes app s) ∧
      (call.req = .write → call.size.toNat + 12 < 2 ^ 64) ↔
    call.Fits app m
  := by
  have hret := hs.ret
  have hcopied := hs.copied
  cases call with
  | read d n | recv d n =>
      simp only [req, true_and] at hcopied
      simp only [encodes, decodes, req, Fits, Access.allInBounds_nil, Access.allInBounds_cons,
        true_and, and_true, reduceCtorEq, false_imp_iff, hcopied, Nat.zero_add]
      by_cases hbuf : app.buf = none
      · simp [hbuf]
      · simp only [hbuf, ne_eq, not_false_eq_true, if_true, true_imp_iff]
        omega
  | epollWait d =>
      have hevents : decodedEvents s.rInfo.mem = decodedEvents m := by
        rw [decodedEvents, (hs.mem.mono (by decide) (by decide)).loadBits]
        rfl
      simp only [encodes, decodes, req, Fits, Access.allInBounds_nil, true_and, reduceCtorEq,
        false_imp_iff, and_true]
      cases app.maxevents with
      | none => simp
      | some k => simp [hevents]
  | poll d =>
      have hfds : decodedPollfds s.rInfo.mem = decodedPollfds m := by
        rw [decodedPollfds, (hs.mem.mono (by decide) (by decide)).loadBits]
        rfl
      simp only [req, reduceCtorEq, false_and, if_false] at hret
      simp only [encodes, decodes, req, Fits, Access.allInBounds_nil, Access.allInBounds_cons,
        and_true, reduceCtorEq, false_imp_iff, hret, hfds, bufferSize]
      split
      case isTrue hpos =>
        simp only [Access.allInBounds_nil, Access.allInBounds_cons, and_true, hpos, true_imp_iff]
        omega
      case isFalse hpos =>
        simp only [Access.allInBounds_nil, and_true, hpos, false_imp_iff]
        omega
  | fcntl d cmd =>
      simp only [encodes, decodes, req, Fits, Access.allInBounds_nil, reduceCtorEq, false_imp_iff,
        and_true]
      split
      case isTrue hflag => simp [hflag]
      case isFalse hflag =>
        apply iff_of_true Access.allInBounds_nil
        intro h
        cases hflag h
  | setsockopt d =>
      simp only [encodes, decodes, req, Fits, Access.allInBounds_nil, Access.allInBounds_cons,
        reduceCtorEq, false_imp_iff, and_true, bufferSize]
      omega
  | getsockopt d =>
      have hoptlen : decodedOptlen s.rInfo.mem = decodedOptlen m := by
        rw [decodedOptlen, (hs.mem.mono (by decide) (by decide)).loadBits]
        rfl
      simp only [encodes, decodes, req, Fits, Access.allInBounds_nil, reduceCtorEq, false_imp_iff,
        and_true, true_and, hoptlen, ← and_imp]
      split
      case isTrue hdecode =>
        simp only [hdecode, and_self, true_imp_iff, Access.allInBounds_nil,
          Access.allInBounds_cons, and_true, bufferSize]
        omega
      case isFalse hdecode => simp [hdecode]
  | getsockname d =>
      simp only [req, reduceCtorEq, false_and, if_false] at hret
      have hzero : s.ret = 0 ↔ (value m).toInt = 0 := by
        rw [← hret, ← BitVec.toInt_inj]
        rfl
      simp only [encodes, decodes, req, Fits, Access.allInBounds_append, addrAccesses_iff,
        reduceCtorEq, false_imp_iff, and_true, hzero]
      by_cases hv : (value m).toInt = 0
      · cases haddrlen : app.addrlen with
        | none => simp [hv]
        | some k => simp [hv]
      · simp [hv]
  | getpeername d => simp [encodes, decodes, req, Fits, addrAccesses_iff]
  | _ => simp [encodes, decodes, req, size, Fits]

/-- A call whose copies fit has a result, made from what `set_req_sock` ends with. -/
theorem complete_of_fits {call : HookCall} {fdHt : FDHashTable} {env : HookEnv} {r : HookResult}
    {f : Forward} {x : Exchange} {h : RInfo} {app : AppArgs} {s : SetReqResult}
    (hmalloc : ∀ h, env.malloc.pick h ≠ none) (hrun : call.run fdHt env = some r)
    (hf : r.forward = some f) (hs : setReqSock x h (f.reqArgs app) = some s)
    (henc : Access.AllInBounds (call.encodes app))
    (hdec : Access.AllInBounds (call.decodes app s)) :
  call.complete fdHt env x h f app = some
    { ret := call.result s.ret.toInt
      errno := s.errno
      buf := app.buf.map fun b j => if j < s.copied then s.rInfo.mem (rtnData + j) else b j }
  := by
  obtain ⟨-, -, r', hr', hret⟩ := run_of_forward hmalloc hrun hf s.ret
  rw [complete, if_neg (not_not.mpr henc), hs, Option.bind_some, if_neg (not_not.mpr hdec), hr',
    Option.map_some, hret]

/-- A call with a result stays in bounds, and its result is made from what `set_req_sock` ends
with. -/
theorem complete_eq_some {call : HookCall} {fdHt : FDHashTable} {env : HookEnv} {r : HookResult}
    {f : Forward} {x : Exchange} {h : RInfo} {app : AppArgs} {s : SetReqResult} {o : HookOutcome}
    (hmalloc : ∀ h, env.malloc.pick h ≠ none) (hrun : call.run fdHt env = some r)
    (hf : r.forward = some f) (hs : setReqSock x h (f.reqArgs app) = some s)
    (ho : call.complete fdHt env x h f app = some o) :
  Access.AllInBounds (call.encodes app) ∧ Access.AllInBounds (call.decodes app s) ∧
    o = { ret := call.result s.ret.toInt
          errno := s.errno
          buf := app.buf.map fun b j => if j < s.copied then s.rInfo.mem (rtnData + j) else b j }
  := by
  by_cases henc : Access.AllInBounds (call.encodes app)
  · by_cases hdec : Access.AllInBounds (call.decodes app s)
    · rw [complete_of_fits hmalloc hrun hf hs henc hdec] at ho
      exact ⟨henc, hdec, (Option.some.inj ho).symm⟩
    · rw [complete, if_neg (not_not.mpr henc), hs, Option.bind_some, if_pos hdec] at ho
      cases ho
  · rw [complete, if_pos henc] at ho
    cases ho

/-- The buffer of a `read` after the data of the reply were copied. -/
theorem Finished.buf {call : HookCall} {app : AppArgs} {m : ByteMem} {s : SetReqResult}
    (hs : call.Finished app m (value m).toInt s) (hread : call.req = .read)
    (hbuf : app.buf ≠ none) (hle : (value m).toInt ≤ bufferSize) :
  (app.buf.map fun b j => if j < s.copied then s.rInfo.mem (rtnData + j) else b j) =
    app.buf.map fun b j => if j < (value m).toInt.toNat then m (rtnData + j) else b j
  := by
  rw [hs.copied, if_pos ⟨hread, hbuf⟩]
  apply congrArg fun g => app.buf.map g
  funext b j
  split
  case isTrue hj =>
    unfold bufferSize at hle
    apply hs.mem
    · unfold rtnErrno rtnData
      omega
    · unfold rtnErrno rtnData rtnSize
      omega
  case isFalse => rfl

theorem Passes.le_bufferSize {call : HookCall} {app : AppArgs} {m : ByteMem}
    (h : call.Passes app m) (hread : call.req = .read) :
  (value m).toInt ≤ bufferSize
  := by
  have hfits := h.fits
  cases call with
  | read | recv => exact (hfits (h.buf hread)).2
  | _ => cases hread

theorem Passes.lt_of_write {call : HookCall} {app : AppArgs} {m : ByteMem}
    (h : call.Passes app m) (hwrite : call.req = .write) :
  call.size.toNat + 12 < 2 ^ 64
  := by
  have hfits := h.fits
  cases call with
  | send | write => exact hfits
  | _ => cases hwrite

/-- What a call returns is what the reply says exactly for the replies that are passed on. -/
theorem result_iff {call : HookCall} {app : AppArgs} {m : ByteMem} {s : SetReqResult}
    (hs : call.Finished app m (value m).toInt s) (hexit : call ≠ .pthreadExit) :
  ((call = .socket → 2 < (value m).toInt) → call.result s.ret.toInt = (value m).toInt) ∧
      s.errno = (if (value m).toInt < 0 then some (SocketToRdma.errno m) else none) ↔
    (∀ d addr, call = .connect d addr → (value m).toInt = 1) ∧ (call.req = .read → app.buf ≠ none)
  := by
  rw [hs.ret, hs.errno]
  constructor
  · rintro ⟨hret, herrno⟩
    constructor
    · rintro d addr rfl
      apply (hret fun h => by cases h).symm
    · intro hread hbuf
      have hsocket : call ≠ .socket := by
        rintro rfl
        cases hread
      rw [if_pos (Or.inl ⟨hread, hbuf⟩)] at herrno
      rw [if_pos ⟨hread, hbuf⟩] at hret
      have hminus : (value m).toInt = -1 := by
        rw [← hret fun h => absurd h hsocket]
        cases call with
        | read | recv => rfl
        | _ => cases hread
      rw [hminus] at herrno
      cases herrno
  · rintro ⟨hconnect, hbuf⟩
    have hpresent : ¬ (call.req = .read ∧ app.buf = none) := fun h => hbuf h.1 h.2
    simp only [hpresent, false_or, if_false]
    constructor
    · intro hsocket
      cases call with
      | socket =>
          rw [result, if_neg (not_le.mpr (hsocket rfl))]
      | connect d addr => apply (hconnect d addr rfl).symm
      | pthreadExit => cases hexit rfl
      | _ => rfl
    · simp only [← not_lt, ite_not]

/-- A forwarded call passes on its result exactly when its copies fit, a `connect` returned `1`, and
a `read` has a buffer. -/
theorem transparent_iff {call : HookCall} {fdHt : FDHashTable} {env : HookEnv} {r : HookResult}
    {f : Forward} (x : Exchange) (h : RInfo) (app : AppArgs)
    (hmalloc : ∀ h, env.malloc.pick h ≠ none) (hrun : call.run fdHt env = some r)
    (hf : r.forward = some f) (hexit : call ≠ .pthreadExit) (hmr : h.rtnMr)
    (hpost : 0 ≤ x.postWriteReq.toInt) (hpoll : 0 ≤ x.processPollCqImm.toInt)
    (hv : -1 ≤ (value x.reply).toInt) (hv' : (value x.reply).toInt < 2 ^ 31) :
  call.Transparent fdHt env x h f app ↔ call.Passes app x.reply
  := by
  obtain ⟨hreq, hsize, -⟩ := run_of_forward hmalloc hrun hf 0
  by_cases hfit : call.req = .write → f.bufSz.toNat + 12 < 2 ^ 64
  · obtain ⟨s, hs, hfin⟩ := exists_finished app hreq hmr hpost hpoll hv hv' hfit
    have hfits := inBounds_iff hfin
    rw [hsize] at hfit
    constructor
    · rintro ⟨o, ho, hret, herrno, -⟩
      obtain ⟨henc, hdec, rfl⟩ := complete_eq_some hmalloc hrun hf hs ho
      obtain ⟨hconnect, hbuf⟩ := (result_iff hfin hexit).mp ⟨hret, herrno⟩
      exact ⟨hfits.mp ⟨henc, hdec, hfit⟩, hconnect, hbuf⟩
    · intro hp
      obtain ⟨henc, hdec, -⟩ := hfits.mpr hp.fits
      obtain ⟨hret, herrno⟩ := (result_iff hfin hexit).mpr ⟨hp.connect, hp.buf⟩
      refine ⟨_, complete_of_fits hmalloc hrun hf hs henc hdec, hret, herrno, ?_⟩
      intro hread _ _
      apply hfin.buf hread (hp.buf hread) (hp.le_bufferSize hread)
  · have hwrite : call.req = .write := by
      by_contra hne
      exact hfit fun h => absurd h hne
    have hnone : call.complete fdHt env x h f app = none := by
      have hcopy : ¬ (copySize f.bufSz).toNat ≤ bufferSize := by
        rw [copySize_fits_iff]
        exact fun h => hfit fun _ => h
      have ha : (f.reqArgs app).reqRdma = RdmaReq.write.code := by
        rw [← hwrite, ← hreq]
        rfl
      rw [complete, setReqSock_eq_none ha x h hcopy]
      split <;> rfl
    constructor
    · rintro ⟨o, ho, -⟩
      rw [hnone] at ho
      cases ho
    · intro hp
      apply (hfit _).elim
      rw [hsize]
      exact fun _ => hp.lt_of_write hwrite

end HookCall

/-! ### Two calls on a socket -/

/-- A reply with a value and an `errno`, and no data. -/
def Exchange.replying (v : BitVec 64) (e : BitVec 32) : Exchange :=
  ⟨0, 1, (setErrno (setValue zeros v) e).load rtnErrno rtnSize⟩

theorem value_replying (v : BitVec 64) (e : BitVec 32) :
  value (Exchange.replying v e).reply = v
  := by
  have hagree := ByteMem.agreeOn_store_load zeros (setErrno (setValue zeros v) e) rtnErrno rtnSize
  have hvalue : value (Exchange.replying v e).reply = value (setErrno (setValue zeros v) e) :=
    (hagree.mono (by decide) (by decide)).loadBits
  rw [hvalue, value_setErrno, value_setValue]

/-- An application that passes a buffer. -/
def withBuffer : AppArgs where
  buf := some zeros
  message := zeros
  nfds := 0
  optlen := 0
  maxevents := none
  addrlen := none
  hasOptlen := false
  vararg := 0
  malloc := true

namespace HookCall

theorem run_recv_afterSocket (n : BitVec 64) :
  run afterSocket replyFive (.recv 5#32 n) =
    some (callServer afterSocket replyFive 5#32 .read n 0)
  := by
  rw [run, reqRecv, route_of_ne tid_afterSocket rfl]

theorem run_connect_afterSocket (addr : SockAddr) :
  ∃ r, run afterSocket replyFive (.connect 5#32 addr) = some r ∧
    r.forward = some ⟨5#32, .connect, 0, addr.hostPort⟩
  := by
  rw [run, reqConnect, route_of_ne tid_afterSocket rfl]
  exact ⟨_, rfl, rfl⟩

/-- Four bytes that are received are passed on. -/
theorem transparent_iff_recv :
  (recv 5#32 4).Transparent afterSocket replyFive (.replying 4 0) idleRInfo ⟨5#32, .read, 4, 0⟩
    withBuffer
  := by
  have hvalue : (value (Exchange.replying 4 0).reply).toInt = 4 := by
    rw [value_replying]
    rfl
  apply (transparent_iff (.replying 4 0) idleRInfo withBuffer replyFive_ok.malloc
    (run_recv_afterSocket 4) rfl (by simp) rfl (by decide) (by decide) (by rw [hvalue]; decide)
    (by rw [hvalue]; decide)).mpr
  constructor
  · intro _
    rw [hvalue]
    decide
  · intro _ _ h
    cases h
  · intro _ h
    cases h

/-- A `connect` that was refused is reported as a success. -/
theorem connect_not_transparent :
  ∃ r f, run afterSocket replyFive (.connect 5#32 ⟨2, 0⟩) = some r ∧ r.forward = some f ∧
    (∃ o, (connect 5#32 ⟨2, 0⟩).complete afterSocket replyFive (.replying (-1) 111) idleRInfo f
      withBuffer = some o ∧ o.ret = 1) ∧
    ¬ (connect 5#32 ⟨2, 0⟩).Transparent afterSocket replyFive (.replying (-1) 111) idleRInfo f
      withBuffer
  := by
  have hvalue : (value (Exchange.replying (-1) 111).reply).toInt = -1 := by
    rw [value_replying]
    rfl
  obtain ⟨r, hrun, hf⟩ := run_connect_afterSocket ⟨2, 0⟩
  have hreq : (⟨5#32, .connect, 0, SockAddr.hostPort ⟨2, 0⟩⟩ : Forward).req =
      (connect 5#32 ⟨2, 0⟩).req := rfl
  obtain ⟨s, hs, hfin⟩ := exists_finished (x := .replying (-1) 111) (h := idleRInfo) withBuffer
    hreq rfl (by decide) (by decide) (by rw [hvalue]) (by rw [hvalue]; decide)
    (fun h => by cases h)
  have hcomplete := complete_of_fits replyFive_ok.malloc hrun hf hs Access.allInBounds_nil
    Access.allInBounds_nil
  refine ⟨r, _, hrun, hf, ⟨_, hcomplete, rfl⟩, ?_⟩
  rintro ⟨o, ho, hret, -⟩
  rw [hcomplete] at ho
  obtain rfl := Option.some.inj ho
  have hone := hret fun h => by cases h
  rw [hvalue] at hone
  cases hone

end HookCall

end SocketToRdma
