import SocketToRdma.Host.Routing
import SocketToRdma.Remote.Call
import SocketToRdma.RoundTrip
import SocketToRdma.Server.Bounds

/-!
# A remote `getsockopt`

The hook of `getsockopt` encodes nothing: the server decodes the level, the option and the length
from whatever an earlier request left in the buffer. The value comes back in the reply, and the
hook decodes it into memory of its own, so that the caller gets its length only.
-/

namespace SocketToRdma

/-- The objects of the caller of `getsockopt`: its buffer and the length it points to. -/
structure OptBuffer where
  optval : ByteMem
  optlen : BitVec 32

/-- The objects of the caller after `req_getsockopt`, when `set_req_sock` ended with `s`: the value
is decoded into memory that is allocated for it. -/
def getsockoptReturned (s : SetReqResult) (malloc : Bool) (b : OptBuffer) : OptBuffer :=
  { b with optlen := (deserializeSockoptDt s.rInfo.mem rtnData malloc).optlen }

/-- The objects of the caller after a `getsockopt` that left an option of `o.len` bytes. -/
def OptBuffer.received (b : OptBuffer) (o : Outcome) : OptBuffer where
  optval := fun j => if j < o.len.toNat then o.buf j else b.optval j
  optlen := o.len

/-- A forwarded `getsockopt` is the `getsockopt` of the caller: the server executes it with its
level, option and length, for which it has the memory, and an option that fits the buffer is
received. -/
structure GetsockoptFaithful (env : ServerEnv) (c : ClientRInfo) (h : RInfo) (f : Forward)
    (fd level optname : BitVec 32) (b : OptBuffer) : Prop where
  executed : ∃ optval, executed env c h f = [.getsockopt fd ⟨level, optname, b.optlen, optval⟩]
  decodes : Access.AllInBounds
    (deserializeSockoptAccesses env.toHandlerEnv (c.receive (f.request h)).mem)
  returned : 0 ≤ env.outcome.int.toInt → env.outcome.len.toNat ≤ b.optlen.toNat →
    ∃ s, callServerWith env c h f = some s ∧
      ∀ malloc, getsockoptReturned s malloc b = b.received env.outcome

theorem serves_getsockopt (env : ServerEnv) {c : ClientRInfo} (h : c.request = some .getsockopt) :
  Serves env c (sockGetsockopt env.toHandlerEnv c.mem c.sockfd)
  := serves_handler h (by decide) (fills_sockGetsockopt _ _ _) (Or.inl rfl)

/-- A forwarded `getsockopt` is a `getsockopt` request on its descriptor. -/
theorem forward_of_getsockopt {fdHt : FDHashTable} {hook : HookEnv} {r : HookResult} {f : Forward}
    {fd : BitVec 32} (hrun : HookCall.run fdHt hook (.getsockopt fd) = some r)
    (hf : r.forward = some f) :
  f = ⟨fd, .getsockopt, 0, 0⟩
  := (Option.some.inj (HookCall.forward_of_route hrun hf)).symm

/-! ### The format -/

/-- The header of the socket options is decoded from its bytes. -/
theorem deserializeSockoptDt_congr {m m' : ByteMem} {p : ℕ} (h : m'.AgreeOn m p 12)
    (malloc : Bool) :
  (deserializeSockoptDt m' p malloc).level = m.loadBits 32 p ∧
    (deserializeSockoptDt m' p malloc).optname = m.loadBits 32 (p + 4) ∧
    (deserializeSockoptDt m' p malloc).optlen = m.loadBits 32 (p + 8)
  := by
  refine ⟨?_, ?_, ?_⟩
  · apply (h.mono (le_refl _) (by omega)).loadBits
  · apply (h.mono (by omega) (by omega)).loadBits
  · apply (h.mono (by omega) (by omega)).loadBits

/-! ### The call of the server -/

/-- The server executes the `getsockopt` that its buffer says. -/
theorem executed_getsockopt (env : ServerEnv) (c : ClientRInfo) (h : RInfo) (fd : BitVec 32) :
  ∃ optval, executed env c h ⟨fd, .getsockopt, 0, 0⟩ =
    [.getsockopt fd ⟨h.mem.loadBits 32 reqData, h.mem.loadBits 32 (reqData + 4),
      h.mem.loadBits 32 (reqData + 8), optval⟩]
  := by
  have hserves := serves_getsockopt env (receive_request c h ⟨fd, .getsockopt, 0, 0⟩)
  obtain ⟨hlevel, hoptname, hoptlen⟩ := deserializeSockoptDt_congr
    ((receive_data c h ⟨fd, .getsockopt, 0, 0⟩).mono (le_refl _) (by decide)) env.malloc
  rw [executed, hserves.calls]
  simp only [sockGetsockopt]
  rw [receive_sockfd, ← hlevel, ← hoptname, ← hoptlen]
  exact ⟨_, rfl⟩

/-- The decoder of the server stays in the request when the length it finds does. -/
theorem decodes_getsockopt_iff (env : ServerEnv) (c : ClientRInfo) (h : RInfo) (f : Forward) :
  Access.AllInBounds
      (deserializeSockoptAccesses env.toHandlerEnv (c.receive (f.request h)).mem) ↔
    (env.malloc → (h.mem.loadBits 32 (reqData + 8)).toNat ≤ 599988)
  := by
  rw [deserializeSockoptAccesses_iff, (deserializeSockoptDt_congr
    ((receive_data c h f).mono (le_refl _) (by decide)) true).2.2]

/-- When the option was read, the caller gets its length, and its buffer stays as it was. -/
theorem getsockoptReturned_of_answered {env : HandlerEnv} {m : ByteMem} {sockfd : BitVec 32}
    {s : SetReqResult} (h : Answered (sockGetsockopt env m sockfd) s)
    (hret : 0 ≤ env.outcome.int.toInt) (malloc : Bool) (b : OptBuffer) :
  getsockoptReturned s malloc b = { b with optlen := env.outcome.len }
  := by
  have hoptlen := (deserializeSockoptDt_congr (h.mem.mono (q := rtnData) (by decide) (by decide))
    malloc).2.2
  simp only [sockGetsockopt] at hoptlen
  rw [if_neg (not_lt.mpr hret), (loads_serializeSockoptDt ..).2.2.1] at hoptlen
  rw [getsockoptReturned, hoptlen]

/-- The buffer of the caller is as it is after the call exactly when it starts with the option. -/
theorem received_eq_iff (b : OptBuffer) (o : Outcome) :
  { b with optlen := o.len } = b.received o ↔ ∀ j < o.len.toNat, b.optval j = o.buf j
  := by
  constructor
  · intro h j hj
    have hbyte : b.optval j = (b.received o).optval j := congrArg (fun b => b.optval j) h
    rw [hbyte, OptBuffer.received]
    apply if_pos hj
  · intro h
    have hoptval : b.optval = (b.received o).optval := by
      funext j
      simp only [OptBuffer.received]
      split
      case isTrue hj => apply h j hj
      case isFalse => rfl
    apply congrArg (OptBuffer.mk · o.len) hoptval

/-- A forwarded `getsockopt` is the one of the caller exactly when an earlier request left its
level, its option and its length in the buffer, the length fits there, and the buffer of the
caller holds the option already. -/
theorem getsockopt_faithful_iff {fdHt : FDHashTable} {hook : HookEnv} {r : HookResult}
    {f : Forward} {fd : BitVec 32} (env : ServerEnv) (c : ClientRInfo) {h : RInfo}
    (level optname : BitVec 32) (b : OptBuffer)
    (hrun : HookCall.run fdHt hook (.getsockopt fd) = some r) (hf : r.forward = some f)
    (hmr : h.rtnMr) :
  GetsockoptFaithful env c h f fd level optname b ↔
    h.mem.loadBits 32 reqData = level ∧ h.mem.loadBits 32 (reqData + 4) = optname ∧
      h.mem.loadBits 32 (reqData + 8) = b.optlen ∧ (env.malloc → b.optlen.toNat ≤ 599988) ∧
      (0 ≤ env.outcome.int.toInt → env.outcome.len.toNat ≤ b.optlen.toNat →
        ∀ j < env.outcome.len.toNat, b.optval j = env.outcome.buf j)
  := by
  obtain rfl := forward_of_getsockopt hrun hf
  have hserves := serves_getsockopt env (receive_request c h ⟨fd, .getsockopt, 0, 0⟩)
  obtain ⟨s, hs, -, hanswered⟩ := callServerWith_answered hmr
    (show RdmaReq.getsockopt ≠ .write by decide) (show RdmaReq.getsockopt ≠ .read by decide) hserves
  obtain ⟨optval, hexecuted⟩ := executed_getsockopt env c h fd
  have hdecodes := decodes_getsockopt_iff env c h ⟨fd, .getsockopt, 0, 0⟩
  constructor
  · rintro ⟨⟨optval', heq⟩, hinbounds, hreturned⟩
    rw [hexecuted] at heq
    simp only [List.cons.injEq, Syscall.getsockopt.injEq, SockoptArgs.mk.injEq, and_true,
      true_and] at heq
    obtain ⟨hlevel, hoptname, hoptlen, -⟩ := heq
    refine ⟨hlevel, hoptname, hoptlen, ?_, ?_⟩
    · rw [← hoptlen]
      apply hdecodes.mp hinbounds
    · intro hret hlen
      obtain ⟨s', hs', hall⟩ := hreturned hret hlen
      rw [hs] at hs'
      obtain rfl := Option.some.inj hs'
      rw [← received_eq_iff, ← getsockoptReturned_of_answered hanswered hret true]
      apply hall
  · rintro ⟨rfl, rfl, hoptlen, hfits, hreceived⟩
    constructor
    · rw [← hoptlen]
      exact ⟨optval, hexecuted⟩
    · rw [hdecodes, hoptlen]
      apply hfits
    · intro hret hlen
      use s, hs
      intro malloc
      rw [getsockoptReturned_of_answered hanswered hret, received_eq_iff]
      apply hreceived hret hlen

theorem run_getsockopt_afterSocket :
  HookCall.run afterSocket replyFive (.getsockopt 5#32) =
    some (callServer afterSocket replyFive 5#32 .getsockopt 0 0)
  := by
  rw [HookCall.run, reqGetsockopt, HookCall.route_of_ne fd_afterSocket rfl]

/-- The option `0` of the level `0`, into an empty buffer. -/
theorem getsockopt_faithful_iff_empty :
  GetsockoptFaithful (.ofOutcome (.ofRet 0 0)) (.received .getsockopt 0) idleRInfo
    ⟨5#32, .getsockopt, 0, 0⟩ 5#32 0 0 ⟨zeros, 0⟩
  := by
  apply (getsockopt_faithful_iff (.ofOutcome (.ofRet 0 0)) (.received .getsockopt 0) 0 0 ⟨zeros, 0⟩
    run_getsockopt_afterSocket rfl rfl).mpr
  refine ⟨rfl, rfl, rfl, fun _ => by decide, ?_⟩
  intro _ _ j hj
  cases hj

/-- `SO_ERROR` of the descriptor `5` is asked for as the option `0` of the level `0`. -/
theorem so_error_not_faithful :
  (∃ r, HookCall.run afterSocket replyFive (.getsockopt 5#32) = some r ∧
      r.forward = some ⟨5#32, .getsockopt, 0, 0⟩) ∧
    ¬ GetsockoptFaithful (.ofOutcome (.ofRet 0 0)) (.received .getsockopt 0) idleRInfo
      ⟨5#32, .getsockopt, 0, 0⟩ 5#32 1 4 ⟨zeros, 4⟩
  := by
  use ⟨_, run_getsockopt_afterSocket, rfl⟩
  rintro ⟨⟨optval, hexecuted⟩, -, -⟩
  obtain ⟨optval', heq⟩ := executed_getsockopt (.ofOutcome (.ofRet 0 0)) (.received .getsockopt 0)
    idleRInfo 5#32
  rw [heq] at hexecuted
  simp only [List.cons.injEq, Syscall.getsockopt.injEq, SockoptArgs.mk.injEq] at hexecuted
  cases hexecuted.1.2.1

end SocketToRdma
