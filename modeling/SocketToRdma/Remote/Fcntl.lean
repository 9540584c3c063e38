import SocketToRdma.Host.Routing
import SocketToRdma.Remote.Call
import SocketToRdma.RoundTrip

/-!
# A remote `fcntl`

The hook encodes the command and what it takes for its argument: the application's own one is not
passed on to `req_fcntl`. The encoder tells the kind of the argument in a flag, which it leaves
in the variable of the descriptor, and the server passes on the pointer that the decoder
allocated for the argument. So the descriptor of the call is the flag, and its argument is an
address on the server.
-/

namespace SocketToRdma

/-- The commands that take an `int`. -/
def TakesInt (cmd : BitVec 32) : Prop :=
  cmd = fSetfd ∨ cmd = fSetfl ∨ cmd = fDupfd

instance : DecidablePred TakesInt := fun cmd => by
  unfold TakesInt
  infer_instance

/-- The commands without an argument. -/
def TakesNone (cmd : BitVec 32) : Prop :=
  cmd = fGetfd ∨ cmd = fGetfl

theorem fcntlFlag_of_takesInt {cmd : BitVec 32} (h : TakesInt cmd) :
  fcntlFlag cmd = 1
  := by
  obtain rfl | rfl | rfl := h <;> rfl

theorem fcntlFlag_of_takesNone {cmd : BitVec 32} (h : TakesNone cmd) :
  fcntlFlag cmd = 0
  := if_pos h

theorem TakesNone.not_takesInt {cmd : BitVec 32} (h : TakesNone cmd) :
  ¬ TakesInt cmd
  := by
  obtain rfl | rfl := h <;> decide

/-! ### The format -/

/-- The command and the flag are read back as they were encoded. -/
theorem deserializeFcntlDt_of_agreeOn {m m' : ByteMem} {p : ℕ} {cmd : BitVec 32} {arg : FcntlArg}
    (hm : m'.AgreeOn (serializeFcntlDt m p cmd arg).1 p 8) (malloc : Bool) :
  (deserializeFcntlDt m' p malloc).cmd = cmd ∧
    (deserializeFcntlDt m' p malloc).flag = fcntlFlag cmd
  := by
  obtain ⟨hcmd, hflag, -⟩ := loads_serializeFcntlDt m p cmd arg
  constructor
  · exact (hm.mono (le_refl _) (by omega)).loadBits.trans hcmd
  · exact (hm.mono (by omega) (by omega)).loadBits.trans hflag

/-- The decoder allocates the argument of a command that takes an `int`. -/
theorem isSome_arg_deserializeFcntlDt {m : ByteMem} {p : ℕ} {malloc : Bool}
    (h : (deserializeFcntlDt m p malloc).flag = 1) :
  (deserializeFcntlDt m p malloc).arg.isSome = malloc
  := by
  have hflag : m.loadBits 32 (p + 4) = 1 := h
  simp only [deserializeFcntlDt, hflag, if_true]
  cases malloc <;> rfl

/-! ### The call of the server -/

/-- The connection with the command and its argument encoded into its request. -/
def RInfo.encodeFcntl (h : RInfo) (cmd : BitVec 32) (arg : FcntlArg) : RInfo :=
  { h with mem := (serializeFcntlDt h.mem reqData cmd arg).1 }

/-- What the kernel takes for the `int` of a call: the low bits of the pointer, `heap` when the
argument was allocated there. -/
def passedInt (heap : BitVec 64) (arg : Option FcntlArg) : BitVec 32 :=
  if arg.isSome then heap.setWidth 32 else 0

/-- The calls are one `fcntl` on the descriptor with the command and, if the command takes an
`int`, with this one. -/
def FcntlFaithful (heap : BitVec 64) (fd cmd arg : BitVec 32) (executed : List Syscall) : Prop :=
  ∃ passed, executed = [.fcntl fd cmd passed] ∧
    (TakesInt cmd → ∃ pointer, passed = some pointer ∧ passedInt heap pointer = arg)

theorem serves_fcntl (env : ServerEnv) {c : ClientRInfo} (h : c.request = some .fcntl) :
  Serves env c (sockFcntl env.toHandlerEnv c.mem c.sockfd)
  := serves_handler h (by decide) (fills_intReply _ _) (Or.inl rfl)

/-- A forwarded `fcntl` is a `fcntl` request on the flag. -/
theorem forward_of_fcntl {fdHt : FDHashTable} {hook : HookEnv} {r : HookResult} {f : Forward}
    {fd cmd : BitVec 32} (hrun : HookCall.run fdHt hook (.fcntl fd cmd) = some r)
    (hf : r.forward = some f) :
  f = ⟨fcntlFlag cmd, .fcntl, 0, 0⟩
  := (Option.some.inj (HookCall.forward_of_route hrun hf)).symm

/-- The call of the server: on the flag, and with the pointer to the decoded argument if there is
one. -/
theorem executed_fcntl (env : ServerEnv) (c : ClientRInfo) (h : RInfo) (cmd : BitVec 32)
    (arg : FcntlArg) :
  ∃ pointer, executed env c (h.encodeFcntl cmd arg) ⟨fcntlFlag cmd, .fcntl, 0, 0⟩ =
      [.fcntl (fcntlFlag cmd) cmd (if fcntlFlag cmd = 0 then none else some pointer)] ∧
    (fcntlFlag cmd = 1 → pointer.isSome = env.malloc)
  := by
  let f : Forward := ⟨fcntlFlag cmd, .fcntl, 0, 0⟩
  have hserves := serves_fcntl env (receive_request c (h.encodeFcntl cmd arg) f)
  have hagree := (receive_data c (h.encodeFcntl cmd arg) f).mono (q := reqData) (k := 8)
    (le_refl _) (by decide)
  obtain ⟨hcmd, hflag⟩ := deserializeFcntlDt_of_agreeOn hagree env.malloc
  use (deserializeFcntlDt (c.receive (f.request (h.encodeFcntl cmd arg))).mem reqData env.malloc).arg
  constructor
  · rw [executed, hserves.calls]
    simp only [sockFcntl]
    rw [hcmd, hflag, receive_sockfd]
  · intro hone
    apply isSome_arg_deserializeFcntlDt
    rw [hflag, hone]

/-- The server executes a forwarded `fcntl` on the flag only. -/
theorem FcntlFaithful.fd_eq {env : ServerEnv} {c : ClientRInfo} {h : RInfo} {heap : BitVec 64}
    {fd cmd arg : BitVec 32} {x : FcntlArg}
    (hfaithful : FcntlFaithful heap fd cmd arg
      (executed env c (h.encodeFcntl cmd x) ⟨fcntlFlag cmd, .fcntl, 0, 0⟩)) :
  fd = fcntlFlag cmd
  := by
  obtain ⟨passed, hexecuted, -⟩ := hfaithful
  obtain ⟨pointer, heq, -⟩ := executed_fcntl env c h cmd x
  rw [heq] at hexecuted
  simp only [List.cons.injEq, Syscall.fcntl.injEq, and_true, true_and] at hexecuted
  apply hexecuted.1.symm

/-- Whatever the hook takes for its argument, a forwarded `fcntl` runs on its descriptor with its
argument exactly when the descriptor is the flag of the command, `0` or `1`, and the argument is
the address at which the server allocated it. -/
theorem fcntl_faithful_iff {fdHt : FDHashTable} {hook : HookEnv} {r : HookResult} {f : Forward}
    {fd cmd : BitVec 32} (env : ServerEnv) (c : ClientRInfo) (h : RInfo) (heap : BitVec 64)
    (vararg arg : BitVec 32) (hcmd : TakesNone cmd ∨ TakesInt cmd)
    (hrun : HookCall.run fdHt hook (.fcntl fd cmd) = some r) (hf : r.forward = some f) :
  FcntlFaithful heap fd cmd arg (executed env c (h.encodeFcntl cmd (.int vararg)) f) ↔
    (TakesNone cmd ∧ fd = 0) ∨
      (TakesInt cmd ∧ fd = 1 ∧ arg = if env.malloc then heap.setWidth 32 else 0)
  := by
  obtain rfl := forward_of_fcntl hrun hf
  obtain ⟨pointer, hexecuted, hpointer⟩ := executed_fcntl env c h cmd (.int vararg)
  have hpassed : fcntlFlag cmd = 1 →
      passedInt heap pointer = if env.malloc then heap.setWidth 32 else 0 := by
    intro hone
    rw [passedInt, hpointer hone]
  constructor
  · intro hfaithful
    have hfd := hfaithful.fd_eq
    obtain hnone | hint := hcmd
    · left
      rw [fcntlFlag_of_takesNone hnone] at hfd
      exact ⟨hnone, hfd⟩
    · right
      have hone := fcntlFlag_of_takesInt hint
      obtain ⟨passed, heq, hint'⟩ := hfaithful
      obtain ⟨pointer', rfl, harg⟩ := hint' hint
      rw [hexecuted, hone, if_neg (by decide)] at heq
      simp only [List.cons.injEq, Syscall.fcntl.injEq, and_true, true_and, Option.some.injEq] at heq
      obtain ⟨rfl, rfl⟩ := heq
      refine ⟨hint, rfl, ?_⟩
      rw [← harg, hpassed hone]
  · rintro (⟨hnone, rfl⟩ | ⟨hint, rfl, rfl⟩)
    · have hzero := fcntlFlag_of_takesNone hnone
      refine ⟨none, ?_, fun hint => absurd hint hnone.not_takesInt⟩
      rw [hexecuted, hzero, if_pos rfl]
    · have hone := fcntlFlag_of_takesInt hint
      refine ⟨some pointer, ?_, fun _ => ⟨pointer, rfl, hpassed hone⟩⟩
      rw [hexecuted, hone, if_neg (by decide)]

theorem run_fcntl_afterSocket (cmd : BitVec 32) :
  HookCall.run afterSocket replyFive (.fcntl 5#32 cmd) =
    some (callServer afterSocket replyFive (fcntlFlag cmd) .fcntl 0 0)
  := by
  rw [HookCall.run, reqFcntl, HookCall.route_of_ne fd_afterSocket rfl]

theorem fcntl_faithful_iff_getfl :
  FcntlFaithful 0x1000 5#32 fGetfl 0 (executed (.ofOutcome (.ofRet 0 0)) (.received .fcntl 0)
      (idleRInfo.encodeFcntl fGetfl (.int 0)) ⟨0, .fcntl, 0, 0⟩) ↔
    (TakesNone fGetfl ∧ 5#32 = 0) ∨ (TakesInt fGetfl ∧ 5#32 = 1 ∧ (0 : BitVec 32) = 0x1000)
  := fcntl_faithful_iff (.ofOutcome (.ofRet 0 0)) (.received .fcntl 0) idleRInfo 0x1000 0 0
    (Or.inl (Or.inr rfl)) (run_fcntl_afterSocket fGetfl) rfl

/-- Setting `O_NONBLOCK` on the descriptor `5` is not executed on it. -/
theorem setfl_not_faithful :
  (∃ r, HookCall.run afterSocket replyFive (.fcntl 5#32 fSetfl) = some r ∧
      r.forward = some ⟨1, .fcntl, 0, 0⟩) ∧
    ∀ heap vararg, ¬ FcntlFaithful heap 5#32 fSetfl 2048 (executed (.ofOutcome (.ofRet 0 0))
      (.received .fcntl 0) (idleRInfo.encodeFcntl fSetfl (.int vararg)) ⟨1, .fcntl, 0, 0⟩)
  := by
  use ⟨_, run_fcntl_afterSocket fSetfl, rfl⟩
  intro heap vararg hfaithful
  have hfd := FcntlFaithful.fd_eq hfaithful
  cases hfd

end SocketToRdma
