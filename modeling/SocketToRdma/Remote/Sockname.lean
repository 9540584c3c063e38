import SocketToRdma.Remote.Sockopt

/-!
# Remote `getpeername` and `getsockname`

Both hooks encode the address and the length of the caller and decode the ones of the reply. But
`getpeername` sends the request of `getsockopt`, and `getsockname` then copies the address once
more, from the start of the reply, where its length is.
-/

namespace SocketToRdma

/-- `inet_addr(DEFAULT_RDMA_CLIENT_IP)`, the address `10.0.10.22`. -/
def defaultRdmaClientIp : BitVec 32 := 0x160a000a

/-- The objects of the caller: a buffer for a `struct sockaddr_in`, and the length it points to. -/
structure NameBuffer where
  addr : ByteMem
  addrlen : BitVec 32

/-- The `struct sockaddr_in` at the start of a memory. -/
def sockaddrIn (m : ByteMem) : SockaddrIn where
  sinFamily := m.loadBits 16 0
  sinPort := m.loadBits 16 2
  sAddr := m.loadBits 32 4

/-- The connection with the address of the caller encoded into its request. -/
def RInfo.encodeAddr (h : RInfo) (b : NameBuffer) : RInfo :=
  { h with mem := serializeAddrDt h.mem reqData ⟨b.addrlen, b.addr.load 0 16⟩ }

/-- The objects of the caller with the address of a reply decoded into them. -/
def NameBuffer.decodeAddr (b : NameBuffer) (m : ByteMem) : NameBuffer where
  addr := b.addr.store 0 (deserializeAddrDt m rtnData).addr
  addrlen := (deserializeAddrDt m rtnData).addrlen

/-- The two calls that return an address. -/
inductive NameCall where
  | getpeername
  | getsockname

namespace NameCall

/-- The hooked call. -/
def hook (fd : BitVec 32) : NameCall → HookCall
  | getpeername => .getpeername fd
  | getsockname => .getsockname fd

/-- The system call. -/
def syscall (fd : BitVec 32) (args : AddrArgs) : NameCall → Syscall
  | getpeername => .getpeername fd args
  | getsockname => .getsockname fd args

/-- What the hook sends. -/
def forward (fd : BitVec 32) : NameCall → Forward
  | getpeername => ⟨fd, .getsockopt, 0, 0⟩
  | getsockname => ⟨fd, .getsockname, 0, 0⟩

/-- The objects of the caller after `req_getpeername` and `req_getsockname`, when `set_req_sock`
ended with `s`. -/
def returned (s : SetReqResult) (b : NameBuffer) : NameCall → NameBuffer
  | getpeername => b.decodeAddr s.rInfo.mem
  | getsockname =>
      let b := b.decodeAddr s.rInfo.mem
      if s.ret = 0 then
        ⟨(b.addr.store 0 (s.rInfo.mem.load rtnData 16)).storeBits 4 defaultRdmaClientIp, 16⟩
      else b

/-- The address that the caller is to get for the one that the kernel reported. -/
def reported (o : Outcome) : NameCall → SockaddrIn
  | getpeername => ⟨afInet, o.buf.loadBits 16 2, o.buf.loadBits 32 4⟩
  | getsockname => ⟨afInet, o.buf.loadBits 16 2, defaultRdmaClientIp⟩

end NameCall

/-- A forwarded call that returns an address is executed on its descriptor, and returns the
address and the length that the kernel reported. -/
structure NameFaithful (env : ServerEnv) (c : ClientRInfo) (h : RInfo) (f : Forward)
    (call : NameCall) (fd : BitVec 32) (b : NameBuffer) : Prop where
  executed : ∃ args, executed env c (h.encodeAddr b) f = [call.syscall fd args]
  returned : env.outcome.int = 0 →
    ∃ s, callServerWith env c (h.encodeAddr b) f = some s ∧
      sockaddrIn (call.returned s b).addr = call.reported env.outcome ∧
      (call.returned s b).addrlen = env.outcome.len

theorem forward_of_name {fdHt : FDHashTable} {hook : HookEnv} {r : HookResult} {f : Forward}
    {call : NameCall} {fd : BitVec 32} (hrun : HookCall.run fdHt hook (call.hook fd) = some r)
    (hf : r.forward = some f) :
  f = call.forward fd
  := by
  cases call with
  | getpeername => exact (Option.some.inj (HookCall.forward_of_route hrun hf)).symm
  | getsockname => exact (Option.some.inj (HookCall.forward_of_route hrun hf)).symm

/-- The request of `getpeername` makes the server execute `getsockopt`. -/
theorem getpeername_not_executed (env : ServerEnv) (c : ClientRInfo) (h : RInfo) (fd : BitVec 32)
    (args : AddrArgs) :
  executed env c h (NameCall.getpeername.forward fd) ≠ [NameCall.getpeername.syscall fd args]
  := by
  obtain ⟨optval, hexecuted⟩ := executed_getsockopt env c h fd
  intro heq
  cases hexecuted.symm.trans heq

theorem serves_getsockname (env : ServerEnv) {c : ClientRInfo} (h : c.request = some .getsockname) :
  Serves env c (sockGetsockname env.toHandlerEnv c.mem c.sockfd)
  := serves_handler h (by decide) (fills_addrReply _ _) (Or.inl rfl)

/-- The server executes the `getsockname` that it is asked for. -/
theorem executed_getsockname (env : ServerEnv) (c : ClientRInfo) (h : RInfo) (fd : BitVec 32) :
  ∃ args, executed env c h (NameCall.getsockname.forward fd) =
    [NameCall.getsockname.syscall fd args]
  := by
  have hserves := serves_getsockname env
    (receive_request c h (NameCall.getsockname.forward fd))
  rw [executed, hserves.calls]
  simp only [sockGetsockname]
  rw [receive_sockfd]
  exact ⟨_, rfl⟩

/-- After a `getsockname` that succeeded, the family of the caller's address is the length that was
reported. -/
theorem sinFamily_returned {env : HandlerEnv} {m : ByteMem} {sockfd : BitVec 32}
    {s : SetReqResult} (h : Answered (sockGetsockname env m sockfd) s)
    (hret : env.outcome.int = 0) (b : NameBuffer) :
  (sockaddrIn (NameCall.getsockname.returned s b).addr).sinFamily =
      env.outcome.len.setWidth 16 ∧
    (NameCall.getsockname.returned s b).addrlen = 16
  := by
  have hs : s.ret = 0 := by
    rw [h.ret env.outcome.int (fills_addrReply m env.outcome).value (by rw [hret]; decide), hret]
  have hlen : s.rInfo.mem.loadBits 32 rtnData = env.outcome.len := by
    rw [(h.mem.mono (by decide) (by decide)).loadBits]
    simp only [sockGetsockname, addrReply]
    rw [if_neg (by rw [hret]; decide), addrlen_serializeAddrDt]
  simp only [NameCall.returned, hs, if_true, and_true, sockaddrIn]
  rw [ByteMem.loadBits_storeBits_of_disjoint _ _ _ (Or.inl (by decide)),
    ByteMem.loadBits_store_load _ _ _ _ (by decide), ← hlen,
    ByteMem.setWidth_loadBits _ _ (by decide) (by decide)]

/-- A `getsockname` that succeeded does not return the address that was reported. -/
theorem not_nameFaithful_of_success {env : ServerEnv} {c : ClientRInfo} {h : RInfo}
    {fd : BitVec 32} {b : NameBuffer} (hmr : h.rtnMr) (hret : env.outcome.int = 0) :
  ¬ NameFaithful env c h (NameCall.getsockname.forward fd) .getsockname fd b
  := by
  rintro ⟨-, hreturned⟩
  have hserves := serves_getsockname env
    (receive_request c (h.encodeAddr b) (NameCall.getsockname.forward fd))
  obtain ⟨s, hs, -, hanswered⟩ := callServerWith_answered (h := h.encodeAddr b) hmr
    (show RdmaReq.getsockname ≠ .write by decide) (show RdmaReq.getsockname ≠ .read by decide)
    hserves
  obtain ⟨s', hs', haddr, haddrlen⟩ := hreturned hret
  rw [hs] at hs'
  obtain rfl := Option.some.inj hs'
  obtain ⟨hfamily, hsixteen⟩ := sinFamily_returned hanswered hret b
  rw [haddr, ← haddrlen, hsixteen] at hfamily
  have hinet : afInet = (16 : BitVec 32).setWidth 16 := hfamily
  cases hinet

/-- A forwarded call that returns an address is faithful exactly when it is a `getsockname` that
does not succeed. -/
theorem name_faithful_iff {fdHt : FDHashTable} {hook : HookEnv} {r : HookResult} {f : Forward}
    {call : NameCall} {fd : BitVec 32} (env : ServerEnv) (c : ClientRInfo) {h : RInfo}
    (b : NameBuffer) (hrun : HookCall.run fdHt hook (call.hook fd) = some r)
    (hf : r.forward = some f) (hmr : h.rtnMr) :
  NameFaithful env c h f call fd b ↔ call = .getsockname ∧ env.outcome.int ≠ 0
  := by
  obtain rfl := forward_of_name hrun hf
  cases call with
  | getpeername =>
      constructor
      · rintro ⟨⟨args, hexecuted⟩, -⟩
        cases getpeername_not_executed env c (h.encodeAddr b) fd args hexecuted
      · rintro ⟨hcall, -⟩
        cases hcall
  | getsockname =>
      constructor
      · intro hfaithful
        exact ⟨rfl, fun hret => not_nameFaithful_of_success hmr hret hfaithful⟩
      · rintro ⟨-, hret⟩
        exact ⟨executed_getsockname env c (h.encodeAddr b) fd, fun h => absurd h hret⟩

theorem run_name_afterSocket (call : NameCall) :
  ∃ r, HookCall.run afterSocket replyFive (call.hook 5#32) = some r ∧
    r.forward = some (call.forward 5#32)
  := by
  cases call with
  | getpeername =>
      rw [NameCall.hook, HookCall.run, reqGetpeername, HookCall.route_of_ne fd_afterSocket rfl]
      exact ⟨_, rfl, rfl⟩
  | getsockname =>
      rw [NameCall.hook, HookCall.run, reqGetsockname, HookCall.route_of_ne fd_afterSocket rfl]
      exact ⟨_, rfl, rfl⟩

/-- A `getsockname` that fails is executed as it was called. -/
theorem name_faithful_iff_failed :
  NameFaithful (.ofOutcome (.ofRet (-1) 9)) (.received .getsockname 0) idleRInfo
    (NameCall.getsockname.forward 5#32) .getsockname 5#32 ⟨zeros, 16⟩
  := by
  obtain ⟨r, hrun, hf⟩ := run_name_afterSocket .getsockname
  apply (name_faithful_iff (.ofOutcome (.ofRet (-1) 9)) (.received .getsockname 0) ⟨zeros, 16⟩ hrun
    hf rfl).mpr
  use rfl
  decide

/-- Neither call returns an address of `16` bytes that the kernel reported. -/
theorem names_not_faithful :
  (∀ call : NameCall, ∃ r, HookCall.run afterSocket replyFive (call.hook 5#32) = some r ∧
      r.forward = some (call.forward 5#32)) ∧
    ∀ call : NameCall, ¬ NameFaithful
      (.ofOutcome ⟨0, 0, zeros.storeBits 0 afInet, 16⟩) (.received .getsockname 0) idleRInfo
      (call.forward 5#32) call 5#32 ⟨zeros, 16⟩
  := by
  use run_name_afterSocket
  intro call
  cases call with
  | getpeername =>
      rintro ⟨⟨args, hexecuted⟩, -⟩
      cases getpeername_not_executed _ _ _ 5#32 args hexecuted
  | getsockname => exact not_nameFaithful_of_success rfl rfl

end SocketToRdma
