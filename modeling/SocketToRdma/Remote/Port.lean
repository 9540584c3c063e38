import SocketToRdma.Host.Routing
import SocketToRdma.Remote.Call

/-!
# The port of a remote `bind` and `connect`

Both hooks read the port from the address of the caller, whose family says which structure it
is. `req_connect` sends the port it read; `req_bind` sends the port `8080`. The handlers of the
server put the port of the request into the address of their own system call.
-/

namespace SocketToRdma

/-- What the hooks read of the address at the start of a memory: a `struct sockaddr_in` and a
`struct sockaddr_in6` have the family and the port at the same places. -/
def sockAddr (m : ByteMem) : SockAddr where
  saFamily := m.loadBits 16 0
  port := m.loadBits 16 2

/-- The two calls that take an address. -/
inductive PortCall where
  | bind
  | connect
  deriving DecidableEq

namespace PortCall

/-- The hooked call. -/
def hook (fd : BitVec 32) (addr : ByteMem) : PortCall → HookCall
  | bind => .bind fd
  | connect => .connect fd (sockAddr addr)

/-- The system call. -/
def syscall (fd : BitVec 32) (address : SockaddrIn) (addrlen : BitVec 32) : PortCall → Syscall
  | bind => .bind fd address addrlen
  | connect => .connect fd address addrlen

/-- What the hook sends. -/
def forward (fd : BitVec 32) (addr : ByteMem) : PortCall → Forward
  | bind => ⟨fd, .bind, 0, 8080⟩
  | connect => ⟨fd, .connect, 0, (sockAddr addr).hostPort⟩

/-- The address that the handler fills in for its system call, besides the port. -/
def inetAddr : PortCall → BitVec 32
  | bind => inaddrAny
  | connect => defaultRdmaServerIp

end PortCall

/-- The server executes a forwarded call on its descriptor, with the port of the caller. -/
def PortFaithful (env : ServerEnv) (c : ClientRInfo) (h : RInfo) (f : Forward) (call : PortCall)
    (fd : BitVec 32) (addr : ByteMem) : Prop :=
  ∃ address addrlen, executed env c h f = [call.syscall fd address addrlen] ∧
    address.sinPort = (sockAddr addr).port

theorem forward_of_port {fdHt : FDHashTable} {hook : HookEnv} {r : HookResult} {f : Forward}
    {call : PortCall} {fd : BitVec 32} {addr : ByteMem}
    (hrun : HookCall.run fdHt hook (call.hook fd addr) = some r) (hf : r.forward = some f) :
  f = call.forward fd addr
  := by
  cases call with
  | bind =>
      obtain rfl | ⟨-, rfl⟩ := HookCall.routeIfConnected_cases hrun
      · cases hf
      · exact (Option.some.inj hf).symm
  | connect => exact (Option.some.inj (HookCall.forward_of_route hrun hf)).symm

theorem serves_bind (env : ServerEnv) {c : ClientRInfo} (h : c.request = some .bind) :
  Serves env c (sockBind env.toHandlerEnv c.mem c.sockfd)
  := serves_handler h (by decide) (fills_intReply _ _) (Or.inl rfl)

theorem serves_connect (env : ServerEnv) {c : ClientRInfo} (h : c.request = some .connect) :
  Serves env c (sockConnect env.toHandlerEnv c.mem c.sockfd)
  := serves_handler h (by decide) (fills_intReply _ _) (Or.inl rfl)

/-- The port of the request arrives. -/
theorem receive_port (c : ClientRInfo) (h : RInfo) (f : Forward) :
  port (c.receive (f.request h)).mem = f.port
  := by
  have hfill : port (f.request h).mem = f.port := ByteMem.loadBits_storeBits _ _ _ (by decide)
  rw [← hfill]
  exact ((receive_agreeOn c (f.request h)).mono (by decide) (by decide)).loadBits

/-- The server executes the call it is asked for, with the port that was sent. -/
theorem executed_port (env : ServerEnv) (c : ClientRInfo) (h : RInfo) (call : PortCall)
    (fd : BitVec 32) (addr : ByteMem) :
  executed env c h (call.forward fd addr) =
    [call.syscall fd ⟨2, htons (call.forward fd addr).port, call.inetAddr⟩ 16]
  := by
  cases call with
  | bind =>
      have hserves := serves_bind env (receive_request c h (PortCall.bind.forward fd addr))
      rw [executed, hserves.calls]
      simp only [sockBind, sockAddress]
      rw [receive_sockfd, receive_port]
      rfl
  | connect =>
      have hserves := serves_connect env (receive_request c h (PortCall.connect.forward fd addr))
      rw [executed, hserves.calls]
      simp only [sockConnect, sockAddress]
      rw [receive_sockfd, receive_port]
      rfl

/-- A call is executed with the port of the caller exactly when that is the port that was
sent. -/
theorem portFaithful_iff_sent (env : ServerEnv) (c : ClientRInfo) (h : RInfo) (call : PortCall)
    (fd : BitVec 32) (addr : ByteMem) :
  PortFaithful env c h (call.forward fd addr) call fd addr ↔
    htons (call.forward fd addr).port = (sockAddr addr).port
  := by
  rw [PortFaithful, executed_port]
  constructor
  · rintro ⟨address, addrlen, hcall, hport⟩
    rw [← hport]
    cases call with
    | bind => cases hcall; rfl
    | connect => cases hcall; rfl
  · intro hport
    exact ⟨_, _, rfl, hport⟩

/-- An address of one of the two families has its port sent. -/
theorem hostPort_eq {addr : SockAddr}
    (hfamily : addr.saFamily = afInet ∨ addr.saFamily = afInet6) :
  addr.hostPort = htons addr.port
  := by
  unfold SockAddr.hostPort
  obtain hinet | hinet6 := hfamily
  · rw [if_pos hinet]
  · rw [hinet6, if_neg (by decide), if_pos rfl]

/-- A forwarded `bind` or `connect` with an address of one of the two families is executed with
the port of the caller exactly when it is a `connect` or the port is `8080`. -/
theorem port_faithful_iff {fdHt : FDHashTable} {hook : HookEnv} {r : HookResult} {f : Forward}
    {call : PortCall} {fd : BitVec 32} {addr : ByteMem} (env : ServerEnv) (c : ClientRInfo)
    (h : RInfo)
    (hfamily : (sockAddr addr).saFamily = afInet ∨ (sockAddr addr).saFamily = afInet6)
    (hrun : HookCall.run fdHt hook (call.hook fd addr) = some r) (hf : r.forward = some f) :
  PortFaithful env c h f call fd addr ↔ call = .connect ∨ (sockAddr addr).port = htons 8080
  := by
  obtain rfl := forward_of_port hrun hf
  rw [portFaithful_iff_sent]
  cases call with
  | bind =>
      constructor
      · intro hport
        right
        exact hport.symm
      · rintro (hcall | hport)
        · cases hcall
        · exact hport.symm
  | connect =>
      have hsent : htons (sockAddr addr).hostPort = (sockAddr addr).port := by
        rw [hostPort_eq hfamily, htons_htons]
      constructor
      · intro _
        left
        rfl
      · intro _
        exact hsent

/-- The address of a caller with a port, in network byte order. -/
def inetAddress (port : BitVec 16) : ByteMem :=
  (zeros.storeBits 0 afInet).storeBits 2 port

theorem sockAddr_inetAddress (port : BitVec 16) :
  sockAddr (inetAddress port) = ⟨afInet, port⟩
  := by
  rw [sockAddr, inetAddress, ByteMem.loadBits_storeBits_of_disjoint _ _ _ (Or.inl (by decide)),
    ByteMem.loadBits_storeBits _ _ _ (by decide), ByteMem.loadBits_storeBits _ _ _ (by decide)]

theorem run_port_afterSocket (call : PortCall) (addr : ByteMem) :
  ∃ r, HookCall.run afterSocket replyFive (call.hook 5#32 addr) = some r ∧
    r.forward = some (call.forward 5#32 addr)
  := by
  cases call with
  | bind =>
      rw [PortCall.hook, HookCall.run, reqBind, routeIfConnected, if_neg fd_afterSocket]
      exact ⟨_, rfl, rfl⟩
  | connect =>
      rw [PortCall.hook, HookCall.run, reqConnect, HookCall.route_of_ne tid_afterSocket rfl]
      exact ⟨_, rfl, rfl⟩

/-- A `connect` to the port `80` is executed with it. -/
theorem port_faithful_iff_connect :
  PortFaithful (.ofOutcome (.ofRet 0 0)) (.received .connect 0) idleRInfo
    (PortCall.connect.forward 5#32 (inetAddress (htons 80))) .connect 5#32
    (inetAddress (htons 80))
  := by
  obtain ⟨r, hrun, hf⟩ := run_port_afterSocket .connect (inetAddress (htons 80))
  have hfamily : (sockAddr (inetAddress (htons 80))).saFamily = afInet := by
    rw [sockAddr_inetAddress]
  apply (port_faithful_iff (.ofOutcome (.ofRet 0 0)) (.received .connect 0) idleRInfo
    (Or.inl hfamily) hrun hf).mpr
  left
  rfl

/-- A `bind` to the port `80` is executed with the port `8080`. -/
theorem bind_port_replaced :
  (sockAddr (inetAddress (htons 80))).saFamily = afInet ∧
    (∃ r, HookCall.run afterSocket replyFive (.bind 5#32) = some r ∧
      r.forward = some (PortCall.bind.forward 5#32 (inetAddress (htons 80)))) ∧
    executed (.ofOutcome (.ofRet 0 0)) (.received .bind 0) idleRInfo
        (PortCall.bind.forward 5#32 (inetAddress (htons 80))) =
      [.bind 5#32 ⟨2, htons 8080, inaddrAny⟩ 16] ∧
    ¬ PortFaithful (.ofOutcome (.ofRet 0 0)) (.received .bind 0) idleRInfo
      (PortCall.bind.forward 5#32 (inetAddress (htons 80))) .bind 5#32 (inetAddress (htons 80))
  := by
  refine ⟨?_, run_port_afterSocket .bind _, executed_port _ _ _ .bind _ _, ?_⟩
  · rw [sockAddr_inetAddress]
  · rw [portFaithful_iff_sent, sockAddr_inetAddress]
    decide

end SocketToRdma
