import SocketToRdma.Host.Routing
import SocketToRdma.Remote.Call

/-!
# The data of a write

A forwarded `send` or `write` travels from the buffer of the application through the request of
the host and the request of the server to the `send` of the server. The number of bytes copied
and the length passed on are computed apart: the copy stops before the size of the buffer, the
length is narrowed to an `int`. The server sends a prefix of the buffer of the application
exactly when the length is below the size of the buffer or its low 32 bits are.
-/

namespace SocketToRdma

/-! ### From the buffer to the `send` of the server -/

/-- A `write` request is carried out with one `send` of the data that were received. -/
theorem calls_write (env : ServerEnv) {c : ClientRInfo} (h : c.request = some .write) :
  calls (rdmaReqEvent env (.start c)).trace =
    [.send c.sockfd (fun j => c.mem (reqData + j)) (((bufSz c.mem).setWidth 32).signExtend 64) 0]
  := by
  have hserve : rdmaReqEvent env (.start c) = serve env (.start c) (some .write) := by
    rw [← h]
    rfl
  rw [hserve]
  simp only [serve]
  rw [calls_assign, calls_reply]
  rfl

/-- The calls are one `send` of a prefix of the buffer of `n` bytes. -/
def SendsPrefix (buffer : ByteMem) (fd : BitVec 32) (n : BitVec 64) (executed : List Syscall) :
    Prop :=
  ∃ data k, executed = [.send fd data k 0] ∧ k.toNat ≤ n.toNat ∧
    ∀ j < k.toNat, data j = buffer j

/-- Whatever the buffers held before, a forwarded write of `n` bytes that is posted makes the
server send a prefix of the buffer. -/
def WriteFaithful (f : Forward) (fd : BitVec 32) (n : BitVec 64) : Prop :=
  ∀ (x : Exchange) (h : RInfo) (buffer : ByteMem) (env : ServerEnv) (c : ClientRInfo),
    h.rtnMr → 0 ≤ x.postWriteReq.toInt →
    ∃ r msg, sendForwarded x h f buffer = some r ∧ r.posted = some msg ∧
      SendsPrefix buffer fd n (calls (rdmaReqEvent env (.start (c.receive msg))).trace)

/-- A forwarded `send` or `write` is a `write` request of its length. -/
theorem forward_of_write {call : HookCall} {fdHt : FDHashTable} {hook : HookEnv} {r : HookResult}
    {f : Forward} {fd : BitVec 32} {n : BitVec 64}
    (hcall : call = .send fd n ∨ call = .write fd n) (hrun : call.run fdHt hook = some r)
    (hf : r.forward = some f) :
  f = ⟨fd, .write, n, 0⟩
  := by
  have hroute : ∃ tid, route tid fdHt hook (callServer fdHt hook fd .write n 0) = some r := by
    obtain rfl | rfl := hcall
    · exact ⟨_, hrun⟩
    · exact ⟨_, hrun⟩
  obtain ⟨tid, hroute⟩ := hroute
  exact (Option.some.inj (HookCall.forward_of_route hroute hf)).symm

/-- The request of a forwarded write of `n` bytes on `fd`, when the data are copied. -/
theorem posted_of_copy {x : Exchange} {h : RInfo} {a : ReqArgs} {f : Forward}
    {buffer m : ByteMem} (hmr : h.rtnMr) (hpost : 0 ≤ x.postWriteReq.toInt)
    (hf : f.writeArgs buffer = a) (ha : a.reqRdma = RdmaReq.write.code)
    (hcopy : copyMessage (fillRequest h.mem a) a = some m) :
  ∃ r, sendForwarded x h f buffer = some r ∧ r.posted = some ⟨m, htonl a.sockfd⟩
  := by
  have hposted : (exchangeRequest x ⟨m, a.sockfd, h.rtnMr⟩ a).posted = some ⟨m, htonl a.sockfd⟩ :=
    exchangeRequest_posted (h := ⟨m, a.sockfd, h.rtnMr⟩) hmr hpost a
  rw [sendForwarded, hf, setReqSock_write ha, hcopy, Option.map_some, Option.map_some]
  generalize exchangeRequest x ⟨m, a.sockfd, h.rtnMr⟩ a = r at hposted ⊢
  exact ⟨_, rfl, hposted⟩

/-- The data of the request: the bytes copied, and then what was there before. -/
theorem copyMessage_data {m m' : ByteMem} {a : ReqArgs} (h : copyMessage m a = some m') (j : ℕ) :
  m' (reqData + j) = if j < (copySize a.bufSz).toNat then a.message j else m (reqData + j)
  := by
  unfold copyMessage at h
  split at h
  case isTrue =>
    obtain rfl := Option.some.inj h
    simp [ByteMem.store, ByteMem.load]
  case isFalse => contradiction

/-- Copying the data leaves the header. -/
theorem copyMessage_agreeOn {m m' : ByteMem} {a : ReqArgs} (h : copyMessage m a = some m') :
  m'.AgreeOn m 0 reqData
  := by
  unfold copyMessage at h
  split at h
  case isTrue =>
    obtain rfl := Option.some.inj h
    apply ByteMem.agreeOn_store _ _ _ (Or.inl (by decide))
  case isFalse => contradiction

/-- The request of a write is received with its length and its descriptor, and it is carried
out with one `send`. -/
theorem calls_receive (env : ServerEnv) (c : ClientRInfo) {a : ReqArgs} {m m' : ByteMem}
    (ha : a.reqRdma = RdmaReq.write.code) (hcopy : copyMessage (fillRequest m a) a = some m') :
  calls (rdmaReqEvent env (.start (c.receive ⟨m', htonl a.sockfd⟩))).trace =
    [.send a.sockfd (fun j => (c.receive ⟨m', htonl a.sockfd⟩).mem (reqData + j))
      ((a.bufSz.setWidth 32).signExtend 64) 0]
  := by
  have hreceive := receive_agreeOn c ⟨m', htonl a.sockfd⟩
  have hagree : (c.receive ⟨m', htonl a.sockfd⟩).mem.AgreeOn (fillRequest m a) 0 reqData :=
    (hreceive.mono (le_refl 0) (by decide)).trans (copyMessage_agreeOn hcopy)
  have hreq : rdmaReq (c.receive ⟨m', htonl a.sockfd⟩).mem = RdmaReq.write.code := by
    rw [← ha, ← rdmaReq_fillRequest m a]
    apply (hagree.mono (le_refl 0) (by decide)).loadBits
  have hsize : bufSz (c.receive ⟨m', htonl a.sockfd⟩).mem = a.bufSz := by
    rw [← bufSz_fillRequest m a]
    apply (hagree.mono (by decide) (by decide)).loadBits
  have hfd : (c.receive ⟨m', htonl a.sockfd⟩).sockfd = a.sockfd := htonl_htonl a.sockfd
  rw [calls_write, hfd, hsize]
  rw [ClientRInfo.request, hreq, RdmaReq.ofCode_code]

/-- The bytes the server sends are those of the buffer as far as they were copied, and then
what the request buffer held before. -/
theorem received_data {m m' : ByteMem} {a : ReqArgs} (c : ClientRInfo) (imm : BitVec 32)
    (hcopy : copyMessage (fillRequest m a) a = some m') {j : ℕ} (hj : j < bufferSize) :
  (c.receive ⟨m', imm⟩).mem (reqData + j) =
    if j < (copySize a.bufSz).toNat then a.message j else m (reqData + j)
  := by
  have hlt : reqData + j < 0 + reqSize := by
    unfold bufferSize at hj
    unfold reqData reqSize
    omega
  rw [← fillRequest_data m a]
  apply (receive_agreeOn c ⟨m', imm⟩ _ (Nat.zero_le _) hlt).trans
  apply copyMessage_data hcopy

/-- What the server sends for a forwarded write: as many bytes from its request buffer as the
narrowed length says. -/
theorem send_of_write (x : Exchange) (h : RInfo) (fd : BitVec 32) {n : BitVec 64}
    (buffer : ByteMem) (env : ServerEnv) (c : ClientRInfo) (hmr : h.rtnMr)
    (hpost : 0 ≤ x.postWriteReq.toInt) (hfit : (copySize n).toNat ≤ bufferSize) :
  ∃ r msg data, sendForwarded x h ⟨fd, .write, n, 0⟩ buffer = some r ∧ r.posted = some msg ∧
    calls (rdmaReqEvent env (.start (c.receive msg))).trace =
      [.send fd data ((n.setWidth 32).signExtend 64) 0] ∧
    ∀ j < bufferSize,
      data j = if j < (copySize n).toNat then buffer j else h.mem (reqData + j)
  := by
  have hcopy : copyMessage (fillRequest h.mem (Forward.writeArgs ⟨fd, .write, n, 0⟩ buffer))
      (Forward.writeArgs ⟨fd, .write, n, 0⟩ buffer) = some _ := if_pos hfit
  obtain ⟨r, hr, hposted⟩ := posted_of_copy hmr hpost rfl rfl hcopy
  exact ⟨r, _, _, hr, hposted, calls_receive env c rfl hcopy,
    fun j hj => received_data c _ hcopy hj⟩

/-- A copy that is undefined leaves the call without a result. -/
theorem sendForwarded_none (x : Exchange) (h : RInfo) (fd : BitVec 32) {n : BitVec 64}
    (buffer : ByteMem) (hfit : ¬ (copySize n).toNat ≤ bufferSize) :
  sendForwarded x h ⟨fd, .write, n, 0⟩ buffer = none
  := by
  have hnone := setReqSock_eq_none (a := Forward.writeArgs ⟨fd, .write, n, 0⟩ buffer) rfl x h hfit
  rw [sendForwarded, hnone, Option.map_none]

/-- A write whose narrowed length covers copied bytes only. -/
theorem writeFaithful_of_le {fd : BitVec 32} {n : BitVec 64}
    (hfit : (copySize n).toNat ≤ bufferSize)
    (hcopied : ((n.setWidth 32).signExtend 64).toNat ≤ (copySize n).toNat)
    (hlength : ((n.setWidth 32).signExtend 64).toNat ≤ n.toNat) :
  WriteFaithful ⟨fd, .write, n, 0⟩ fd n
  := by
  intro x h buffer env c hmr hpost
  obtain ⟨r, msg, data, hr, hposted, hcalls, hdata⟩ := send_of_write x h fd buffer env c hmr hpost hfit
  refine ⟨r, msg, hr, hposted, data, _, hcalls, hlength, ?_⟩
  intro j hj
  rw [hdata j (by omega), if_pos (by omega)]

/-- A write whose narrowed length goes beyond the copied bytes: the server sends what its
request buffer held before. -/
theorem not_writeFaithful {fd : BitVec 32} {n : BitVec 64}
    (hcopied : (copySize n).toNat < ((n.setWidth 32).signExtend 64).toNat)
    (hsize : (copySize n).toNat < bufferSize) :
  ¬ WriteFaithful ⟨fd, .write, n, 0⟩ fd n
  := by
  intro h
  obtain ⟨r, msg, hr, hposted, data, k, hcalls, _, hprefix⟩ :=
    h ⟨0, 0, Block.fill _ 0⟩ ⟨zeros, 0, true⟩ (fun _ => 1) (.ofOutcome (.ofRet 0 0))
      (.received .write 0) rfl (by decide)
  obtain ⟨r', msg', data', hr', hposted', hcalls', hdata'⟩ :=
    send_of_write ⟨0, 0, Block.fill _ 0⟩ ⟨zeros, 0, true⟩ fd (fun _ => 1)
      (.ofOutcome (.ofRet 0 0)) (.received .write 0) rfl (by decide) hsize.le
  rw [hr'] at hr
  obtain rfl := Option.some.inj hr
  rw [hposted'] at hposted
  obtain rfl := Option.some.inj hposted
  rw [hcalls'] at hcalls
  simp only [List.cons.injEq, Syscall.send.injEq, true_and, and_true] at hcalls
  obtain ⟨rfl, rfl⟩ := hcalls
  have hone := hprefix _ hcopied
  rw [hdata' _ hsize, if_neg (lt_irrefl _)] at hone
  exact UInt8.zero_ne_one hone

/-- A forwarded write of `n` bytes makes the server send a prefix of the buffer exactly when the
length is below the size that is cut off, or its low 32 bits are at most the bytes copied. -/
theorem write_faithful_iff {call : HookCall} {fdHt : FDHashTable} {hook : HookEnv}
    {r : HookResult} {f : Forward} {fd : BitVec 32} {n : BitVec 64}
    (hcall : call = .send fd n ∨ call = .write fd n) (hrun : call.run fdHt hook = some r)
    (hf : r.forward = some f) :
  WriteFaithful f fd n ↔ n.toNat < 599988 ∨ n.toNat % 2 ^ 32 ≤ 599976
  := by
  obtain rfl := forward_of_write hcall hrun hf
  have hlt := n.isLt
  have hcopied := toNat_copySize n
  have hnarrowed := toNat_narrowed n
  constructor
  · intro h
    by_contra hcond
    by_cases hfit : (copySize n).toNat ≤ bufferSize
    · have hcut : (copySize n).toNat = 599976 := by
        unfold bufferSize at hfit
        split at hcopied <;> omega
      apply not_writeFaithful _ _ h
      · rw [hcut, hnarrowed]
        split <;> omega
      · rw [hcut]
        decide
    · obtain ⟨r, msg, hr, _⟩ := h ⟨0, 0, Block.fill _ 0⟩ ⟨zeros, 0, true⟩ zeros
        (.ofOutcome (.ofRet 0 0)) (.received .write 0) rfl (by decide)
      rw [sendForwarded_none _ _ _ _ hfit] at hr
      contradiction
  · intro h
    apply writeFaithful_of_le
    · rw [hcopied]
      unfold bufferSize
      split <;> omega
    · rw [hcopied, hnarrowed]
      split <;> split <;> omega
    · rw [hnarrowed]
      split <;> omega

theorem run_send_afterSocket (n : BitVec 64) :
  HookCall.run afterSocket replyFive (.send 5#32 n) =
    some (callServer afterSocket replyFive 5#32 .write n 0)
  := by
  rw [HookCall.run, reqSend, HookCall.route_of_ne tid_afterSocket rfl]

theorem write_faithful_iff_short :
  HookCall.run afterSocket replyFive (.send 5#32 100) =
      some (callServer afterSocket replyFive 5#32 .write 100 0) ∧
    (WriteFaithful ⟨5#32, .write, 100, 0⟩ 5#32 100 ↔
      (100 : BitVec 64).toNat < 599988 ∨ (100 : BitVec 64).toNat % 2 ^ 32 ≤ 599976)
  := ⟨run_send_afterSocket 100,
    write_faithful_iff (Or.inl rfl) (run_send_afterSocket 100) rfl⟩

/-- Of a buffer of `600000` bytes the last `24` are replaced by what the request buffer held
before. -/
theorem long_write_not_faithful :
  HookCall.run afterSocket replyFive (.send 5#32 600000) =
      some (callServer afterSocket replyFive 5#32 .write 600000 0) ∧
    ¬ WriteFaithful ⟨5#32, .write, 600000, 0⟩ 5#32 600000
  := by
  use run_send_afterSocket 600000
  apply not_writeFaithful
  · rw [toNat_copySize, toNat_narrowed]
    decide
  · rw [toNat_copySize]
    decide

end SocketToRdma
