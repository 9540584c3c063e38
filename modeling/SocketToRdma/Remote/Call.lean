import SocketToRdma.Host.Request
import SocketToRdma.Server.Contract

/-!
# A call on the server

A request of the host is written into the request buffer of a connection of the server, whose
thread serves it and answers. For the requests other than `read` and `write` the answer is one
message, and what the server executes is the handler of the request: `serves_handler` says both.
The answer arrives as it was posted.
-/

namespace SocketToRdma

/-- The request a connection of the server receives: the network card writes the whole request
of the host, and the thread takes the descriptor from the immediate value. -/
def ClientRInfo.receive (c : ClientRInfo) (msg : Request) : ClientRInfo :=
  { c with
    mem := c.mem.store 0 (msg.mem.load 0 reqSize)
    sockfd := htonl msg.immData }

/-! ### A request that is answered with one message -/

/-- The connection serves its request with the handler `hd`: these are the calls it executes,
and its memory is what is posted. -/
structure Serves (env : ServerEnv) (c : ClientRInfo) (hd : Handled) : Prop where
  calls : calls (rdmaReqEvent env (.start c)).trace = hd.syscalls
  replies : replies env c = [hd.mem]

/-- The messages of a trace. -/
def messages (trace : List Event) : List ByteMem :=
  (trace.filter fun e => e.1.IsPost).map Prod.snd

theorem messages_append (tr tr' : List Event) :
  messages (tr ++ tr') = messages tr ++ messages tr'
  := by
  rw [messages, List.filter_append, List.map_append]
  rfl

theorem messages_eq_nil {tr : List Event} (h : ∀ e ∈ tr, ¬ e.1.IsPost) :
  messages tr = []
  := by
  rw [messages, List.filter_eq_nil_iff.mpr, List.map_nil]
  simpa using h

/-- A reply that is not data is one message. -/
theorem messages_reply (env : ServerEnv) {x : Exec} (h : ¬ Chunked x.cInfo.mem) :
  messages (reply env x).trace = messages x.trace ++ [x.cInfo.mem]
  := by
  obtain ⟨ps, rest, hreply⟩ := reply_replied env x
  obtain ⟨wr, rfl⟩ := hreply.single h
  rw [hreply.trace, messages_append, messages_append,
    messages_eq_nil fun e he => (hreply.silent e he).not_isPost, List.append_nil]
  rfl

theorem messages_handled (c : ClientRInfo) (hd : Handled) :
  messages ((Exec.start c).handled hd).trace = []
  := by
  obtain ⟨tr, heq, htr⟩ := Exec.handled_start c hd
  rw [heq]
  apply messages_eq_nil htr

/-- A branch that executes a handler and replies, and clears a buffer at most, serves the request
with the handler. -/
theorem serves_handler {env : ServerEnv} {c : ClientRInfo} {req : RdmaReq} {hd : Handled}
    {v : BitVec 64} {e : BitVec 32} (hreq : c.request = some req) (hread : req ≠ .read)
    (hfills : Fills c.mem hd.mem v e)
    (h : serve env (.start c) (some req) = reply env ((Exec.start c).handled hd) ∨
      ∃ m, serve env (.start c) (some req) = (reply env ((Exec.start c).handled hd)).assign m) :
  Serves env c hd
  := by
  have hserve : rdmaReqEvent env (.start c) = serve env (.start c) (some req) := by
    rw [← hreq]
    rfl
  have hchunked : ¬ Chunked ((Exec.start c).handled hd).cInfo.mem := by
    intro hchunked
    have hcode : rdmaReq hd.mem = rdmaReq c.mem :=
      (hfills.request.mono (le_refl 0) (by decide)).loadBits
    have hread' := request_eq_read.mpr (hcode.symm.trans hchunked.1)
    rw [hreq] at hread'
    exact hread (Option.some.inj hread')
  have hcalls : calls (reply env ((Exec.start c).handled hd)).trace = hd.syscalls := by
    rw [calls_reply, calls_handled]
  have hmessages : messages (reply env ((Exec.start c).handled hd)).trace = [hd.mem] := by
    rw [messages_reply env hchunked, messages_handled]
    rfl
  rw [← hserve] at h
  obtain h | ⟨m, h⟩ := h
  · constructor
    · rw [h, hcalls]
    · rw [← hmessages, ← h]
      rfl
  · constructor
    · rw [h, calls_assign, hcalls]
    · rw [← hmessages, replies, h, Exec.assign_trace]
      rw [← messages, messages_append]
      apply List.append_nil

/-! ### What is received -/

/-- The request that is received is the one that was posted. -/
theorem receive_agreeOn (c : ClientRInfo) (msg : Request) :
  (c.receive msg).mem.AgreeOn msg.mem 0 reqSize
  := ByteMem.agreeOn_store_load _ _ _ _

theorem rdmaReq_fillRequest (m : ByteMem) (a : ReqArgs) :
  rdmaReq (fillRequest m a) = a.reqRdma
  := by
  rw [rdmaReq, fillRequest, ByteMem.loadBits_storeBits_of_disjoint _ _ _ (Or.inl (by decide)),
    ByteMem.loadBits_storeBits_of_disjoint _ _ _ (Or.inl (by decide)),
    ByteMem.loadBits_storeBits _ _ _ (by decide)]

theorem bufSz_fillRequest (m : ByteMem) (a : ReqArgs) :
  bufSz (fillRequest m a) = a.bufSz
  := by
  rw [bufSz, fillRequest, ByteMem.loadBits_storeBits_of_disjoint _ _ _ (Or.inl (by decide)),
    ByteMem.loadBits_storeBits _ _ _ (by decide)]

/-- Filling in the header leaves the data. -/
theorem fillRequest_agreeOn (m : ByteMem) (a : ReqArgs) {q k : ℕ} (h : reqData ≤ q) :
  (fillRequest m a).AgreeOn m q k
  := by
  unfold reqData at h
  apply (ByteMem.agreeOn_store _ _ _ (Or.inr (by unfold reqPort; omega))).trans
  apply (ByteMem.agreeOn_store _ _ _ (Or.inr (by unfold reqBufSz; omega))).trans
  apply ByteMem.agreeOn_store _ _ _ (Or.inr (by unfold reqRdmaReq; omega))

theorem fillRequest_data (m : ByteMem) (a : ReqArgs) (j : ℕ) :
  fillRequest m a (reqData + j) = m (reqData + j)
  := fillRequest_agreeOn (k := 1) m a (Nat.le_add_right _ _) _ (le_refl _) (Nat.lt_succ_self _)

/-! ### A call and its answer -/

/-- The arguments of `set_req_sock` for a call without data. -/
def Forward.args (f : Forward) : ReqArgs :=
  ⟨f.sockfd, f.req.code, f.bufSz, f.port, zeros, true⟩

/-- The request that is posted for a call without data. -/
def Forward.request (f : Forward) (h : RInfo) : Request :=
  ⟨fillRequest h.mem f.args, htonl f.sockfd⟩

/-- The system calls of the server for a forwarded call. -/
def executed (env : ServerEnv) (c : ClientRInfo) (h : RInfo) (f : Forward) : List Syscall :=
  calls (rdmaReqEvent env (.start (c.receive (f.request h)))).trace

/-- The exchange in which the server answers the request, and its answer arrives as it was
posted. -/
def answer (env : ServerEnv) (c : ClientRInfo) (msg : Request) : Exchange :=
  ⟨0, 1, ((replies env (c.receive msg)).headD zeros).load rtnErrno rtnSize⟩

/-- `set_req_sock` for a forwarded call that the server answers. -/
def callServerWith (env : ServerEnv) (c : ClientRInfo) (h : RInfo) (f : Forward) :
    Option SetReqResult :=
  setReqSock (answer env c (f.request h)) h f.args

/-- `set_req_sock` ends with the reply that the handler prepared. -/
structure Answered (hd : Handled) (s : SetReqResult) : Prop where
  mem : s.rInfo.mem.AgreeOn hd.mem rtnErrno rtnSize
  ret : ∀ i : BitVec 32, value hd.mem = i.signExtend 64 → 0 ≤ i.toInt → s.ret = i
  failed : ∀ i : BitVec 32, value hd.mem = i.signExtend 64 → i.toInt < 0 → s.ret.toInt < 0

theorem setWidth_signExtend (i : BitVec 32) :
  (i.signExtend 64).setWidth 32 = i
  := by
  ext j hj
  rw [BitVec.getElem_setWidth, BitVec.getLsbD_signExtend, if_pos hj, BitVec.getLsbD_eq_getElem hj]
  simp only [Bool.and_eq_right_iff_imp, decide_eq_true_eq]
  omega

theorem toInt_signExtend (i : BitVec 32) :
  (i.signExtend 64).toInt = i.toInt
  := BitVec.toInt_signExtend_of_le (by decide)

/-- What the host receives is what the server posted. -/
theorem answer_reply {env : ServerEnv} {c : ClientRInfo} {msg : Request} {hd : Handled}
    (h : Serves env (c.receive msg) hd) :
  (answer env c msg).reply.AgreeOn hd.mem rtnErrno rtnSize
  := by
  rw [answer, h.replies]
  apply ByteMem.agreeOn_store_load

/-- A call without data posts its request and ends with the reply of the handler that serves
it. -/
theorem callServerWith_answered {env : ServerEnv} {c : ClientRInfo} {h : RInfo} {f : Forward}
    {hd : Handled} (hmr : h.rtnMr) (hwrite : f.req ≠ .write) (hread : f.req ≠ .read)
    (hserves : Serves env (c.receive (f.request h)) hd) :
  ∃ s, callServerWith env c h f = some s ∧ s.posted = some (f.request h) ∧ Answered hd s
  := by
  obtain ⟨h', posted, hs, hmem, hposted⟩ := setReqSock_of_reply
    (x := answer env c (f.request h)) (h := h) (show f.args.reqRdma = f.req.code from rfl) hmr
    (by decide : (0 : ℤ) ≤ (0 : BitVec 32).toInt) (by decide : (0 : ℤ) ≤ (1 : BitVec 32).toInt)
    fun hw => absurd hw hwrite
  have hagree := hmem.trans (answer_reply hserves)
  have hvalue : value h'.mem = value hd.mem := (hagree.mono (by decide) (by decide)).loadBits
  have hread' : ¬ (f.args.reqRdma = RdmaReq.read.code ∧ ¬ f.args.hasBuf) :=
    fun hr => hread (RdmaReq.code_inj.mp hr.1)
  refine ⟨_, hs, ?_, ?_⟩
  · rw [finishRequest, if_neg hread', hposted hwrite]
    split <;> rfl
  · rw [finishRequest, if_neg hread', hvalue]
    constructor
    · split
      · apply hagree
      · apply hagree
    · intro i hi hpos
      rw [hi, toInt_signExtend, if_neg (not_lt.mpr hpos)]
      apply setWidth_signExtend
    · intro i hi hneg
      rw [hi, toInt_signExtend, if_pos hneg]
      simp only [setWidth_signExtend]
      split
      · apply hneg
      · decide

/-! ### The request as the server sees it -/

theorem receive_request (c : ClientRInfo) (h : RInfo) (f : Forward) :
  (c.receive (f.request h)).request = some f.req
  := by
  have hcode : rdmaReq (c.receive (f.request h)).mem = f.req.code := by
    have hfill : rdmaReq (f.request h).mem = f.req.code := rdmaReq_fillRequest h.mem f.args
    rw [← hfill]
    apply ((receive_agreeOn c (f.request h)).mono (le_refl 0) (by decide)).loadBits
  rw [ClientRInfo.request, hcode, RdmaReq.ofCode_code]

theorem receive_sockfd (c : ClientRInfo) (h : RInfo) (f : Forward) :
  (c.receive (f.request h)).sockfd = f.sockfd
  := htonl_htonl f.sockfd

/-- The data area of the server holds what the encoder of the host left. -/
theorem receive_data (c : ClientRInfo) (h : RInfo) (f : Forward) :
  (c.receive (f.request h)).mem.AgreeOn h.mem reqData bufferSize
  := by
  apply ((receive_agreeOn c (f.request h)).mono (by decide) (by decide)).trans
  apply fillRequest_agreeOn _ _ (le_refl _)

end SocketToRdma
