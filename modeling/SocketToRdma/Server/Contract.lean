import SocketToRdma.Server.Reply

/-!
# One reply for each request, from this request alone

The host posts one receive for every request and waits for one completion, and it takes the
value of the reply for the result of its call. A request is answered with one message except
when a long `read` is: then the chunk loop posts a second one. The reply is determined by the
request and by the outcome of its system call except for the two requests about socket
options, whose handlers leave the value of the reply as the previous request set it.
-/

namespace SocketToRdma

/-- The request of the connection. -/
def ClientRInfo.request (c : ClientRInfo) : Option RdmaReq :=
  RdmaReq.ofCode (rdmaReq c.mem)

/-- An execution of `rdma_req_event`: what it does before its reply, the messages of the reply,
and what it does after them. -/
theorem rdmaReqEvent_trace (env : ServerEnv) (c : ClientRInfo) :
  ∃ y ps rest rest', Prepared env c c.request y ∧ Replied env y (reply env y) ps rest ∧
    Followed env c c.request y rest' ∧
    (rdmaReqEvent env (.start c)).trace = y.trace ++ ps ++ rest ++ rest'
  := by
  obtain ⟨y, rest', hprep, hfollow⟩ := served env c c.request
  obtain ⟨ps, rest, hreply⟩ := reply_replied env y
  use y, ps, rest, rest', hprep, hreply, hfollow
  rw [← hreply.trace, ← hfollow.trace]
  rfl

theorem request_eq_read {c : ClientRInfo} :
  c.request = some .read ↔ rdmaReq c.mem = RdmaReq.read.code
  := by
  constructor
  · intro h
    apply (RdmaReq.code_of_ofCode h).symm
  · intro h
    rw [ClientRInfo.request, h, RdmaReq.ofCode_code]

/-- The reply goes in chunks exactly when data was read. -/
theorem Prepared.chunked_iff {env : ServerEnv} {c : ClientRInfo} {y : Exec}
    (h : Prepared env c c.request y) :
  Chunked y.cInfo.mem ↔ c.request = some .read ∧ 0 < env.outcome.ret.toInt
  := by
  have hreq : rdmaReq y.cInfo.mem = rdmaReq c.mem :=
    (h.fills.request.mono (le_refl 0) (by decide)).loadBits
  rw [Chunked, hreq, ← request_eq_read, h.fills.value]
  constructor
  · rintro ⟨hread, hpos⟩
    rw [hread] at hpos
    exact ⟨hread, hpos⟩
  · rintro ⟨hread, hpos⟩
    rw [hread]
    exact ⟨rfl, hpos⟩

/-! ### The number of messages -/

theorem chunkCount_pos {totalSize : ℕ} (h : 0 < totalSize) :
  0 < chunkCount totalSize 0
  := by
  rw [chunkCount, if_pos h]
  omega

/-- Exactly the sizes below the buffer size are sent in one chunk. -/
theorem chunkCount_eq_one_iff {totalSize : ℕ} (h : 0 < totalSize) :
  chunkCount totalSize 0 = 1 ↔ totalSize < bufferSize
  := by
  rw [chunkCount, if_pos h, bytesToCopy, Nat.sub_zero, Nat.zero_add]
  by_cases hsize : totalSize < bufferSize
  · rw [if_pos hsize, chunkCount, if_neg (Nat.lt_irrefl _)]
    exact ⟨fun _ => hsize, fun _ => rfl⟩
  · have hlt : bufferSize - headerSz < totalSize := by
      unfold bufferSize headerSz at *
      omega
    rw [if_neg hsize, chunkCount, if_pos hlt]
    constructor <;> omega

/-- A positive integer is the number of its bits. -/
theorem toInt_pos_toNat {w : ℕ} {x : BitVec w} (h : 0 < x.toInt) :
  (x.toNat : ℤ) = x.toInt
  := by
  have hlt := x.isLt
  rw [BitVec.toInt_eq_toNat_cond] at h ⊢
  split
  · rfl
  · rw [if_neg ‹_›] at h
    omega

/-- The number of messages that answer the request. -/
def messageCount (env : ServerEnv) (c : ClientRInfo) : ℕ :=
  if c.request = some .read ∧ 0 < env.outcome.ret.toInt then
    chunkCount (headerSz + env.outcome.ret.toNat) 0
  else 1

theorem Prepared.replyCount_eq {env : ServerEnv} {c : ClientRInfo} {y : Exec}
    (h : Prepared env c c.request y) :
  replyCount y.cInfo.mem = messageCount env c
  := by
  simp only [replyCount, h.chunked_iff, messageCount]
  split
  case isTrue hread =>
    rw [h.fills.value, hread.1]
    rfl
  case isFalse => rfl

/-- When the posts succeed, a request is answered with as many messages as its reply has
chunks. -/
theorem rdmaReqEvent_posts (env : ServerEnv) (c : ClientRInfo) (hpost : ∀ i, env.post i = 0) :
  (rdmaReqEvent env (.start c)).trace.countP (fun e => e.1.IsPost) = messageCount env c
  := by
  obtain ⟨y, ps, rest, rest', hprep, hreply, hfollow, htrace⟩ := rdmaReqEvent_trace env c
  have hlen : ps.length = replyCount y.cInfo.mem := (hreply.done fun i _ => hpost _).1
  have hzero : ∀ l : List Event, (∀ e ∈ l, ¬ e.1.IsPost) →
      l.countP (fun e => e.1.IsPost) = 0 := by
    intro l hl
    rw [List.countP_eq_zero]
    simpa using hl
  have hps : ps.countP (fun e => e.1.IsPost) = ps.length := by
    rw [List.countP_eq_length]
    simpa using fun a b he => (hreply.posts (a, b) he).1
  simp only [htrace, List.countP_append, hzero _ hprep.silent,
    hzero _ fun e he => (hreply.silent e he).not_isPost,
    hzero _ fun e he => (hfollow.silent e he).not_isPost, hps, hlen, hprep.replyCount_eq,
    Nat.zero_add, Nat.add_zero]

theorem messageCount_pos (env : ServerEnv) (c : ClientRInfo) :
  0 < messageCount env c
  := by
  rw [messageCount]
  split
  · apply chunkCount_pos
    unfold headerSz
    omega
  · decide

/-- One message takes the data of every `read` but a long one. -/
theorem messageCount_eq_one_iff (env : ServerEnv) (c : ClientRInfo) :
  messageCount env c = 1 ↔ ¬ (c.request = some .read ∧ 599988 ≤ env.outcome.ret.toInt)
  := by
  rw [messageCount]
  by_cases hread : c.request = some .read ∧ 0 < env.outcome.ret.toInt
  · rw [if_pos hread, chunkCount_eq_one_iff (by unfold headerSz; omega)]
    have := toInt_pos_toNat hread.2
    simp only [hread.1, true_and, bufferSize, headerSz]
    omega
  · rw [if_neg hread]
    simp only [true_iff]
    rintro ⟨hreq, hret⟩
    apply hread
    use hreq
    omega

/-- A request is answered with exactly one message, unless it reads more data than one message
takes. -/
theorem one_reply_iff (env : ServerEnv) (c : ClientRInfo) (hpost : ∀ i, env.post i = 0) :
  (rdmaReqEvent env (.start c)).trace.countP (fun e => e.1.IsPost) = 1 ↔
    ¬ (c.request = some .read ∧ 599988 ≤ env.outcome.ret.toInt)
  := by
  rw [rdmaReqEvent_posts env c hpost]
  apply messageCount_eq_one_iff

/-- The outcome of a call that leaves zeros in its buffers. -/
def Outcome.ofRet (ret : BitVec 64) (errno : BitVec 32) : Outcome :=
  ⟨ret, errno, zeros, 0⟩

/-- An environment with an outcome of the system call, where everything else goes well. -/
def ServerEnv.ofOutcome (outcome : Outcome) : ServerEnv where
  outcome := outcome
  malloc := true
  locals := zeros
  post := fun _ => 0
  connect := 0
  pthreadCreate := 0
  disconnected := true

/-- A connection that received a request of a size, with empty buffers. -/
def ClientRInfo.received (req : RdmaReq) (size : BitVec 64) : ClientRInfo where
  mem := (zeros.storeBits reqRdmaReq req.code).storeBits reqBufSz size
  sockfd := 5
  rtnMr := ⟨0, 600012, 0⟩
  clientMetadataAttr := ⟨0, 0⟩
  serverSendSge := ⟨0, 0, 0⟩

theorem ClientRInfo.request_received (req : RdmaReq) (size : BitVec 64) :
  (ClientRInfo.received req size).request = some req
  := by
  rw [request, rdmaReq, received, ByteMem.loadBits_storeBits_of_disjoint _ _ _ (Or.inl (by decide)),
    ByteMem.loadBits_storeBits _ _ _ (by decide), RdmaReq.ofCode_code]

theorem ClientRInfo.bufSz_received (req : RdmaReq) (size : BitVec 64) :
  bufSz (ClientRInfo.received req size).mem = size
  := by
  rw [bufSz, received, ByteMem.loadBits_storeBits _ _ _ (by decide)]

theorem one_reply_iff_listen :
  (rdmaReqEvent (.ofOutcome (.ofRet 0 0))
      (.start (.received .listen 0))).trace.countP (fun e => e.1.IsPost) = 1 ↔
    ¬ ((ClientRInfo.received .listen 0).request = some .read ∧ 599988 ≤ (0 : BitVec 64).toInt)
  := one_reply_iff (.ofOutcome (.ofRet 0 0)) (.received .listen 0) fun _ => rfl

/-- Reading `599988` bytes into a buffer of the largest size is answered with two messages. -/
theorem long_read_two_replies :
  (∀ i, (ServerEnv.ofOutcome (.ofRet 599988 0)).post i = 0) ∧
    (ClientRInfo.received .read 600000).request = some .read ∧
    (bufSz (ClientRInfo.received .read 600000).mem).toNat = bufferSize ∧
    (rdmaReqEvent (.ofOutcome (.ofRet 599988 0))
      (.start (.received .read 600000))).trace.countP (fun e => e.1.IsPost) = 2
  := by
  use fun _ => rfl, ClientRInfo.request_received ..
  constructor
  · rw [ClientRInfo.bufSz_received]
    rfl
  · rw [rdmaReqEvent_posts _ _ fun _ => rfl, messageCount, if_pos]
    · rw [chunkCount, if_pos (by decide), chunkCount, if_pos (by decide), chunkCount,
        if_neg (by decide)]
    · use ClientRInfo.request_received ..
      decide

/-! ### What the messages depend on -/

/-- The messages of the reply to the request, each as the memory when it is posted. -/
def replies (env : ServerEnv) (c : ClientRInfo) : List ByteMem :=
  ((rdmaReqEvent env (.start c)).trace.filter fun e => e.1.IsPost).map Prod.snd

/-- The result of the system call of a request, or the fixed value of a request that has
none. -/
def resultValue (o : Outcome) : Option RdmaReq → BitVec 64
  | none => -1
  | some .newRdmaConn | some .delRdmaConn => 1
  | some .read | some .write => o.ret
  | some _ => o.int.signExtend 64

/-- A reply is posted in the memory that was prepared. -/
theorem replies_eq_prepared (env : ServerEnv) (c : ClientRInfo) :
  ∃ y, Prepared env c c.request y ∧ (∀ r ∈ replies env c, r = y.cInfo.mem) ∧
    (c.request ≠ some .read → y.cInfo.mem ∈ replies env c)
  := by
  obtain ⟨y, ps, rest, rest', hprep, hreply, hfollow, htrace⟩ := rdmaReqEvent_trace env c
  use y, hprep
  constructor
  · intro r hr
    obtain ⟨e, he, rfl⟩ := List.mem_map.mp hr
    simp only [htrace, List.mem_filter, List.mem_append, decide_eq_true_iff] at he
    obtain ⟨((he | he) | he) | he, hpost⟩ := he
    · exact absurd hpost (hprep.silent e he)
    · apply (hreply.posts e he).2
    · exact absurd hpost (hreply.silent e he).not_isPost
    · exact absurd hpost (hfollow.silent e he).not_isPost
  · intro hread
    have hchunked : ¬ Chunked y.cInfo.mem := fun h => hread (hprep.chunked_iff.mp h).1
    obtain ⟨wr, rfl⟩ := hreply.single hchunked
    apply List.mem_map.mpr
    use (.postSend wr (env.post y.posts), y.cInfo.mem)
    simp only [htrace, List.mem_filter, and_true]
    constructor
    · simp
    · apply decide_eq_true trivial

/-- The handlers of the socket options keep the value of the reply, the others set it to the
result of the call. -/
theorem replyValue_eq_resultValue {o : Outcome} {m : ByteMem} {req : Option RdmaReq}
    (hset : req ≠ some .setsockopt) (hget : req ≠ some .getsockopt) :
  replyValue o m req = resultValue o req
  := by
  cases req with
  | none => rfl
  | some req =>
      cases req with
      | setsockopt => contradiction
      | getsockopt => contradiction
      | _ => rfl

/-- The error of the reply depends on the previous one at most. -/
theorem replyErrno_congr {o : Outcome} {m m' : ByteMem} (h : errno m = errno m')
    (req : Option RdmaReq) :
  replyErrno o m req = replyErrno o m' req
  := by
  unfold replyErrno
  rw [h]

/-- A connection with the same request. -/
theorem request_congr {c : ClientRInfo} {m : ByteMem} (h : m.AgreeOn c.mem 0 reqSize) :
  ({ c with mem := m } : ClientRInfo).request = c.request
  := by
  have hreq : rdmaReq m = rdmaReq c.mem := (h.mono (le_refl 0) (by decide)).loadBits
  rw [ClientRInfo.request, ClientRInfo.request, hreq]

/-- The connection with the reply of an earlier request left in its buffer. -/
def leftover (m : ByteMem) (v : BitVec 64) : ByteMem :=
  setErrno (setValue m v) 0

theorem leftover_agreeOn (m : ByteMem) (v : BitVec 64) :
  (leftover m v).AgreeOn m 0 reqSize
  := by
  apply (setErrno_agreeOn _ 0 (Or.inl (by decide))).trans
  apply setValue_agreeOn _ v (Or.inl (by decide))

/-- The reply to a request about socket options has the value left by the previous reply. -/
theorem leftover_reply (env : ServerEnv) (c : ClientRInfo) (v : BitVec 64)
    (h : c.request = some .setsockopt ∨ c.request = some .getsockopt) :
  ∃ r ∈ replies env { c with mem := leftover c.mem v }, value r = v
  := by
  have hreq := request_congr (leftover_agreeOn c.mem v)
  obtain ⟨y, hprep, hall, hsome⟩ := replies_eq_prepared env { c with mem := leftover c.mem v }
  rw [hreq] at hsome
  use y.cInfo.mem
  constructor
  · apply hsome
    obtain h | h := h <;> simp [h]
  · rw [hprep.fills.value, hreq]
    have hv : value (leftover c.mem v) = v := by
      rw [leftover, value_setErrno, value_setValue]
    obtain h | h := h
    · rw [h]
      apply hv
    · rw [h]
      apply hv

/-- The reply to a request does not depend on the reply to the previous one exactly when the
request is not about socket options. -/
theorem replies_independent_iff (env : ServerEnv) (c : ClientRInfo) :
  (∀ m m', m.AgreeOn c.mem 0 reqSize → m'.AgreeOn c.mem 0 reqSize → errno m = 0 → errno m' = 0 →
      ∀ r ∈ replies env { c with mem := m }, ∀ r' ∈ replies env { c with mem := m' },
        value r = value r' ∧ errno r = errno r' ∧ value r = resultValue env.outcome c.request) ↔
    c.request ≠ some .setsockopt ∧ c.request ≠ some .getsockopt
  := by
  constructor
  · intro h
    by_contra hopt
    have hopt : c.request = some .setsockopt ∨ c.request = some .getsockopt := by
      simp only [not_and_or, not_not, ne_eq] at hopt
      apply hopt
    obtain ⟨r, hr, hv⟩ := leftover_reply env c 0 hopt
    obtain ⟨r', hr', hv'⟩ := leftover_reply env c 1 hopt
    have heq := (h _ _ (leftover_agreeOn c.mem 0) (leftover_agreeOn c.mem 1)
      (errno_setErrno _ 0) (errno_setErrno _ 0) r hr r' hr').1
    rw [hv, hv'] at heq
    contradiction
  · rintro ⟨hset, hget⟩ m m' hm hm' he he' r hr r' hr'
    obtain ⟨y, hprep, hall, _⟩ := replies_eq_prepared env { c with mem := m }
    obtain ⟨y', hprep', hall', _⟩ := replies_eq_prepared env { c with mem := m' }
    rw [hall r hr, hall' r' hr', hprep.fills.value, hprep'.fills.value, hprep.fills.errno,
      hprep'.fills.errno, request_congr hm, request_congr hm',
      replyValue_eq_resultValue hset hget, replyValue_eq_resultValue hset hget]
    use rfl, replyErrno_congr (he.trans he'.symm) _

/-- A successful `setsockopt` after a call with the value `17` is answered with `17`. -/
theorem setsockopt_replies_leftover :
  (ClientRInfo.received .setsockopt 0).request = some .setsockopt ∧
    errno (leftover (ClientRInfo.received .setsockopt 0).mem 17) = 0 ∧
    resultValue (.ofRet 0 0) (some .setsockopt) = 0 ∧
    ∃ r ∈ replies (.ofOutcome (.ofRet 0 0))
        { ClientRInfo.received .setsockopt 0 with
          mem := leftover (ClientRInfo.received .setsockopt 0).mem 17 },
      value r = 17
  := by
  have hreq := ClientRInfo.request_received .setsockopt 0
  use hreq, errno_setErrno _ 0, rfl
  apply leftover_reply _ _ _ (Or.inl hreq)

end SocketToRdma
