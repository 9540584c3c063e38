import SocketToRdma.Lib.Access
import SocketToRdma.Server.Contract

/-!
# The accesses of the handlers

What each handler, with its decoder and its encoder, reads and writes, and what the branch of
its request clears, as ranges of the objects they are in: the data areas of the messages, the
local variables, and the memory that was allocated. What the kernel reads and writes through the
pointers that a handler passes to it is part of that. The lengths come from the message and from
the system call; the command of a `fcntl` implies one. A request stays in bounds exactly when the
lengths of its message are below the limits of its handler; two requests never do, since their
branch clears the size of a whole message from the start of its data area.
-/

namespace SocketToRdma

/-! ### The accesses -/

/-- A range of a data area. -/
def dataArea (offset length : ℕ) : Access :=
  ⟨bufferSize, offset, length⟩

/-- A whole object of `n` bytes. -/
def whole (n : ℕ) : Access :=
  ⟨n, 0, n⟩

/-- The size that `sock_read_message` and `sock_send_message` pass on. -/
def messageSize (m : ByteMem) : BitVec 64 :=
  ((bufSz m).setWidth 32).signExtend 64

/-- `deserialize_select_fd_set`, with a destination for every argument. -/
def deserializeSelectAccesses (m : ByteMem) (p : ℕ) : List Access :=
  let flag := (m.loadBits 32 (p + 4)).toInt
  [dataArea 0 4, dataArea 4 4] ++
    if flag = 0 then []
    else
      (if flag.tdiv 1000 = 1 then [dataArea 5 128, whole 128] else []) ++
      (if (flag - 1000).tdiv 100 = 1 then [dataArea 133 128, whole 128] else []) ++
      (if (flag - 1100).tdiv 10 = 1 then [dataArea 261 128, whole 128] else []) ++
      if flag - 1110 = 1 then [dataArea 389 16, whole 16] else []

/-- `serialize_select_fd_set`, with all arguments present. -/
def serializeSelectAccesses : List Access :=
  [dataArea 0 4, dataArea 5 128, whole 128, dataArea 133 128, whole 128, dataArea 261 128,
    whole 128, dataArea 389 16, whole 16, dataArea 4 4]

/-- `sock_select` -/
def sockSelectAccesses (env : HandlerEnv) (m : ByteMem) : List Access :=
  deserializeSelectAccesses m reqData ++
    if 0 < env.outcome.int.toInt then serializeSelectAccesses else []

/-- The events of `sock_epoll_wait` that `serialize_epoll_wait_dt` copies: those that end within
`1024` bytes. -/
def encodedEvents (o : Outcome) : ℕ :=
  min o.int.toInt.toNat 84

/-- `sock_epoll_wait`: the local array has `100` entries. -/
def sockEpollWaitAccesses (env : HandlerEnv) (m : ByteMem) : List Access :=
  [dataArea 0 16, ⟨100, 0, (deserializeEpollWaitDt m reqData).maxevents.toInt.toNat⟩] ++
    if env.outcome.int = -1 then []
    else
      [dataArea 0 16, ⟨100, 0, encodedEvents env.outcome⟩,
        dataArea 16 (12 * encodedEvents env.outcome)]

/-- `sock_poll`: the size of the array that is allocated wraps at `2 ^ 64`. -/
def sockPollAccesses (env : HandlerEnv) (m : ByteMem) : List Access :=
  let size := 8 * (pollArgs env m).nfds.toNat
  [dataArea 0 12] ++
    if env.malloc then
      [dataArea 12 size, ⟨size % 2 ^ 64, 0, size⟩] ++
        if env.outcome.int.toInt < 0 then [] else [dataArea 0 12, dataArea 12 size]
    else []

/-- The commands whose third argument is the address of a `struct flock`: `F_GETLK`, `F_SETLK` and
`F_SETLKW`, and the same for open file descriptions. -/
def flockCommands : List (BitVec 32) :=
  [fGetlk, fSetlk, fSetlkw, 36, 37, 38]

/-- The commands whose third argument is the address of eight bytes: `F_SETOWN_EX`, `F_GETOWN_EX`,
`F_GETOWNER_UIDS`, and the four that get or set a hint for reading and writing. -/
def eightByteCommands : List (BitVec 32) :=
  [15, 16, 17, 1035, 1036, 1037, 1038]

/-- The length that a command of `fcntl` lets the kernel read or write at the address that is the
third argument; it is zero if the command takes a number or nothing there. -/
def fcntlObjectSize (cmd : BitVec 32) : ℕ :=
  if cmd ∈ flockCommands then 32
  else if cmd ∈ eightByteCommands then 8
  else 0

/-- What `deserialize_fcntl_dt` copies into the argument that it allocates. -/
def fcntlCopies : Option FcntlArg → List Access
  | none => []
  | some (.int _) => [dataArea 8 4, whole 4]
  | some (.flock _) => [dataArea 8 32, whole 32]

/-- What the kernel accesses through the third argument of `fcntl`. An argument that is left out is
the address of no object, and a null pointer is refused. -/
def fcntlAccesses (cmd : BitVec 32) : Option (Option FcntlArg) → List Access
  | none => [⟨0, 0, fcntlObjectSize cmd⟩]
  | some none => []
  | some (some (.int _)) => [⟨4, 0, fcntlObjectSize cmd⟩]
  | some (some (.flock _)) => [⟨32, 0, fcntlObjectSize cmd⟩]

/-- `sock_fcntl`: the argument that the decoder allocates is passed on for any command. -/
def sockFcntlAccesses (env : HandlerEnv) (m : ByteMem) : List Access :=
  let args := deserializeFcntlDt m reqData env.malloc
  [dataArea 0 8] ++ fcntlCopies args.arg ++
    fcntlAccesses args.cmd (if args.flag = 0 then none else some args.arg)

/-- `deserialize_sockopt_dt`; the value is passed on with the length it was allocated for. -/
def deserializeSockoptAccesses (env : HandlerEnv) (m : ByteMem) : List Access :=
  let optlen := (deserializeSockoptDt m reqData env.malloc).optlen.toNat
  [dataArea 0 12] ++ if env.malloc then [dataArea 12 optlen, whole optlen] else []

/-- `sock_getsockopt` -/
def sockGetsockoptAccesses (env : HandlerEnv) (m : ByteMem) : List Access :=
  let optlen := (deserializeSockoptDt m reqData env.malloc).optlen.toNat
  deserializeSockoptAccesses env m ++
    if env.outcome.int.toInt < 0 then []
    else
      [dataArea 0 12, dataArea 12 env.outcome.len.toNat,
        ⟨if env.malloc then optlen else 0, 0, env.outcome.len.toNat⟩]

/-- The bytes that the kernel writes to the address of `sock_getpeername` and
`sock_getsockname`: the length it is given limits them, not the size of the local variable. -/
def addrWritten (env : HandlerEnv) (m : ByteMem) : ℕ :=
  min (deserializeAddrDt m reqData).addrlen.toNat env.outcome.len.toNat

/-- `sock_getpeername` and `sock_getsockname` -/
def sockAddrAccesses (env : HandlerEnv) (m : ByteMem) : List Access :=
  [dataArea 0 20, whole 16] ++
    if env.outcome.int.toInt < 0 then []
    else [⟨16, 0, addrWritten env m⟩, dataArea 0 20, whole 16]

/-- The handler of a request, with its decoder and its encoder. -/
def handlerAccesses (env : HandlerEnv) (m : ByteMem) : Option RdmaReq → List Access
  | some .read => [dataArea 0 (messageSize m).toNat]
  | some .write => [dataArea 0 (messageSize m).toNat]
  | some .select => sockSelectAccesses env m
  | some .epollCreate1 => [dataArea 0 4]
  | some .epollCtl => [dataArea 0 24]
  | some .epollWait => sockEpollWaitAccesses env m
  | some .poll => sockPollAccesses env m
  | some .fcntl => sockFcntlAccesses env m
  | some .setsockopt => deserializeSockoptAccesses env m
  | some .getsockopt => sockGetsockoptAccesses env m
  | some .getpeername => sockAddrAccesses env m
  | some .getsockname => sockAddrAccesses env m
  | _ => []

/-- The clearing of a buffer after the handler: of the start of the data that were read, or of a
data area with the size of its message. -/
def cleanupAccesses : Option RdmaReq → List Access
  | some .read => [dataArea 0 8]
  | some .write => [dataArea 0 reqSize]
  | some .select => [dataArea 0 rtnSize]
  | _ => []

/-- The accesses of serving a request. -/
def accesses (env : ServerEnv) (c : ClientRInfo) : List Access :=
  handlerAccesses env.toHandlerEnv c.mem c.request ++ cleanupAccesses c.request

/-! ### The limits -/

/-- What the arguments of a system call allow for its outcome: no more data are read than asked
for, and an option takes no more than the memory for it. -/
def Allowed (env : HandlerEnv) (m : ByteMem) : Option RdmaReq → Prop
  | some .read => env.outcome.ret.toInt ≤ (messageSize m).toNat
  | some .getsockopt =>
      0 ≤ env.outcome.int.toInt →
        env.outcome.len.toNat ≤
          if env.malloc then (deserializeSockoptDt m reqData true).optlen.toNat else 0
  | _ => True

/-- The limits of the handlers. -/
def WithinLimits (env : HandlerEnv) (m : ByteMem) : Option RdmaReq → Prop
  | some .read => (bufSz m).toNat % 2 ^ 32 ≤ 600000
  | some .write | some .select => False
  | some .epollWait => (deserializeEpollWaitDt m reqData).maxevents.toInt ≤ 100
  | some .poll => env.malloc → (pollArgs env m).nfds.toNat ≤ 74998
  | some .fcntl =>
      let args := deserializeFcntlDt m reqData env.malloc
      fcntlObjectSize args.cmd = 0 ∨ args.flag ≠ 0 ∧ (args.flag = 1 → ¬ env.malloc)
  | some .setsockopt | some .getsockopt =>
      env.malloc → (deserializeSockoptDt m reqData true).optlen.toNat ≤ 599988
  | some .getpeername | some .getsockname =>
      env.outcome.int.toInt < 0 ∨ addrWritten env m ≤ 16
  | _ => True

theorem messageSize_le_iff (m : ByteMem) :
  (messageSize m).toNat ≤ 600000 ↔ (bufSz m).toNat % 2 ^ 32 ≤ 600000
  := by
  rw [messageSize, toNat_narrowed]
  split <;> omega

section

attribute [local simp] dataArea whole bufferSize

theorem sockEpollWaitAccesses_iff (env : HandlerEnv) (m : ByteMem) :
  Access.AllInBounds (sockEpollWaitAccesses env m) ↔
    (deserializeEpollWaitDt m reqData).maxevents.toInt ≤ 100
  := by
  have hevents : encodedEvents env.outcome ≤ 84 := min_le_right _ _
  simp only [sockEpollWaitAccesses, Access.allInBounds_append]
  split
  · simp
  · simp
    omega

theorem sockPollAccesses_iff (env : HandlerEnv) (m : ByteMem) :
  Access.AllInBounds (sockPollAccesses env m) ↔
    (env.malloc → (pollArgs env m).nfds.toNat ≤ 74998)
  := by
  simp only [sockPollAccesses, Access.allInBounds_append]
  by_cases hmalloc : env.malloc
  · simp only [hmalloc, if_true, true_imp_iff, Access.allInBounds_append]
    split
    · simp
      omega
    · simp
      omega
  · simp [hmalloc]

theorem fcntlObjectSize_le (cmd : BitVec 32) :
  fcntlObjectSize cmd ≤ 32 ∧ (fcntlObjectSize cmd ≤ 4 ↔ fcntlObjectSize cmd = 0)
  := by
  unfold fcntlObjectSize
  split
  · simp
  · split <;> simp

theorem fcntlCopies_inBounds (arg : Option FcntlArg) :
  Access.AllInBounds (fcntlCopies arg)
  := by
  rcases arg with _ | ⟨_⟩ | ⟨_⟩
  · simp [fcntlCopies]
  · simp [fcntlCopies]
  · simp [fcntlCopies]

theorem deserializeFcntlDt_number {m : ByteMem} {p : ℕ} {malloc : Bool}
    (h : (deserializeFcntlDt m p malloc).flag = 1) (hmalloc : malloc) :
  (deserializeFcntlDt m p malloc).arg = some (.int (m.loadBits 32 (p + 8)))
  := by
  have hflag : m.loadBits 32 (p + 4) = 1 := h
  simp [deserializeFcntlDt, hflag, hmalloc]

/-- Only the flag `1` gives an object that is too small for a `struct flock`. -/
theorem deserializeFcntlDt_arg (m : ByteMem) (p : ℕ) {malloc : Bool}
    (h : (deserializeFcntlDt m p malloc).flag = 1 → ¬ malloc) :
  (deserializeFcntlDt m p malloc).arg = none ∨
    ∃ lock, (deserializeFcntlDt m p malloc).arg = some (.flock lock)
  := by
  simp only [deserializeFcntlDt] at h ⊢
  split
  case isTrue hint => simp [h hint]
  case isFalse =>
    split
    · cases malloc <;> simp
    · simp

/-- A command with a pointer needs the argument of a `struct flock`, or none that was allocated. -/
theorem sockFcntlAccesses_iff (env : HandlerEnv) (m : ByteMem) :
  Access.AllInBounds (sockFcntlAccesses env m) ↔ WithinLimits env m (some .fcntl)
  := by
  simp only [sockFcntlAccesses, WithinLimits, Access.allInBounds_append, fcntlCopies_inBounds,
    and_true]
  set args := deserializeFcntlDt m reqData env.malloc with hargs
  obtain ⟨hle, hzero⟩ := fcntlObjectSize_le args.cmd
  by_cases hnone : args.flag = 0
  · simp [hnone, fcntlAccesses]
  · rw [if_neg hnone]
    by_cases hint : args.flag = 1 → ¬ env.malloc
    · refine iff_of_true ?_ (.inr ⟨hnone, hint⟩)
      -- the address is null, or that of a whole structure
      obtain harg | ⟨lock, harg⟩ := deserializeFcntlDt_arg m reqData hint
      · rw [hargs, harg]
        simp [fcntlAccesses]
      · rw [hargs, harg]
        simp [fcntlAccesses, ← hargs, hle]
    · obtain ⟨hflag, hmalloc⟩ := Classical.not_imp.mp hint
      have harg : args.arg = some (.int (m.loadBits 32 (reqData + 8))) :=
        deserializeFcntlDt_number hflag (not_not.mp hmalloc)
      rw [or_iff_left (fun h => hint h.2), ← hzero, harg]
      simp [fcntlAccesses]

theorem deserializeSockoptAccesses_iff (env : HandlerEnv) (m : ByteMem) :
  Access.AllInBounds (deserializeSockoptAccesses env m) ↔
    (env.malloc → (deserializeSockoptDt m reqData true).optlen.toNat ≤ 599988)
  := by
  simp only [deserializeSockoptAccesses, deserializeSockoptDt, Access.allInBounds_append]
  by_cases hmalloc : env.malloc
  · simp [hmalloc]
    omega
  · simp [hmalloc]

theorem sockGetsockoptAccesses_iff {env : HandlerEnv} {m : ByteMem}
    (h : Allowed env m (some .getsockopt)) :
  Access.AllInBounds (sockGetsockoptAccesses env m) ↔
    (env.malloc → (deserializeSockoptDt m reqData true).optlen.toNat ≤ 599988)
  := by
  rw [sockGetsockoptAccesses, Access.allInBounds_append, deserializeSockoptAccesses_iff]
  apply and_iff_left_of_imp
  intro hlimit
  split
  · simp
  case isFalse hret =>
    have hlen := h (not_lt.mp hret)
    by_cases hmalloc : env.malloc
    · have hle := hlimit hmalloc
      rw [if_pos hmalloc] at hlen
      simp only [hmalloc, if_true, Access.allInBounds_cons, Access.allInBounds_nil, dataArea,
        bufferSize, and_true]
      omega
    · rw [if_neg hmalloc] at hlen
      simp only [hmalloc, Bool.false_eq_true, if_false, Access.allInBounds_cons,
        Access.allInBounds_nil, dataArea, bufferSize, and_true]
      omega

theorem sockAddrAccesses_iff (env : HandlerEnv) (m : ByteMem) :
  Access.AllInBounds (sockAddrAccesses env m) ↔
    (env.outcome.int.toInt < 0 ∨ addrWritten env m ≤ 16)
  := by
  simp only [sockAddrAccesses, Access.allInBounds_append]
  split
  case isTrue hret => simp [hret]
  case isFalse hret => simp [hret]

/-- A request stays in bounds exactly when its message is within the limits. -/
theorem accesses_inBounds_iff (env : ServerEnv) (c : ClientRInfo)
    (h : Allowed env.toHandlerEnv c.mem c.request) :
  Access.AllInBounds (accesses env c) ↔ WithinLimits env.toHandlerEnv c.mem c.request
  := by
  rw [accesses, Access.allInBounds_append]
  cases hreq : c.request with
  | none => simp [handlerAccesses, cleanupAccesses, WithinLimits]
  | some req =>
      rw [hreq] at h
      cases req with
      | read => simp [handlerAccesses, cleanupAccesses, WithinLimits, messageSize_le_iff]
      | write | select =>
          simp [handlerAccesses, cleanupAccesses, WithinLimits, reqSize, rtnSize]
      | epollWait =>
          simp [handlerAccesses, cleanupAccesses, WithinLimits, sockEpollWaitAccesses_iff]
      | poll => simp [handlerAccesses, cleanupAccesses, WithinLimits, sockPollAccesses_iff]
      | fcntl =>
          simp only [handlerAccesses, cleanupAccesses, Access.allInBounds_nil, and_true,
            sockFcntlAccesses_iff]
      | setsockopt =>
          simp [handlerAccesses, cleanupAccesses, WithinLimits, deserializeSockoptAccesses_iff]
      | getsockopt =>
          simp [handlerAccesses, cleanupAccesses, WithinLimits, sockGetsockoptAccesses_iff h]
      | getpeername | getsockname =>
          simp [handlerAccesses, cleanupAccesses, WithinLimits, sockAddrAccesses_iff]
      | _ => simp [handlerAccesses, cleanupAccesses, WithinLimits]

/-- Reading four bytes stays in bounds. -/
theorem accesses_inBounds_iff_read :
  Access.AllInBounds (accesses (.ofOutcome (.ofRet 4 0)) (.received .read 4))
  := by
  apply (accesses_inBounds_iff (.ofOutcome (.ofRet 4 0)) (.received .read 4) _).mpr
  · rw [ClientRInfo.request_received, WithinLimits, ClientRInfo.bufSz_received]
    decide
  · rw [ClientRInfo.request_received, Allowed, messageSize, ClientRInfo.bufSz_received]
    decide

/-- Sending no bytes at all clears `600014` bytes of a data area of `600000`. -/
theorem write_not_inBounds :
  (ClientRInfo.received .write 0).request = some .write ∧
    Allowed (ServerEnv.ofOutcome (.ofRet 0 0)).toHandlerEnv (ClientRInfo.received .write 0).mem
      (ClientRInfo.received .write 0).request ∧
    ¬ Access.AllInBounds (accesses (.ofOutcome (.ofRet 0 0)) (.received .write 0))
  := by
  use ClientRInfo.request_received .write 0
  constructor
  · rw [ClientRInfo.request_received]
    trivial
  · rw [accesses, ClientRInfo.request_received]
    simp [handlerAccesses, cleanupAccesses, reqSize]

end

/-! ### What lies behind the messages -/

/-- The end of a reply. -/
def rtnEnd : ℕ := rtnData + bufferSize

theorem sockReadMessage_agreeOn {env : HandlerEnv} {m : ByteMem} (sockfd : BitVec 32) {k : ℕ}
    (hret : env.outcome.ret.toInt ≤ 600000) :
  (sockReadMessage env m sockfd).mem.AgreeOn m rtnEnd k
  := by
  apply (setErrno_agreeOn _ _ (Or.inr (by decide))).trans
  apply (setValue_agreeOn _ _ (Or.inr (by decide))).trans
  apply ByteMem.agreeOn_store
  right
  unfold rtnEnd bufferSize
  omega

theorem sockEpollWait_agreeOn (env : HandlerEnv) (m : ByteMem) {k : ℕ} :
  (sockEpollWait env m).mem.AgreeOn m rtnEnd k
  := by
  have hfill := fillRtn_agreeOn (k := k) m (env.outcome.int.signExtend 64) (env.outcome.int = -1)
    env.outcome.errno (show rtnData ≤ rtnEnd by decide)
  simp only [sockEpollWait]
  split
  · apply hfill
  · apply ByteMem.AgreeOn.trans _ hfill
    apply serializeEpollWaitDt_agreeOn _ _ _ (Or.inr (by decide))

theorem intReply_agreeOn (m : ByteMem) (o : Outcome) {k : ℕ} :
  (intReply m o).AgreeOn m rtnEnd k
  := fillRtn_agreeOn m _ _ _ (by decide)

theorem sockPoll_agreeOn {env : HandlerEnv} {m : ByteMem} {k : ℕ}
    (h : env.malloc → (pollArgs env m).nfds.toNat ≤ 74998) :
  (sockPoll env m).mem.AgreeOn m rtnEnd k
  := by
  have hfill := intReply_agreeOn (k := k) m env.outcome
  simp only [sockPoll]
  split
  · apply hfill
  · apply ByteMem.AgreeOn.trans _ hfill
    by_cases hmalloc : env.malloc
    · apply serializePollPollfd_agreeOn
      right
      have hle := h hmalloc
      have hnfds : (pollResult env.outcome (pollArgs env m)).nfds = (pollArgs env m).nfds := rfl
      rw [hnfds]
      unfold rtnEnd bufferSize
      omega
    · simp only [pollResult, pollArgs, deserializePollPollfd, hmalloc, Bool.false_eq_true, if_false,
        serializePollPollfd]
      apply ByteMem.AgreeOn.refl

theorem sockSetsockopt_agreeOn (env : HandlerEnv) (m : ByteMem) (sockfd : BitVec 32) {k : ℕ} :
  (sockSetsockopt env m sockfd).mem.AgreeOn m rtnEnd k
  := by
  simp only [sockSetsockopt]
  split
  · apply setErrno_agreeOn _ _ (Or.inr (by decide))
  · apply ByteMem.AgreeOn.refl

theorem sockGetsockopt_agreeOn {env : HandlerEnv} {m : ByteMem} (sockfd : BitVec 32) {k : ℕ}
    (h : Allowed env m (some .getsockopt))
    (h' : env.malloc → (deserializeSockoptDt m reqData true).optlen.toNat ≤ 599988) :
  (sockGetsockopt env m sockfd).mem.AgreeOn m rtnEnd k
  := by
  simp only [sockGetsockopt]
  split
  · apply setErrno_agreeOn _ _ (Or.inr (by decide))
  case isFalse hret =>
    have hlen := h (not_lt.mp hret)
    apply serializeSockoptDt_agreeOn
    right
    unfold rtnEnd bufferSize
    split at hlen
    case isTrue hmalloc =>
      have hle := h' hmalloc
      omega
    case isFalse => omega

theorem addrReply_agreeOn (m : ByteMem) (o : Outcome) {k : ℕ} :
  (addrReply m o).AgreeOn m rtnEnd k
  := by
  have hfill := intReply_agreeOn (k := k) m o
  unfold addrReply
  split
  · apply hfill
  · apply ByteMem.AgreeOn.trans _ hfill
    apply serializeAddrDt_agreeOn _ _ (Or.inr (by decide))

/-- Replying writes the header of the reply and the first bytes of its data only. -/
theorem reply_agreeOn (env : ServerEnv) (x : Exec) {k : ℕ} :
  (reply env x).cInfo.mem.AgreeOn x.cInfo.mem rtnEnd k
  := by
  obtain ⟨ps, rest, h⟩ := reply_replied env x
  by_cases hpost : ∀ i < replyCount x.cInfo.mem, env.post (x.posts + i) = 0
  · rw [(h.done hpost).2.1, settled, dataCleared]
    apply (setErrno_agreeOn _ _ (Or.inr (by decide))).trans
    split
    · apply ByteMem.agreeOn_store _ _ _ (Or.inr (by decide))
    · apply ByteMem.AgreeOn.refl
  · rw [not_forall₂] at hpost
    obtain ⟨i, hi, hpost⟩ := hpost
    rw [(h.failed ⟨i, hi, hpost⟩).1]
    apply ByteMem.AgreeOn.refl

/-- Serving a request whose accesses are in bounds leaves what lies behind its messages as it
was. -/
theorem rdmaReqEvent_agreeOn {env : ServerEnv} {c : ClientRInfo}
    (hallowed : Allowed env.toHandlerEnv c.mem c.request)
    (h : Access.AllInBounds (accesses env c)) (k : ℕ) :
  (rdmaReqEvent env (.start c)).cInfo.mem.AgreeOn c.mem rtnEnd k
  := by
  have hhandler := ((Access.allInBounds_append _ _).mp h).1
  have hcleanup := ((Access.allInBounds_append _ _).mp h).2
  rw [show rdmaReqEvent env (.start c) = serve env (.start c) c.request from rfl]
  cases hreq : c.request with
  | none =>
      apply (reply_agreeOn env _).trans
      apply setValue_agreeOn _ _ (Or.inr (by decide))
  | some req =>
      rw [hreq] at hallowed hhandler hcleanup
      cases req with
      | read =>
          have hsize : (messageSize c.mem).toNat ≤ 600000 := by
            simpa [handlerAccesses, dataArea, bufferSize] using hhandler
          apply (reply_agreeOn env _).trans
          apply sockReadMessage_agreeOn c.sockfd (le_trans hallowed _)
          exact_mod_cast hsize
      | write | select =>
          simp [cleanupAccesses, dataArea, bufferSize, reqSize, rtnSize] at hcleanup
      | epollWait => apply (reply_agreeOn env _).trans (sockEpollWait_agreeOn _ _)
      | poll =>
          apply (reply_agreeOn env _).trans
          apply sockPoll_agreeOn ((sockPollAccesses_iff _ _).mp hhandler)
      | getsockopt =>
          apply (reply_agreeOn env _).trans
          apply sockGetsockopt_agreeOn c.sockfd hallowed
          apply (sockGetsockoptAccesses_iff hallowed).mp hhandler
      | setsockopt =>
          apply (reply_agreeOn env _).trans (sockSetsockopt_agreeOn _ _ c.sockfd)
      | getpeername | getsockname => apply (reply_agreeOn env _).trans (addrReply_agreeOn _ _)
      | epollCreate1 =>
          simp only [serve]
          split
          · apply (reply_agreeOn env _).trans
            apply fillRtn_agreeOn _ _ _ _ (by decide)
          · rw [Exec.act_cInfo]
            apply (reply_agreeOn env _).trans
            apply fillRtn_agreeOn _ _ _ _ (by decide)
      | newRdmaConn =>
          simp only [serve]
          split
          all_goals
            simp only [Exec.act_cInfo]
            apply (reply_agreeOn env _).trans
            apply setValue_agreeOn _ _ (Or.inr (by decide))
      | delRdmaConn =>
          simp only [serve]
          split
          · simp only [Exec.act_cInfo]
            apply (reply_agreeOn env _).trans
            apply setValue_agreeOn _ _ (Or.inr (by decide))
          · apply (reply_agreeOn env _).trans
            apply setValue_agreeOn _ _ (Or.inr (by decide))
      | socket | epollCtl =>
          apply (reply_agreeOn env _).trans
          apply fillRtn_agreeOn _ _ _ _ (by decide)
      | accept | connect | close | bind | listen | fcntl =>
          apply (reply_agreeOn env _).trans (intReply_agreeOn _ _)

end SocketToRdma
