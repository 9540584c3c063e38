import SocketToRdma.Host.Result
import SocketToRdma.Remote.Progress
import SocketToRdma.Remote.Write
import SocketToRdma.RoundTrip

/-!
# Calls on a kernel, from afar and at once

The server executes the calls on a kernel. A plain call is one whose request carries all that the
server passes on of its arguments, and whose result one reply carries as a whole: the calls that set
a socket up, reads and writes that fit one message, and those that make an epoll instance and change
it. The descriptor, the data of a `write` and the length of a `read`, the port of `connect` and the
arguments of the epoll calls are the caller's. The rest is fixed, whatever the caller gave: `socket`
makes a TCP socket over IPv4, `bind` takes the port `8080` of all addresses, `listen` has a backlog
of `1024`, `connect` goes to `DEFAULT_RDMA_SERVER_IP`, and `send` has no flags.

A session on a kernel is compared with the kernel alone, on which a call happens at once with these
arguments. The kernel may change by itself at any time. In every timely run, whatever is between the
two ends (the request and its data, the decoding, the reply and what is left of earlier ones, the
two threads), the caller sees the results that the kernel would have given such a call directly, and
the kernel goes through the same states.
-/

namespace SocketToRdma

open QueuePair Run

/-- A kernel: what a system call leaves of its state, and the outcome. The value returned fits an
`int` and is `-1` if the call fails, no more is read than was asked for, what is sent is the buffer
as far as its length says, and asking for the flags of a descriptor changes nothing. -/
structure Kernel (κ : Type) where
  exec : κ → Syscall → κ × Outcome
  ret : ∀ k call, -1 ≤ (exec k call).2.ret.toInt ∧ (exec k call).2.ret.toInt < 2 ^ 31
  read : ∀ k fd n, (exec k (.read fd n)).2.ret.toInt ≤ n.toNat
  send : ∀ k fd n flags (data data' : ByteMem), (∀ j < n.toNat, data j = data' j) →
    exec k (.send fd data n flags) = exec k (.send fd data' n flags)
  getfd : ∀ k fd, (exec k (.fcntl fd fGetfd none)).1 = k

namespace Kernel

variable {κ : Type} (K : Kernel κ)

/-- The kernel after some calls. -/
def after (k : κ) (executed : List Syscall) : κ :=
  executed.foldl (fun k call => (K.exec k call).1) k

/-- The outcome is that of the last call. -/
def Answers (k : κ) (executed : List Syscall) (o : Outcome) : Prop :=
  ∃ first call, executed = first ++ [call] ∧ o = (K.exec (K.after k first) call).2

theorem after_append (k : κ) (executed : List Syscall) (call : Syscall) :
  K.after k (executed ++ [call]) = (K.exec (K.after k executed) call).1
  := by
  rw [after, List.foldl_append]
  rfl

/-- Asking for flags leaves the kernel. -/
theorem after_getfd (k : κ) (fds : List (BitVec 32)) :
  K.after k (fds.map fun fd => .fcntl fd fGetfd none) = k
  := by
  induction fds with
  | nil => rfl
  | cons fd fds ih =>
      rw [after, List.map_cons, List.foldl_cons, K.getfd]
      apply ih

theorem answers_append {k : κ} {executed : List Syscall} {call : Syscall} {o : Outcome} :
  K.Answers k (executed ++ [call]) o ↔ o = (K.exec (K.after k executed) call).2
  := by
  constructor
  · rintro ⟨first, call', happend, ho⟩
    obtain ⟨rfl, hcall⟩ := List.append_inj' happend rfl
    obtain rfl := List.singleton_inj.mp hcall
    apply ho
  · intro ho
    exact ⟨executed, call, rfl, ho⟩

end Kernel

/-! ### Plain calls -/

/-- The plain calls, with the arguments of the caller that reach the server. -/
inductive PlainCall where
  | socket
  | bind (fd : BitVec 32)
  | listen (fd : BitVec 32)
  | connect (fd : BitVec 32) (port : BitVec 16)
  | close (fd : BitVec 32)
  | read (fd : BitVec 32) (n : BitVec 64)
  | write (fd : BitVec 32) (data : ByteMem) (n : BitVec 64)
  | epollCreate1 (flags : BitVec 32)
  | epollCtl (args : EpollCtlArgs)

namespace PlainCall

/-- The request of a call. -/
def req : PlainCall → RdmaReq
  | socket => .socket
  | bind _ => .bind
  | listen _ => .listen
  | connect _ _ => .connect
  | close _ => .close
  | read _ _ => .read
  | write _ _ _ => .write
  | epollCreate1 _ => .epollCreate1
  | epollCtl _ => .epollCtl

/-- What the hook writes into the data area of the request. -/
def encode : PlainCall → ByteMem → ByteMem
  | epollCreate1 flags, m => serializeEpollCreateDt m reqData flags
  | epollCtl a, m => serializeEpollCtlDt m reqData a.epfd a.op a.fd (some ⟨a.events, a.data⟩)
  | _, m => m

/-- The arguments of `set_req_sock`. -/
def args : PlainCall → ReqArgs
  | socket => ⟨0, RdmaReq.socket.code, 0, 0, zeros, false⟩
  | bind fd => ⟨fd, RdmaReq.bind.code, 0, 8080, zeros, false⟩
  | listen fd => ⟨fd, RdmaReq.listen.code, 0, 0, zeros, false⟩
  | connect fd port => ⟨fd, RdmaReq.connect.code, 0, port, zeros, false⟩
  | close fd => ⟨fd, RdmaReq.close.code, 0, 0, zeros, false⟩
  | read fd n => ⟨fd, RdmaReq.read.code, n, 0, zeros, true⟩
  | write fd data n => ⟨fd, RdmaReq.write.code, n, 0, data, false⟩
  | epollCreate1 _ => ⟨0, RdmaReq.epollCreate1.code, 0, 0, zeros, false⟩
  | epollCtl a => ⟨a.epfd, RdmaReq.epollCtl.code, 0, 0, zeros, false⟩

/-- The data of the call fit one message. -/
def Fits : PlainCall → Prop
  | read _ n => n.toNat < 599988
  | write _ _ n => n.toNat < 599988
  | _ => True

/-- The call itself. The kind of the socket, the addresses but for the port of `connect`, the
backlog and the flags of `send` are constants of the hooks and the server, not the caller's. -/
def syscall : PlainCall → Syscall
  | socket => .socket 2 1 0
  | bind fd => .bind fd ⟨2, htons 8080, inaddrAny⟩ 16
  | listen fd => .listen fd 1024
  | connect fd port => .connect fd ⟨2, htons port, defaultRdmaServerIp⟩ 16
  | close fd => .close fd
  | read fd n => .read fd n
  | write fd data n => .send fd data n 0
  | epollCreate1 flags => .epollCreate1 flags
  | epollCtl a => .epollCtl a

/-- The descriptors that the server probes before the call. -/
def probed : PlainCall → List (BitVec 32)
  | epollCtl a => [a.epfd, a.fd]
  | _ => []

/-- What the caller sees of the call itself. -/
def seen (call : PlainCall) (o : Outcome) : Seen where
  ret := o.int
  errno := if o.ret.toInt < 0 then some o.errno else none
  data := if call.req = .read then (List.range o.ret.toInt.toNat).map o.buf else []

end PlainCall

namespace PlainCall

theorem args_reqRdma (call : PlainCall) :
  call.args.reqRdma = call.req.code
  := by
  cases call <;> rfl

/-- The server received the call as it was made. -/
structure Received (call : PlainCall) (c : ClientRInfo) : Prop where
  request : c.request = some call.req
  sockfd : c.sockfd = call.args.sockfd
  bufSz : bufSz c.mem = call.args.bufSz
  port : port c.mem = call.args.port
  create : ∀ flags, call = epollCreate1 flags → deserializeEpollCreateDt c.mem reqData = flags
  ctl : ∀ a, call = epollCtl a → deserializeEpollCtlDt c.mem reqData = a
  data : ∀ fd data n, call = write fd data n → ∀ j < n.toNat, c.mem (reqData + j) = data j

theorem deserializeEpollCtlDt_congr {m m' : ByteMem} {p : ℕ} (h : m.AgreeOn m' p 24) :
  deserializeEpollCtlDt m p = deserializeEpollCtlDt m' p
  := by
  have hbits : ∀ {w : ℕ} (k : ℕ), k + w / 8 ≤ 24 →
      m.loadBits w (p + k) = m'.loadBits w (p + k) := by
    intro w k hk
    apply (h.mono (Nat.le_add_right p k) (by omega)).loadBits
  have hepfd : m.loadBits 32 p = m'.loadBits 32 p := hbits 0 (by decide)
  simp only [deserializeEpollCtlDt]
  rw [hepfd, hbits 4 (by decide), hbits 8 (by decide), hbits 12 (by decide), hbits 16 (by decide)]

/-- The data area of a request that is not a `write`. -/
theorem prepared_data {h h' : RInfo} {a : ReqArgs} (hprep : prepareRequest h a = some h')
    (ha : a.reqRdma ≠ RdmaReq.write.code) :
  h'.mem.AgreeOn h.mem reqData bufferSize
  := by
  simp only [prepareRequest] at hprep
  rw [if_neg ha, Option.map_some] at hprep
  obtain rfl := Option.some.inj hprep
  apply fillRequest_agreeOn _ _ (le_refl _)

/-- The data of a `write` that fit one message. -/
theorem prepared_message {h h' : RInfo} {a : ReqArgs} (hprep : prepareRequest h a = some h')
    (ha : a.reqRdma = RdmaReq.write.code) (hn : a.bufSz.toNat < 599988) (j : ℕ)
    (hj : j < a.bufSz.toNat) :
  h'.mem (reqData + j) = a.message j
  := by
  simp only [prepareRequest] at hprep
  rw [if_pos ha, Option.map_eq_some_iff] at hprep
  obtain ⟨m, hcopy, rfl⟩ := hprep
  have hsize : (copySize a.bufSz).toNat = a.bufSz.toNat := by
    rw [toNat_copySize, if_pos (by omega)]
  apply (copyMessage_data hcopy j).trans
  rw [hsize, if_pos hj]

/-- The request of a plain call arrives as it was made. -/
theorem received {call : PlainCall} {h h' : RInfo} {m : ByteMem} (hfits : call.Fits)
    (hencode : h.mem = call.encode m) (hprep : prepareRequest h call.args = some h')
    (c : ClientRInfo) :
  call.Received (c.receive h'.posted)
  := by
  have hcarries := carries_of_prepareRequest hprep
  have hagree := receive_agreeOn c h'.posted
  have hcode : rdmaReq (c.receive h'.posted).mem = call.req.code := by
    rw [← call.args_reqRdma, ← hcarries.code]
    apply (hagree.mono (le_refl 0) (by decide)).loadBits
  have hplain : call.req ≠ .write → (c.receive h'.posted).mem.AgreeOn h.mem reqData 24 := by
    intro hne
    have hdata : h'.mem.AgreeOn h.mem reqData bufferSize := by
      apply prepared_data hprep
      rw [call.args_reqRdma, Ne, RdmaReq.code_inj]
      apply hne
    have hposted : (c.receive h'.posted).mem.AgreeOn h'.mem reqData 24 :=
      hagree.mono (by decide) (by decide)
    apply hposted.trans
    apply hdata.mono (by decide) (by decide)
  constructor
  · rw [ClientRInfo.request, hcode, RdmaReq.ofCode_code]
  · apply hcarries.sockfd
  · rw [← hcarries.bufSz]
    apply (hagree.mono (by decide) (by decide)).loadBits
  · rw [← hcarries.port]
    apply (hagree.mono (by decide) (by decide)).loadBits
  · rintro flags rfl
    have hdata : (c.receive h'.posted).mem.AgreeOn h.mem reqData 4 :=
      (hplain (by simp [PlainCall.req])).mono (le_refl _) (by decide)
    rw [deserializeEpollCreateDt, hdata.loadBits, hencode]
    apply ByteMem.loadBits_storeBits _ _ _ (by decide)
  · rintro a rfl
    rw [deserializeEpollCtlDt_congr (hplain (by simp [PlainCall.req])), hencode]
    apply epollCtl_recovered .host .snic m reqData a.epfd a.op a.fd ⟨a.events, a.data⟩
  · rintro fd data n rfl j hj
    have hn : n.toNat < 599988 := hfits
    rw [hagree _ (Nat.zero_le _) (by unfold reqData reqSize; omega)]
    apply prepared_message hprep rfl hfits j hj

/-! ### What the server executes -/

/-- A size that fits one message is passed on as it is. -/
theorem narrowed {n : BitVec 64} (hn : n.toNat < 599988) :
  (n.setWidth 32).signExtend 64 = n
  := by
  apply BitVec.eq_of_toNat_eq
  rw [toNat_narrowed, if_pos (by omega)]
  omega

/-- The server probes the descriptors and then executes the call. -/
theorem Received.calls_eq {call : PlainCall} {c : ClientRInfo} (h : call.Received c)
    (hfits : call.Fits) (hwrite : call.req ≠ .write) (env : ServerEnv) :
  calls (rdmaReqEvent env (.start c)).trace =
    (call.probed.map fun fd => .fcntl fd fGetfd none) ++ [call.syscall]
  := by
  have hserve : rdmaReqEvent env (.start c) = serve env (.start c) (some call.req) := by
    rw [← h.request]
    rfl
  have hreplied : ∀ hd : Handled,
      calls (reply env ((Exec.start c).handled hd)).trace = hd.syscalls := by
    intro hd
    rw [calls_reply, calls_handled]
  have hfd := h.sockfd
  have hsize := h.bufSz
  have hport := h.port
  rw [hserve]
  cases call with
  | socket => apply hreplied
  | bind fd =>
      apply (hreplied _).trans
      simp only [sockBind, sockAddress, Exec.start, hfd, hport]
      rfl
  | connect fd p =>
      apply (hreplied _).trans
      simp only [sockConnect, sockAddress, Exec.start, hfd, hport]
      rfl
  | listen fd =>
      apply (hreplied _).trans
      simp only [sockListen, Exec.start, hfd]
      rfl
  | close fd =>
      apply (hreplied _).trans
      simp only [sockClose, Exec.start, hfd]
      rfl
  | read fd n =>
      apply (hreplied _).trans
      simp only [sockReadMessage, Exec.start, hfd, hsize, args, narrowed hfits]
      rfl
  | write fd data n => exact absurd rfl hwrite
  | epollCreate1 flags =>
      have hcreate :
          (sockEpollCreate1 env.toHandlerEnv c.mem).syscalls = [.epollCreate1 flags] := by
        rw [sockEpollCreate1, h.create flags rfl]
      have hentered : ∀ (x : Exec) (epfd : BitVec 32),
          calls (x.act (.socketInsertByValue epfd)).trace = calls x.trace := by
        intro x epfd
        rw [Exec.act, calls, List.filterMap_append]
        apply List.append_nil
      simp only [req, serve]
      split
      · apply (hreplied _).trans hcreate
      · rw [hentered, calls_reply]
        apply (calls_handled c _).trans hcreate
  | epollCtl a =>
      apply (hreplied _).trans
      simp only [sockEpollCtl, Exec.start, h.ctl a rfl]
      rfl

/-- What the server executes is the call, up to what a buffer holds behind its length. -/
theorem Received.calls {call : PlainCall} {c : ClientRInfo} (h : call.Received c)
    (hfits : call.Fits) (env : ServerEnv) :
  ∃ last, calls (rdmaReqEvent env (.start c)).trace =
      (call.probed.map fun fd => .fcntl fd fGetfd none) ++ [last] ∧
    ∀ {κ : Type} (K : Kernel κ) k, K.exec k last = K.exec k call.syscall
  := by
  by_cases hwrite : call.req = .write
  · cases call with
    | write fd data n =>
        have hcalls := calls_write env h.request
        rw [h.sockfd, h.bufSz] at hcalls
        simp only [args, narrowed hfits] at hcalls
        refine ⟨_, hcalls, ?_⟩
        intro κ K k
        apply K.send
        apply h.data fd data n rfl
    | _ => cases hwrite
  · exact ⟨call.syscall, h.calls_eq hfits hwrite env, fun _ _ => rfl⟩

end PlainCall

/-! ### What the caller sees -/

/-- The value of an outcome of the kernel fits an `int`. -/
structure Outcome.Fits (o : Outcome) : Prop where
  ge : -1 ≤ o.ret.toInt
  lt : o.ret.toInt < 2 ^ 31

theorem Outcome.Fits.int {o : Outcome} (h : o.Fits) :
  o.int.toInt = o.ret.toInt
  := toInt_setWidth_of_fits h.ge h.lt

theorem Outcome.Fits.signExtend {o : Outcome} (h : o.Fits) :
  o.int.signExtend 64 = o.ret
  := by
  apply BitVec.eq_of_toInt_eq
  rw [toInt_signExtend, h.int]

/-- What is seen of a reply with the value, the error and the data of an outcome. -/
theorem seen_finishRequest {h : RInfo} {posted : Request} {call : PlainCall} {o : Outcome}
    (ho : o.Fits) (hvalue : value h.mem = o.ret)
    (herrno : o.ret.toInt < 0 → errno h.mem = o.errno)
    (hdata : call.req = .read → ∀ j < o.ret.toInt.toNat, h.mem (rtnData + j) = o.buf j) :
  (finishRequest h posted call.args).seen = call.seen o
  := by
  have hread : call.args.reqRdma = RdmaReq.read.code ↔ call.req = .read := by
    rw [call.args_reqRdma, RdmaReq.code_inj]
  have hbuf : ¬ (call.args.reqRdma = RdmaReq.read.code ∧ ¬ call.args.hasBuf) := by
    rw [hread]
    cases call <;> simp [PlainCall.req, PlainCall.args]
  rw [finishRequest, if_neg hbuf, hvalue]
  by_cases hneg : o.ret.toInt < 0
  · have hone : o.ret = -1 := by
      apply BitVec.eq_of_toInt_eq
      have hge := ho.ge
      rw [show (-1 : BitVec 64).toInt = -1 from rfl]
      omega
    rw [if_pos hneg]
    simp only [SetReqResult.seen, PlainCall.seen, Outcome.int, herrno hneg, hone]
    congr 1
    · split <;> rfl
    · split <;> rfl
  · rw [if_neg hneg]
    simp only [SetReqResult.seen, PlainCall.seen, if_neg hneg, hread]
    rw [toNat_copied (not_lt.mp hneg) ho.lt]
    congr 1
    split
    case isTrue hreq =>
      apply List.map_congr_left
      intro j hj
      apply hdata hreq j (List.mem_range.mp hj)
    case isFalse => rfl

namespace PlainCall

/-- The reply to a plain call has the value of the outcome, and its error if it failed. -/
theorem reply_outcome (call : PlainCall) {o : Outcome} (ho : o.Fits) (m : ByteMem) :
  replyValue o m (some call.req) = o.ret ∧
    (o.ret.toInt < 0 → replyErrno o m (some call.req) = o.errno)
  := by
  have hfails : ∀ req, o.ret.toInt < 0 → o.fails req = true ∨ req = .newRdmaConn ∨
      req = .delRdmaConn := by
    intro req hneg
    have hone : o.int = -1 := by
      apply BitVec.eq_of_toInt_eq
      have hge := ho.ge
      rw [ho.int, show (-1 : BitVec 32).toInt = -1 from rfl]
      omega
    cases req <;> simp [Outcome.fails, hneg, hone, hneg.le]
  constructor
  · cases call with
    | read | write => rfl
    | _ => apply ho.signExtend
  · intro hneg
    have hfail := hfails call.req hneg
    cases call with
    | _ =>
        simp only [req, reduceCtorEq, or_false] at hfail
        simp only [req, replyErrno, hfail, if_true]

/-- The caller of a plain call that is received sees what the outcome says. -/
theorem Received.seen {call : PlainCall} {c : ClientRInfo} (h : call.Received c)
    {env : PostingEnv} (ho : env.val.outcome.Fits)
    (hshort : call.req = .read → env.val.outcome.ret.toInt < 599988) (hi : RInfo)
    (posted : Request) :
  (finishRequest (hi.receive (((replies env.val c).headD zeros).load rtnErrno rtnSize)) posted
      call.args).seen = call.seen env.val.outcome
  := by
  have hone : messageCount env c = 1 := by
    rw [messageCount_eq_one_iff]
    rintro ⟨hread, hlong⟩
    have hcall := Option.some.inj (h.request.symm.trans hread)
    exact absurd (hshort hcall) hlong.not_gt
  obtain ⟨-, hreplies⟩ := finish_prepare hone
  obtain ⟨y, hprep, hall, -⟩ := replies_eq_prepared env.val c
  have hy : (c.prepare env).mem = y.cInfo.mem := by
    apply hall
    rw [hreplies]
    apply List.mem_singleton_self
  rw [hreplies, List.headD_cons, hy]
  have hagree : (hi.receive (y.cInfo.mem.load rtnErrno rtnSize)).mem.AgreeOn y.cInfo.mem rtnErrno
      rtnSize := ByteMem.agreeOn_store_load _ _ _ _
  obtain ⟨hvalue, herrno⟩ := call.reply_outcome ho c.mem
  have hfills := hprep.fills
  rw [h.request] at hfills
  apply seen_finishRequest ho
  · rw [← hvalue, ← hfills.value]
    apply (hagree.mono (by decide) (by decide)).loadBits
  · intro hneg
    rw [← herrno hneg, ← hfills.errno]
    apply (hagree.mono (by decide) (by decide)).loadBits
  · intro hread j hj
    rw [← hprep.readData (h.request.trans (congrArg some hread)) j hj]
    have hlong := hshort hread
    apply hagree
    · unfold rtnErrno rtnData
      omega
    · unfold rtnErrno rtnData rtnSize
      omega

/-- The kernel goes on as with the call itself. -/
theorem Received.after {κ : Type} {call : PlainCall} {c : ClientRInfo} (h : call.Received c)
    (hfits : call.Fits) (K : Kernel κ) (env : ServerEnv) (k : κ) :
  K.after k (SocketToRdma.calls (rdmaReqEvent env (.start c)).trace) = (K.exec k call.syscall).1
  := by
  obtain ⟨last, hcalls, hlast⟩ := h.calls hfits env
  rw [hcalls, K.after_append, K.after_getfd, hlast]

/-- The outcome is that of the call itself. -/
theorem Received.answers_iff {κ : Type} {K : Kernel κ} {call : PlainCall} {c : ClientRInfo}
    (h : call.Received c) (hfits : call.Fits) {env : ServerEnv} {k : κ} {o : Outcome} :
  K.Answers k (SocketToRdma.calls (rdmaReqEvent env (.start c)).trace) o ↔
    o = (K.exec k call.syscall).2
  := by
  obtain ⟨last, hcalls, hlast⟩ := h.calls hfits env
  rw [hcalls, K.answers_append, K.after_getfd, hlast]

end PlainCall

theorem Kernel.fits {κ : Type} (K : Kernel κ) (k : κ) (call : Syscall) :
  (K.exec k call).2.Fits
  := ⟨(K.ret k call).1, (K.ret k call).2⟩

/-- A plain `read` asks for less than one message takes. -/
theorem PlainCall.read_short {κ : Type} (K : Kernel κ) (k : κ) {call : PlainCall}
    (hfits : call.Fits) (hread : call.req = .read) :
  (K.exec k call.syscall).2.ret.toInt < 599988
  := by
  cases call with
  | read fd n =>
      have hn : n.toNat < 599988 := hfits
      have hle := K.read k fd n
      simp only [syscall]
      omega
  | _ => cases hread

/-! ### A session on a kernel, and the kernel alone -/

/-- The call that is under way on a kernel alone. -/
inductive DirectPhase where
  | idle
  | called (call : PlainCall)
  | answered (seen : Seen)

/-- A kernel on which calls are executed directly, and the call under way. -/
structure Direct (κ : Type) where
  kernel : κ
  phase : DirectPhase

/-- A call starts; it is executed; it returns; the kernel changes by itself. -/
inductive DirectAct (κ : Type) where
  | call (call : PlainCall)
  | exec
  | ret (seen : Seen)
  | world (k : κ)

/-- The state after an action. -/
def Direct.step {κ : Type} (K : Kernel κ) (d : Direct κ) : DirectAct κ → Option (Direct κ)
  | .call call =>
      match d.phase with
      | .idle => some { d with phase := .called call }
      | _ => none
  | .exec =>
      match d.phase with
      | .called call =>
          let r := K.exec d.kernel call.syscall
          some ⟨r.1, .answered (call.seen r.2)⟩
      | _ => none
  | .ret seen =>
      match d.phase with
      | .answered seen' => if seen = seen' then some { d with phase := .idle } else none
      | _ => none
  | .world k => some { d with kernel := k }

/-- A session, and the kernel of the server. -/
structure System (κ : Type) where
  session : Session
  kernel : κ

/-- A hook encodes the arguments of a plain call and starts `set_req_sock`; an action of the
session; the kernel changes by itself. -/
inductive SystemAct (κ : Type) where
  | call (call : PlainCall)
  | act (a : SessionAct)
  | world (k : κ)

/-- The system calls that an action of a session executes. -/
def Session.executes (s : Session) : SessionAct → List Syscall
  | .serve env =>
      match s.server.pc with
      | .serve imm =>
          calls (rdmaReqEvent env (.start { s.server.cInfo with sockfd := htonl imm })).trace
      | _ => []
  | _ => []

namespace System

variable {κ : Type}

/-- The state after an action. -/
def step (K : Kernel κ) (s : System κ) : SystemAct κ → Option (System κ)
  | .call call =>
      (run Session.step s.session
        [.edit (call.encode s.session.host.rInfo.mem), .call call.args]).map
          fun session => { s with session }
  | .act a =>
      (s.session.step a).map fun session => ⟨session, K.after s.kernel (s.session.executes a)⟩
  | .world k => some { s with kernel := k }

/-- Every call is a plain call that fits one message; the outcome of a request that is served is
that of the kernel; a request arrives when the previous one is not about to be cleared, and a reply
as it was posted. -/
def Admits (K : Kernel κ) (s : System κ) : SystemAct κ → Prop
  | .call call => call.Fits
  | .act (.call _) => False
  | .act (.serve env) =>
      K.Answers s.kernel (s.session.executes (.serve env)) env.val.outcome
  | .act a => s.session.Timely a
  | .world _ => True

/-- What an action shows of the calls. -/
def shows (s : System κ) : SystemAct κ → List (DirectAct κ)
  | .call call => [.call call]
  | .act a => (s.session.shows a).filterMap fun
      | .serve _ => some .exec
      | .ret seen => some (.ret seen)
      | _ => none
  | .world k => [.world k]

/-- The call under way is the same. -/
def SamePhase (r : Calls) : DirectPhase → Prop
  | .idle => r.phase = .idle
  | .called call => r.phase = .called call.args ∧ call.Fits ∧ ∃ m, r.rInfo.mem = call.encode m
  | .answered seen => r.phase = .answered seen

/-- The session has the same kernel and is with the same call. -/
structure Represents (s : System κ) (r : Calls) (d : Direct κ) : Prop where
  related : Related s.session r
  kernel : d.kernel = s.kernel
  phase : SamePhase r d.phase

end System

/-- The request that is served is that of the call under way. -/
theorem Related.serve_inv {s s' : Session} {r : Calls} {env : PostingEnv} (hrel : Related s r)
    (h : s.step (.serve env) = some s') :
  ∃ imm a h', s.server.pc = .serve imm ∧ r.phase = .called a ∧ Ready r.rInfo a h' ∧
    ({ s.server.cInfo with sockfd := htonl imm } : ClientRInfo) = r.cInfo.receive h'.posted
  := by
  cases hrel with
  | serving _ ready received => exact ⟨_, _, _, rfl, rfl, ready, received⟩
  | idle _ resting | posting _ _ resting | toServer _ _ resting | atServer _ _ resting
  | toHost _ resting | atHost _ resting =>
      simp only [Session.step, Session.serveStep] at h
      split at h
      · cases resting
      · cases h
  | _ => cases h

namespace Calls

variable {r r' : Calls}

theorem edit_inv {m : ByteMem} (h : run Calls.step r [.edit m] = some r') :
  r.phase = .idle ∧ r' = { r with rInfo := { r.rInfo with mem := m } }
  := by
  obtain ⟨r₁, hstep, hrun⟩ := run_cons_eq_some.mp h
  obtain rfl := Option.some.inj hrun
  simp only [Calls.step] at hstep
  split at hstep
  · exact ⟨‹_›, (Option.some.inj hstep).symm⟩
  · cases hstep

theorem call_inv {a : ReqArgs} (h : run Calls.step r [.call a] = some r') :
  r.phase = .idle ∧ r' = { r with phase := .called a }
  := by
  obtain ⟨r₁, hstep, hrun⟩ := run_cons_eq_some.mp h
  obtain rfl := Option.some.inj hrun
  simp only [Calls.step] at hstep
  split at hstep
  · exact ⟨‹_›, (Option.some.inj hstep).symm⟩
  · cases hstep

theorem ret_inv {seen : Seen} (h : run Calls.step r [.ret seen] = some r') :
  r.phase = .answered seen ∧ r' = { r with phase := .idle }
  := by
  obtain ⟨r₁, hstep, hrun⟩ := run_cons_eq_some.mp h
  obtain rfl := Option.some.inj hrun
  simp only [Calls.step] at hstep
  split at hstep
  · split at hstep
    · rename_i hphase hseen
      rw [hseen]
      exact ⟨hphase, (Option.some.inj hstep).symm⟩
    · cases hstep
  · cases hstep

/-- The call that happens is answered with what `set_req_sock` makes of the reply. -/
theorem serve_inv {env : PostingEnv} {a : ReqArgs} {h' : RInfo} (hphase : r.phase = .called a)
    (hready : Ready r.rInfo a h') (h : run Calls.step r [.serve env] = some r') :
  r'.phase = .answered (finishRequest
    (h'.receive (((replies env.val (r.cInfo.receive h'.posted)).headD zeros).load rtnErrno rtnSize))
    h'.posted a).seen
  := by
  obtain ⟨r₁, hstep, hrun⟩ := run_cons_eq_some.mp h
  obtain rfl := Option.some.inj hrun
  simp only [Calls.step, hphase, hready.prepared, Option.bind_some, setReqSock_answer hready,
    Option.map_some] at hstep
  rw [← Option.some.inj hstep]

end Calls

namespace System

variable {κ : Type} {K : Kernel κ} {s s' : System κ} {r : Calls} {d : Direct κ}

theorem SamePhase.idle {p : DirectPhase} (h : SamePhase r p) (hidle : r.phase = .idle) :
  p = .idle
  := by
  cases p with
  | idle => rfl
  | called call => cases hidle.symm.trans h.1
  | answered seen => cases hidle.symm.trans h

/-- A plain call starts. -/
theorem Represents.call {call : PlainCall} (hrep : Represents s r d) (hfits : call.Fits)
    (h : s.step K (.call call) = some s') :
  ∃ r' d', run (Direct.step K) d (s.shows (.call call)) = some d' ∧ Represents s' r' d'
  := by
  simp only [step, Option.map_eq_some_iff] at h
  obtain ⟨session, hrun, rfl⟩ := h
  obtain ⟨s₁, hs₁, hrun⟩ := run_cons_eq_some.mp hrun
  obtain ⟨s₂, hs₂, hrun⟩ := run_cons_eq_some.mp hrun
  obtain rfl := Option.some.inj hrun
  obtain ⟨r₁, hr₁, hrel₁⟩ := hrep.related.edit hs₁
  obtain ⟨r₂, hr₂, hrel₂⟩ := hrel₁.call hs₂
  obtain ⟨hidle, rfl⟩ := Calls.edit_inv hr₁
  obtain ⟨-, rfl⟩ := Calls.call_inv hr₂
  have hphase := hrep.phase.idle hidle
  refine ⟨_, { d with phase := .called call }, ?_, hrel₂, hrep.kernel, rfl, hfits, _, rfl⟩
  simp only [shows, run, Direct.step, hphase, Option.bind_some]

/-- A plain call is executed. -/
theorem Represents.serve {env : PostingEnv} (hrep : Represents s r d)
    (hanswers : K.Answers s.kernel (s.session.executes (.serve env)) env.val.outcome)
    (h : s.step K (.act (.serve env)) = some s') :
  ∃ r' d', run (Direct.step K) d (s.shows (.act (.serve env))) = some d' ∧ Represents s' r' d'
  := by
  simp only [step, Option.map_eq_some_iff] at h
  obtain ⟨session, hs, rfl⟩ := h
  obtain ⟨imm, a, h', hpc, hcalled, hready, hreceive⟩ := hrep.related.serve_inv hs
  have hphase := hrep.phase
  cases hd : d.phase with
  | called call =>
      rw [hd] at hphase
      obtain ⟨hcall, hfits, m, hencode⟩ := hphase
      obtain rfl := CallPhase.called.inj (hcalled.symm.trans hcall)
      have hreceived := PlainCall.received hfits hencode hready.prepared r.cInfo
      have hexecutes : s.session.executes (.serve env) =
          calls (rdmaReqEvent env (.start (r.cInfo.receive h'.posted))).trace := by
        rw [Session.executes, hpc]
        simp only [hreceive]
      rw [hexecutes] at hanswers ⊢
      have houtcome := (hreceived.answers_iff hfits).mp hanswers
      have hshort : call.req = .read → env.val.outcome.ret.toInt < 599988 := by
        intro hread
        rw [houtcome]
        apply PlainCall.read_short K _ hfits hread
      have htimely : s.session.Timely (.serve env) := by
        intro imm' hpc' ⟨hread, hlong⟩
        obtain rfl := WorkerPc.serve.inj (hpc.symm.trans hpc')
        have hrequest : s.session.server.cInfo.request = some call.req := by
          rw [← hreceived.request, ← hreceive]
          rfl
        have hcall' := Option.some.inj (hrequest.symm.trans hread)
        exact absurd (hshort hcall') hlong.not_gt
      obtain ⟨r', hr', hrel'⟩ := hrep.related.serve htimely hs
      have hanswered := Calls.serve_inv hcalled hready hr'
      rw [hreceived.seen (houtcome ▸ K.fits _ _) hshort] at hanswered
      refine ⟨r', ⟨(K.exec d.kernel call.syscall).1,
        .answered (call.seen (K.exec d.kernel call.syscall).2)⟩, ?_, hrel', ?_, ?_⟩
      · simp only [shows, Session.shows, List.filterMap_cons, List.filterMap_nil, run, Direct.step,
          hd, Option.bind_some]
      · rw [hrep.kernel, hreceived.after hfits]
      · rw [hrep.kernel, ← houtcome]
        apply hanswered
  | idle =>
      rw [hd] at hphase
      cases hcalled.symm.trans hphase
  | answered seen =>
      rw [hd] at hphase
      cases hcalled.symm.trans hphase

/-- An action of the session that neither starts a call nor serves one. -/
theorem Represents.act {a : SessionAct} (hrep : Represents s r d)
    (hcall : ∀ args, a ≠ .call args) (hserve : ∀ env, a ≠ .serve env)
    (htimely : s.session.Timely a) (h : s.step K (.act a) = some s') :
  ∃ r' d', run (Direct.step K) d (s.shows (.act a)) = some d' ∧ Represents s' r' d'
  := by
  simp only [step, Option.map_eq_some_iff] at h
  obtain ⟨session, hs, rfl⟩ := h
  obtain ⟨r', hr', hrel'⟩ := session_simulates _ _ _ _ hrep.related htimely hs
  have hkernel : K.after s.kernel (s.session.executes a) = s.kernel := by
    cases a with
    | serve env => exact absurd rfl (hserve env)
    | _ => rfl
  have hlabel : s.session.shows a = [] ∨ (∃ m, s.session.shows a = [.edit m]) ∨
      ∃ seen, s.session.shows a = [.ret seen] := by
    cases a with
    | call args => exact absurd rfl (hcall args)
    | serve env => exact absurd rfl (hserve env)
    | edit m => exact Or.inr (Or.inl ⟨m, rfl⟩)
    | host =>
        simp only [Session.shows]
        split
        · exact Or.inr (Or.inr ⟨_, rfl⟩)
        · exact Or.inl rfl
    | _ => exact Or.inl rfl
  rw [hkernel]
  simp only [shows]
  obtain hnone | ⟨m, hedit⟩ | ⟨seen, hret⟩ := hlabel
  · rw [hnone] at hr' ⊢
    obtain rfl := Option.some.inj hr'
    exact ⟨r, d, rfl, hrel', hrep.kernel, hrep.phase⟩
  · rw [hedit] at hr' ⊢
    obtain ⟨hidle, rfl⟩ := Calls.edit_inv hr'
    refine ⟨_, d, rfl, hrel', hrep.kernel, ?_⟩
    rw [hrep.phase.idle hidle]
    apply hidle
  · rw [hret] at hr' ⊢
    obtain ⟨hanswered, rfl⟩ := Calls.ret_inv hr'
    have hphase := hrep.phase
    cases hd : d.phase with
    | answered seen' =>
        rw [hd] at hphase
        obtain rfl := CallPhase.answered.inj (hanswered.symm.trans hphase)
        refine ⟨_, { d with phase := .idle }, ?_, hrel', hrep.kernel, rfl⟩
        simp only [List.filterMap_cons, List.filterMap_nil, run, Direct.step, hd, if_true,
          Option.bind_some]
    | idle =>
        rw [hd] at hphase
        cases hanswered.symm.trans hphase
    | called call =>
        rw [hd] at hphase
        cases hanswered.symm.trans hphase.1

/-- The kernel alone simulates a session on it. -/
theorem system_simulates (K : Kernel κ) :
  Simulates (step K) (Direct.step K) shows (Admits K) fun s d => ∃ r, Represents s r d
  := by
  rintro s a s' d ⟨r, hrep⟩ hadmits h
  suffices ∃ r' d', run (Direct.step K) d (s.shows a) = some d' ∧ Represents s' r' d' by
    obtain ⟨r', d', hrun, hrep'⟩ := this
    exact ⟨d', hrun, r', hrep'⟩
  cases a with
  | call call => apply hrep.call hadmits h
  | world k =>
      obtain rfl := Option.some.inj h
      exact ⟨r, { d with kernel := k }, rfl, hrep.related, rfl, hrep.phase⟩
  | act a =>
      cases a with
      | call args => cases hadmits
      | serve env => apply hrep.serve hadmits h
      | _ =>
          refine hrep.act ?_ ?_ hadmits h
          · intro args heq
            cases heq
          · intro env heq
            cases heq

/-- A connection that is set up, on a kernel. -/
def connected (h : RInfo) (c : ClientRInfo) (sends : ℕ) (k : κ) : System κ :=
  ⟨.connected h c sends, k⟩

end System

/-! ### Runs of a session on a kernel -/

/-- What a run with plain calls shows is a run of the kernel alone: the results are those of the
calls themselves, and the kernel is in the same state. -/
theorem calls_transparent {κ : Type} (K : Kernel κ) (h : RInfo) (c : ClientRInfo) (sends : ℕ)
    (k : κ) (acts : List (SystemAct κ))
    (hacts : Along (System.step K) (System.Admits K) (.connected h c sends k) acts) {s : System κ}
    (hrun : run (System.step K) (.connected h c sends k) acts = some s) :
  ∃ d, run (Direct.step K) ⟨k, .idle⟩
      (observed (System.step K) System.shows (.connected h c sends k) acts) = some d ∧
    d.kernel = s.kernel ∧ (s.session.host.pc = .idle → d.phase = .idle)
  := by
  have hstart : System.Represents (.connected h c sends k) ⟨h, c, .idle⟩ ⟨k, .idle⟩ :=
    ⟨.idle (Net.connected sends) trivial, rfl, rfl⟩
  obtain ⟨d, hd, r, hrep⟩ := (System.system_simulates K).run ⟨_, hstart⟩ hacts hrun
  refine ⟨d, hd, hrep.kernel, ?_⟩
  intro hidle
  apply hrep.phase.idle
  have hrel := hrep.related
  obtain ⟨session, kernel⟩ := s
  cases hrel with
  | idle => rfl
  | _ => cases hidle

/-- A pipe: what is sent is appended, and what is read is taken off. Other calls succeed. -/
def pipeExec (k : List UInt8) : Syscall → List UInt8 × Outcome
  | .send _ data n _ =>
      if n.toNat < 2 ^ 31 then (k ++ (List.range n.toNat).map data, ⟨n, 0, zeros, 0⟩)
      else (k, ⟨-1, 12, zeros, 0⟩)
  | .read _ n =>
      let size := min (min n.toNat k.length) 4096
      (k.drop size, ⟨BitVec.ofNat 64 size, 0, fun j => k.getD j 0, 0⟩)
  | _ => (k, .ofRet 0 0)

theorem toInt_ofNat_of_le {n : ℕ} (hn : n ≤ 4096) :
  (BitVec.ofNat 64 n).toInt = n
  := by
  rw [BitVec.toInt_eq_toNat_cond, BitVec.toNat_ofNat, if_pos (by omega)]
  omega

/-- The kernel of a pipe. -/
def pipe : Kernel (List UInt8) where
  exec := pipeExec
  ret k call := by
    cases call with
    | send fd data n flags =>
        simp only [pipeExec]
        split
        · simp only [BitVec.toInt_eq_toNat_cond]
          omega
        · exact (by decide : -1 ≤ (-1 : BitVec 64).toInt ∧ (-1 : BitVec 64).toInt < 2 ^ 31)
    | read fd n =>
        simp only [pipeExec]
        rw [toInt_ofNat_of_le (Nat.min_le_right _ _)]
        omega
    | _ => exact (by decide : -1 ≤ (0 : BitVec 64).toInt ∧ (0 : BitVec 64).toInt < 2 ^ 31)
  read k fd n := by
    simp only [pipeExec]
    rw [toInt_ofNat_of_le (Nat.min_le_right _ _)]
    omega
  send k fd n flags data data' h := by
    have hdata : (List.range n.toNat).map data = (List.range n.toNat).map data' := by
      apply List.map_congr_left
      intro j hj
      apply h j (List.mem_range.mp hj)
    simp only [pipeExec, hdata]
  getfd k fd := rfl

/-- A reply arrives as it was posted when the server did nothing since. -/
theorem timely_of_head {s : Session}
    (h : s.server.qp.inFlight.head? = some (.writeWithImm s.server.cInfo.mem)) :
  s.Timely .arriveAtHost
  := by
  intro m hm
  obtain rfl := Msg.writeWithImm.inj (Option.some.inj (h.symm.trans hm))
  apply ByteMem.AgreeOn.refl

/-- Three bytes are written. -/
def writeThree : PlainCall :=
  .write 5 (fun j => [7, 8, 9].getD j 0) 3

/-- The thread of the server serves the `write` on an empty pipe. -/
def writeEnv : PostingEnv :=
  ⟨{ fiveEnv.val with outcome := (pipe.exec [] writeThree.syscall).2 }, fun _ => rfl⟩

/-- The actions of the call. -/
def writeActs : List (SystemAct (List UInt8)) :=
  .call writeThree :: ([.host, .arriveAtServer, .server, .server, .serve writeEnv, .server,
    .arriveAtHost, .host] : List SessionAct).map .act

/-- Three bytes are written into an empty pipe. -/
theorem calls_transparent_write :
  ∃ d, run (Direct.step pipe) ⟨[], .idle⟩
      (observed (System.step pipe) System.shows
        (.connected idleRInfo (.received .socket 0) 0 []) writeActs) = some d ∧ d.phase = .idle
  := by
  have hfits : writeThree.Fits := (by decide : 3 < 599988)
  have hanswers : ∀ {h' : RInfo}, prepareRequest idleRInfo writeThree.args = some h' →
      pipe.Answers [] (calls (rdmaReqEvent writeEnv.val
        (.start ((ClientRInfo.received .socket 0).receive h'.posted))).trace)
          writeEnv.val.outcome := by
    intro h' hprep
    apply ((PlainCall.received (m := zeros) hfits rfl hprep _).answers_iff hfits).mpr rfl
  have hacts : Along (System.step pipe) (System.Admits pipe)
      (.connected idleRInfo (.received .socket 0) 0 []) writeActs := by
    refine along_cons hfits rfl ?_
    refine along_cons trivial rfl ?_
    refine along_cons (fun _ _ => nofun) rfl ?_
    iterate 2 refine along_cons trivial rfl ?_
    refine along_cons (hanswers rfl) rfl ?_
    refine along_cons trivial rfl ?_
    refine along_cons (timely_of_head rfl) rfl ?_
    exact along_cons trivial rfl trivial
  obtain ⟨d, hd, -, hidle⟩ := calls_transparent pipe _ _ _ _ _ hacts rfl
  exact ⟨d, hd, hidle rfl⟩

end SocketToRdma
