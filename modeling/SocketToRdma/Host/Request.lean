import SocketToRdma.Host.Hooks
import SocketToRdma.Server.Socket

/-!
# Sending a request

`set_req_sock` fills the request of a thread's `client_r_info`, posts it, waits for the reply,
and turns the reply into the result of the hooked call. The request buffer is laid out as on
the server: the memory of a `client_r_info` is addressed from its `req` on.

The data of a `write` are copied into the request. How many bytes are copied is computed on 64
bits; a copy that does not fit the data area is undefined, and the call then has no result.
-/

namespace SocketToRdma

/-- The `client_r_info` of a thread of the host; `rtnMr` tells whether `rtn_mr` is set. -/
structure RInfo where
  mem : ByteMem
  sockfd : BitVec 32
  rtnMr : Bool

/-- A connection whose `rtn_mr` is set. -/
def idleRInfo : RInfo :=
  ⟨zeros, 0, true⟩

/-- What the network makes of a request: the results of `post_write_req` and of
`process_poll_cq_imm`, and the reply. -/
structure Exchange where
  postWriteReq : BitVec 32
  processPollCqImm : BitVec 32
  rtn : Block rtnSize

/-- The arguments of `set_req_sock` besides the connection; `hasBuf` tells whether there is a
buffer for the data that are read. -/
structure ReqArgs where
  sockfd : BitVec 32
  reqRdma : BitVec 32
  bufSz : BitVec 64
  port : BitVec 16
  message : ByteMem
  hasBuf : Bool

/-- A posted request: the memory of its `client_r_info`, and the immediate value. -/
structure Request where
  mem : ByteMem
  immData : BitVec 32

/-- The reply, at its place in a memory that is empty otherwise. -/
def Exchange.reply (x : Exchange) : ByteMem :=
  zeros.store rtnErrno x.rtn

/-- The `client_r_info` after `set_req_sock`, the request posted, the value returned, the
value of `errno` where it is set, and the number of bytes copied from the reply into the
buffer. -/
structure SetReqResult where
  rInfo : RInfo
  posted : Option Request
  ret : BitVec 32
  errno : Option (BitVec 32)
  copied : ℕ

/-- The request with its header filled in. -/
def fillRequest (m : ByteMem) (a : ReqArgs) : ByteMem :=
  ((m.storeBits reqRdmaReq a.reqRdma).storeBits reqBufSz a.bufSz).storeBits reqPort a.port

/-- `bytes_to_copy - header_sz`, the number of bytes copied for a `write`. -/
def copySize (bufSz : BitVec 64) : BitVec 64 :=
  let headerSz : BitVec 64 := 12
  let totalSize := headerSz + bufSz
  (if totalSize.toNat < bufferSize then totalSize else 600000 - headerSz) - headerSz

/-- The data of a `write` copied into the request. -/
def copyMessage (m : ByteMem) (a : ReqArgs) : Option ByteMem :=
  if (copySize a.bufSz).toNat ≤ bufferSize then
    some (m.store reqData (a.message.load 0 (copySize a.bufSz).toNat))
  else none

/-- The requests whose negative value is returned as it is. -/
def RdmaReq.returnsValue (code : BitVec 32) : Prop :=
  code = RdmaReq.read.code ∨ code = RdmaReq.write.code ∨ code = RdmaReq.epollCreate1.code ∨
    code = RdmaReq.epollCtl.code ∨ code = RdmaReq.epollWait.code ∨ code = RdmaReq.poll.code

instance (code : BitVec 32) : Decidable (RdmaReq.returnsValue code) := by
  unfold RdmaReq.returnsValue
  infer_instance

/-- The result of `set_req_sock` once the reply has arrived. -/
def finishRequest (h : RInfo) (posted : Request) (a : ReqArgs) : SetReqResult :=
  let v := value h.mem
  if a.reqRdma = RdmaReq.read.code ∧ ¬ a.hasBuf then ⟨h, posted, -1, none, 0⟩
  else if v.toInt < 0 then
    { rInfo := h
      posted := posted
      ret := if RdmaReq.returnsValue a.reqRdma then v.setWidth 32 else -1
      errno := errno h.mem
      copied := 0 }
  else
    { rInfo := h
      posted := posted
      ret := v.setWidth 32
      errno := none
      copied := if a.reqRdma = RdmaReq.read.code then ((v.setWidth 32).signExtend 64).toNat else 0 }

/-- The part of `set_req_sock` after the request was filled in. -/
def exchangeRequest (x : Exchange) (h : RInfo) (a : ReqArgs) : SetReqResult :=
  if ¬ h.rtnMr then ⟨h, none, -1, none, 0⟩
  else if x.postWriteReq.toInt < 0 then ⟨h, none, -1, none, 0⟩
  else
    let posted : Request := ⟨h.mem, htonl h.sockfd⟩
    let h := { h with mem := h.mem.store rtnErrno x.rtn }
    if x.processPollCqImm.toInt < 0 then ⟨h, posted, -1, none, 0⟩
    else finishRequest h posted a

/-- `set_req_sock` -/
def setReqSock (x : Exchange) (h : RInfo) (a : ReqArgs) : Option SetReqResult :=
  if a.reqRdma.toInt < RdmaReq.socket.code.toInt ∨
      RdmaReq.delRdmaConn.code.toInt < a.reqRdma.toInt then
    some ⟨h, none, -1, none, 0⟩
  else
    let m := fillRequest h.mem a
    let copied := if a.reqRdma = RdmaReq.write.code then copyMessage m a else some m
    copied.map fun m => exchangeRequest x { h with mem := m, sockfd := a.sockfd } a

/-- The arguments of a forwarded `send` or `write`. -/
def Forward.writeArgs (f : Forward) (buffer : ByteMem) : ReqArgs :=
  ⟨f.sockfd, f.req.code, f.bufSz, f.port, buffer, false⟩

/-- The forwarded part of `req_send` and `req_write`: the data of the request are cleared
once the call is done. -/
def sendForwarded (x : Exchange) (h : RInfo) (f : Forward) (buffer : ByteMem) :
    Option SetReqResult :=
  (setReqSock x h (f.writeArgs buffer)).map fun r =>
    { r with rInfo := { r.rInfo with mem := r.rInfo.mem.memset reqData 0 bufferSize } }

/-- All the data are copied, or as many bytes as fit a message with two headers. -/
theorem toNat_copySize (n : BitVec 64) :
  (copySize n).toNat = if (12 + n.toNat) % 2 ^ 64 < 600000 then n.toNat else 599976
  := by
  have htotal : ((12 : BitVec 64) + n).toNat = (12 + n.toNat) % 2 ^ 64 := by
    rw [BitVec.toNat_add]
    rfl
  simp only [copySize, htotal, bufferSize]
  split
  · rw [BitVec.add_comm, BitVec.add_sub_cancel]
  · decide

/-- When nothing fails before it, the request is posted as it was filled in. -/
theorem exchangeRequest_posted {x : Exchange} {h : RInfo} (hmr : h.rtnMr)
    (hpost : 0 ≤ x.postWriteReq.toInt) (a : ReqArgs) :
  (exchangeRequest x h a).posted = some ⟨h.mem, htonl h.sockfd⟩
  := by
  simp only [exchangeRequest]
  rw [if_neg (not_not.mpr hmr), if_neg (not_lt.mpr hpost)]
  split
  · rfl
  · simp only [finishRequest]
    split
    · rfl
    · split
      · rfl
      · rfl

/-- A `write` request carries its data. -/
theorem setReqSock_write {a : ReqArgs} (ha : a.reqRdma = RdmaReq.write.code) (x : Exchange)
    (h : RInfo) :
  setReqSock x h a =
    (copyMessage (fillRequest h.mem a) a).map fun m => exchangeRequest x ⟨m, a.sockfd, h.rtnMr⟩ a
  := by
  simp only [setReqSock]
  rw [if_pos ha, ha, if_neg (by decide)]

/-- The data of a `write` are copied when the sum of its length and the header size does not
wrap. -/
theorem copySize_fits_iff (n : BitVec 64) :
  (copySize n).toNat ≤ bufferSize ↔ n.toNat + 12 < 2 ^ 64
  := by
  have hlt := n.isLt
  rw [toNat_copySize, bufferSize]
  split <;> omega

/-- When the request is sent and answered, `set_req_sock` ends with the reply. -/
theorem setReqSock_of_reply {x : Exchange} {h : RInfo} {a : ReqArgs} {req : RdmaReq}
    (ha : a.reqRdma = req.code) (hmr : h.rtnMr) (hpost : 0 ≤ x.postWriteReq.toInt)
    (hpoll : 0 ≤ x.processPollCqImm.toInt)
    (hfit : req = .write → (copySize a.bufSz).toNat ≤ bufferSize) :
  ∃ h' posted, setReqSock x h a = some (finishRequest h' posted a) ∧
    h'.mem.AgreeOn x.reply rtnErrno rtnSize ∧
    (req ≠ .write → posted = ⟨fillRequest h.mem a, htonl a.sockfd⟩)
  := by
  have hexchange : ∀ m, exchangeRequest x ⟨m, a.sockfd, h.rtnMr⟩ a =
      finishRequest ⟨m.store rtnErrno x.rtn, a.sockfd, h.rtnMr⟩ ⟨m, htonl a.sockfd⟩ a := by
    intro m
    simp only [exchangeRequest]
    rw [if_neg (not_not.mpr hmr), if_neg (not_lt.mpr hpost), if_neg (not_lt.mpr hpoll)]
  have hrange : ¬ (a.reqRdma.toInt < RdmaReq.socket.code.toInt ∨
      RdmaReq.delRdmaConn.code.toInt < a.reqRdma.toInt) := by
    rw [ha]
    cases req <;> decide
  have hwrite : a.reqRdma = RdmaReq.write.code ↔ req = .write := by
    rw [ha, RdmaReq.code_inj]
  simp only [setReqSock, hwrite]
  rw [if_neg hrange]
  split
  case isTrue hreq =>
    rw [copyMessage, if_pos (hfit hreq), Option.map_some, hexchange]
    exact ⟨_, _, rfl, ByteMem.agreeOn_store_self _ _ _ _, absurd hreq⟩
  case isFalse =>
    rw [Option.map_some, hexchange]
    exact ⟨_, _, rfl, ByteMem.agreeOn_store_self _ _ _ _, fun _ => rfl⟩

/-- A `write` whose copy does not fit has no result. -/
theorem setReqSock_eq_none {a : ReqArgs} (ha : a.reqRdma = RdmaReq.write.code) (x : Exchange)
    (h : RInfo) (hfit : ¬ (copySize a.bufSz).toNat ≤ bufferSize) :
  setReqSock x h a = none
  := by
  rw [setReqSock_write ha, copyMessage, if_neg hfit]
  rfl

end SocketToRdma
