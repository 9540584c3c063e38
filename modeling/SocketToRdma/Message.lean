import Mathlib.Data.Nat.Notation
import Mathlib.Tactic.Ring
import Mathlib.Tactic.Use

/-!
# Requests and messages

The request codes of the protocol, and the layout of its two messages. A `client_r_info`
holds a request message `req` directly followed by a reply message `rtn`; both structures
are packed. Offsets are taken from the start of `req`.
-/

namespace SocketToRdma

/-- `BUFFER_SIZE`, the size of the data area of a message. -/
def bufferSize : ℕ := 600000

/-- `RDMA_REQ_MSG`: the requests the host sends to the server. -/
inductive RdmaReq where
  | socket
  | close
  | read
  | write
  | bind
  | listen
  | accept
  | connect
  | select
  | epollCreate1
  | epollCtl
  | epollWait
  | poll
  | fcntl
  | setsockopt
  | getsockopt
  | getpeername
  | getsockname
  | newRdmaConn
  | delRdmaConn
  deriving DecidableEq, Repr

namespace RdmaReq

/-- The requests, in the order of their codes. -/
def all : List RdmaReq :=
  [socket, close, read, write, bind, listen, accept, connect, select, epollCreate1, epollCtl,
    epollWait, poll, fcntl, setsockopt, getsockopt, getpeername, getsockname, newRdmaConn,
    delRdmaConn]

/-- The code of a request. -/
def code : RdmaReq → BitVec 32
  | socket => 1
  | close => 2
  | read => 3
  | write => 4
  | bind => 5
  | listen => 6
  | accept => 7
  | connect => 8
  | select => 9
  | epollCreate1 => 10
  | epollCtl => 11
  | epollWait => 12
  | poll => 13
  | fcntl => 14
  | setsockopt => 15
  | getsockopt => 16
  | getpeername => 17
  | getsockname => 18
  | newRdmaConn => 19
  | delRdmaConn => 20

/-- The request with a code, `none` if the code is unknown. -/
def ofCode (c : BitVec 32) : Option RdmaReq :=
  all.find? (fun req => req.code == c)

/-- A request is determined by its code. -/
theorem ofCode_code (req : RdmaReq) :
  ofCode req.code = some req
  := by
  cases req <;> rfl

theorem code_inj {req req' : RdmaReq} :
  req.code = req'.code ↔ req = req'
  := by
  constructor
  · intro h
    apply Option.some.inj
    rw [← ofCode_code, ← ofCode_code, h]
  · apply congrArg

theorem code_of_ofCode {c : BitVec 32} {req : RdmaReq} (h : ofCode c = some req) :
  req.code = c
  := by
  simpa using List.find?_some h

end RdmaReq

/-- `htons`, which is `ntohs` as well: the two bytes are swapped. -/
def htons (x : BitVec 16) : BitVec 16 :=
  (x <<< 8) ||| (x >>> 8)

/-- `htonl`, which is `ntohl` as well: the four bytes are reversed. -/
def htonl (x : BitVec 32) : BitVec 32 :=
  (htons (x.setWidth 16)).setWidth 32 <<< 16 ||| (htons ((x >>> 16).setWidth 16)).setWidth 32

theorem htons_htons (x : BitVec 16) :
  htons (htons x) = x
  := by
  apply BitVec.eq_of_getLsbD_eq
  intro i hi
  simp only [htons, BitVec.getLsbD_or, BitVec.getLsbD_shiftLeft, BitVec.getLsbD_ushiftRight]
  by_cases h : i < 8
  · have hlt : 8 + i < 16 := by omega
    simp [h, hlt, BitVec.getLsbD_of_ge x (8 + (8 + i)) (by omega)]
  · have hlt : i - 8 < 8 := by omega
    have hge : ¬ 8 + i < 16 := by omega
    have hsub : 8 + (i - 8) = i := by omega
    simp [h, hi, hlt, hge, hsub, BitVec.getLsbD_of_ge x (8 + (8 + i)) (by omega)]

theorem setWidth_halves (a b : BitVec 16) :
  (a.setWidth 32 <<< 16 ||| b.setWidth 32).setWidth 16 = b
  := by
  ext i hi
  simp

theorem setWidth_ushiftRight_halves (a b : BitVec 16) :
  ((a.setWidth 32 <<< 16 ||| b.setWidth 32) >>> 16).setWidth 16 = a
  := by
  ext i hi
  have hlt : 16 + i < 32 := by omega
  have hi' : i < 32 := by omega
  simp [hi, hlt, hi']

theorem halves_eq (x : BitVec 32) :
  ((x >>> 16).setWidth 16).setWidth 32 <<< 16 ||| (x.setWidth 16).setWidth 32 = x
  := by
  ext i hi
  by_cases h : i < 16
  · simp [hi, h]
  · have hlt : i - 16 < 16 := by omega
    have hsub : 16 + (i - 16) = i := by omega
    simp [hi, h, hlt, hsub]

/-- `ntohl` restores what `htonl` was applied to. -/
theorem htonl_htonl (x : BitVec 32) :
  htonl (htonl x) = x
  := by
  rw [htonl, htonl, setWidth_halves, setWidth_ushiftRight_halves, htons_htons, htons_htons, halves_eq]

/-- A size narrowed to an `int` and widened again. -/
theorem toNat_narrowed (n : BitVec 64) :
  ((n.setWidth 32).signExtend 64).toNat =
    if n.toNat % 2 ^ 32 < 2 ^ 31 then n.toNat % 2 ^ 32 else n.toNat % 2 ^ 32 + (2 ^ 64 - 2 ^ 32)
  := by
  rw [BitVec.toNat_signExtend, BitVec.msb_eq_decide, BitVec.toNat_setWidth, BitVec.toNat_setWidth,
    Nat.mod_eq_of_lt (by omega)]
  by_cases h : n.toNat % 2 ^ 32 < 2 ^ 31
  · rw [if_pos h, if_neg (by simpa using h), Nat.add_zero]
  · rw [if_neg h, if_pos (by simpa using h)]

/-! ### Layouts -/

/-- The size of the header that both sides count for a message. -/
def headerSz : ℕ := 12

/-- The offset of `req.rdma_req`. -/
def reqRdmaReq : ℕ := 0

/-- The offset of `req.buf_sz`. -/
def reqBufSz : ℕ := 4

/-- The offset of `req.port`. -/
def reqPort : ℕ := 12

/-- The offset of `req.data`. -/
def reqData : ℕ := 14

/-- The size of a `req_msg`. -/
def reqSize : ℕ := 600014

/-- The offset of `rtn.errno_`. -/
def rtnErrno : ℕ := 600014

/-- The offset of `rtn.rtn_value`. -/
def rtnValue : ℕ := 600018

/-- The offset of `rtn.data`. -/
def rtnData : ℕ := 600026

/-- The size of a `rtn_msg`. -/
def rtnSize : ℕ := 600012

end SocketToRdma
