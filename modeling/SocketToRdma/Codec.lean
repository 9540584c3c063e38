import SocketToRdma.Lib.ByteMem

/-!
# The formats of the data area

The arguments and the results of `select`, `epoll_create1`, `epoll_ctl`, `epoll_wait`, `poll`,
`fcntl`, the socket options and the socket addresses travel in the data areas of the
messages. An encoder is a function of the memory and of the address `p` of the data area; a
decoder reads from that address. A null pointer is `none`.
-/

namespace SocketToRdma

/-! ### `select` -/

/-- The arguments of `select`: the sets are of 1024 bits, the timeout is a `struct timeval`. -/
structure SelectArgs where
  nfds : BitVec 32
  readfds : Option (Block 128)
  writefds : Option (Block 128)
  exceptfds : Option (Block 128)
  timeout : Option (Block 16)

/-- The object, or zeros in its place. -/
def storeOrZero {n : ℕ} (m : ByteMem) (p : ℕ) (b : Option (Block n)) : ByteMem :=
  m.store p (b.getD (Block.fill n 0))

/-- The flag that tells which arguments are present, one decimal digit each. -/
def SelectArgs.flag (a : SelectArgs) : BitVec 32 :=
  (if a.readfds.isSome then 1000 else 0) + (if a.writefds.isSome then 100 else 0)
    + (if a.exceptfds.isSome then 10 else 0) + (if a.timeout.isSome then 1 else 0)

/-- `serialize_select_fd_set`: the flag is stored last, over the first bytes of `readfds`. -/
def serializeSelectFdSet (m : ByteMem) (p : ℕ) (a : SelectArgs) : ByteMem :=
  let m := m.storeBits p a.nfds
  let m := storeOrZero m (p + 5) a.readfds
  let m := storeOrZero m (p + 133) a.writefds
  let m := storeOrZero m (p + 261) a.exceptfds
  let m := storeOrZero m (p + 389) a.timeout
  m.storeBits (p + 4) a.flag

/-- The number of bytes `serialize_select_fd_set` writes. -/
def selectSize : ℕ := 405

/-- The object read from the address `p`, unless the digit says that it is absent. -/
def loadIf {n : ℕ} (present : Prop) [Decidable present] (m : ByteMem) (p : ℕ)
    (b : Option (Block n)) : Option (Block n) :=
  if present then b.map fun _ => m.load p n else b

/-- `deserialize_select_fd_set`: `a` holds what the destinations held before. -/
def deserializeSelectFdSet (m : ByteMem) (p : ℕ) (a : SelectArgs) : SelectArgs :=
  let flag := (m.loadBits 32 (p + 4)).toInt
  if flag = 0 then
    { a with nfds := m.loadBits 32 p }
  else
    { nfds := m.loadBits 32 p
      readfds := loadIf (flag.tdiv 1000 = 1) m (p + 5) a.readfds
      writefds := loadIf ((flag - 1000).tdiv 100 = 1) m (p + 133) a.writefds
      exceptfds := loadIf ((flag - 1100).tdiv 10 = 1) m (p + 261) a.exceptfds
      timeout := loadIf (flag - 1110 = 1) m (p + 389) a.timeout }

/-! ### `epoll` -/

/-- `serialize_epoll_create_dt` -/
def serializeEpollCreateDt (m : ByteMem) (p : ℕ) (flag : BitVec 32) : ByteMem :=
  m.storeBits p flag

/-- `deserialize_epoll_create_dt` -/
def deserializeEpollCreateDt (m : ByteMem) (p : ℕ) : BitVec 32 :=
  m.loadBits 32 p

/-- The arguments of `epoll_ctl`, with the two fields of the event. -/
structure EpollCtlArgs where
  epfd : BitVec 32
  op : BitVec 32
  fd : BitVec 32
  events : BitVec 32
  data : BitVec 64

/-- A `struct epoll_event`, of 12 bytes. -/
structure EpollEvent where
  events : BitVec 32
  data : BitVec 64

/-- The event copied to its place behind the three descriptors. -/
def storeEvent (m : ByteMem) (p : ℕ) (event : EpollEvent) : ByteMem :=
  (m.storeBits (p + 12) event.events).storeBits (p + 16) event.data

/-- The two descriptors and the operation of `epoll_ctl`. -/
def storeEpollCtl (m : ByteMem) (p : ℕ) (epfd op fd : BitVec 32) : ByteMem :=
  ((m.storeBits p epfd).storeBits (p + 4) op).storeBits (p + 8) fd

/-- `serialize_epoll_ctl_dt` of the host: the event is stored first, unless it is null. -/
def serializeEpollCtlDt (m : ByteMem) (p : ℕ) (epfd op fd : BitVec 32) (event : Option EpollEvent) :
    ByteMem :=
  let m :=
    match event with
    | none => m
    | some event => storeEvent m p event
  storeEpollCtl m p epfd op fd

/-- `serialize_epoll_ctl_dt` of the server: nothing is stored when the event is null. -/
def snicSerializeEpollCtlDt (m : ByteMem) (p : ℕ) (epfd op fd : BitVec 32)
    (event : Option EpollEvent) : ByteMem :=
  match event with
  | none => m
  | some event => storeEvent (storeEpollCtl m p epfd op fd) p event

/-- `deserialize_epoll_ctl_dt` of the server -/
def deserializeEpollCtlDt (m : ByteMem) (p : ℕ) : EpollCtlArgs where
  epfd := m.loadBits 32 p
  op := m.loadBits 32 (p + 4)
  fd := m.loadBits 32 (p + 8)
  events := m.loadBits 32 (p + 12)
  data := m.loadBits 64 (p + 16)

/-- `deserialize_epoll_ctl_dt` of the host, which compares the pointer `op` with `EPOLL_CTL_DEL`:
the event is decoded whatever the operation is. -/
def hostDeserializeEpollCtlDt (m : ByteMem) (p : ℕ) : EpollCtlArgs where
  epfd := m.loadBits 32 p
  op := m.loadBits 32 (p + 4)
  fd := m.loadBits 32 (p + 8)
  events := m.loadBits 32 (p + 12)
  data := m.loadBits 64 (p + 16)

/-- The arguments of `epoll_wait` besides the events. -/
structure EpollWaitArgs where
  nfds : BitVec 32
  epfd : BitVec 32
  maxevents : BitVec 32
  timeout : BitVec 32

/-- The events `i`, `i + 1`, … of which `n` are left, as long as they end within 1024 bytes;
an event takes 12 bytes. -/
def serializeEvents (m : ByteMem) (p : ℕ) (events : ByteMem) (i : ℕ) : ℕ → ByteMem
  | 0 => m
  | n + 1 =>
      let offset := 16 + 12 * i
      if offset + 12 > 1024 then m
      else serializeEvents (m.store (p + offset) (events.load (12 * i) 12)) p events (i + 1) n

/-- `serialize_epoll_wait_dt` -/
def serializeEpollWaitDt (m : ByteMem) (p : ℕ) (a : EpollWaitArgs) (events : ByteMem) : ByteMem :=
  let m := m.storeBits p a.nfds
  let m := m.storeBits (p + 4) a.epfd
  let m := m.storeBits (p + 8) a.maxevents
  let m := m.storeBits (p + 12) a.timeout
  serializeEvents m p events 0 a.nfds.toInt.toNat

/-- `deserialize_epoll_wait_dt`, with a null pointer for the events. -/
def deserializeEpollWaitDt (m : ByteMem) (p : ℕ) : EpollWaitArgs where
  nfds := m.loadBits 32 p
  epfd := m.loadBits 32 (p + 4)
  maxevents := m.loadBits 32 (p + 8)
  timeout := m.loadBits 32 (p + 12)

/-- The events `i`, `i + 1`, … of which `n` are left, copied into the array, as long as they end
within 1024 bytes. -/
def deserializeEvents (m : ByteMem) (p : ℕ) (events : ByteMem) (i : ℕ) : ℕ → ByteMem
  | 0 => events
  | n + 1 =>
      let offset := 16 + 12 * i
      if offset + 12 > 1024 then events
      else deserializeEvents m p (events.store (12 * i) (m.load (p + offset) 12)) (i + 1) n

/-- `deserialize_epoll_wait_dt`, with the array `events` to be overwritten: the arguments, and the
array. -/
def deserializeEpollWaitDtInto (m : ByteMem) (p : ℕ) (events : ByteMem) : EpollWaitArgs × ByteMem :=
  let args := deserializeEpollWaitDt m p
  (args, deserializeEvents m p events 0 args.nfds.toInt.toNat)

/-! ### `poll` -/

/-- The arguments of `poll`; the entries take eight bytes each. -/
structure PollArgs where
  timeout : BitVec 32
  nfds : BitVec 64
  fds : Option ByteMem

/-- The entries `i`, `i + 1`, … of which `n` are left. -/
def serializePollfds (m : ByteMem) (p : ℕ) (fds : ByteMem) (i : ℕ) : ℕ → ByteMem
  | 0 => m
  | n + 1 => serializePollfds (m.store (p + 12 + 8 * i) (fds.load (8 * i) 8)) p fds (i + 1) n

/-- `serialize_poll_pollfd` -/
def serializePollPollfd (m : ByteMem) (p : ℕ) (a : PollArgs) : ByteMem :=
  match a.fds with
  | none => m
  | some fds =>
      let m := m.storeBits p a.timeout
      let m := m.storeBits (p + 4) a.nfds
      serializePollfds m p fds 0 a.nfds.toNat

/-- `deserialize_poll_pollfd`, with no array allocated yet. -/
def deserializePollPollfd (m : ByteMem) (p : ℕ) (malloc : Bool) : PollArgs where
  timeout := m.loadBits 32 p
  nfds := m.loadBits 64 (p + 4)
  fds := if malloc then some fun j => m (p + 12 + j) else none

/-- The entries `i`, `i + 1`, … of which `n` are left, copied into the array. -/
def deserializePollfds (m : ByteMem) (p : ℕ) (fds : ByteMem) (i : ℕ) : ℕ → ByteMem
  | 0 => fds
  | n + 1 => deserializePollfds m p (fds.store (8 * i) (m.load (p + 12 + 8 * i) 8)) (i + 1) n

/-- `deserialize_poll_pollfd`, with the array `fds` to be overwritten. -/
def deserializePollPollfdInto (m : ByteMem) (p : ℕ) (fds : ByteMem) : PollArgs where
  timeout := m.loadBits 32 p
  nfds := m.loadBits 64 (p + 4)
  fds := some (deserializePollfds m p fds 0 (m.loadBits 64 (p + 4)).toNat)

/-! ### `fcntl` -/

/-- `F_DUPFD` -/
def fDupfd : BitVec 32 := 0

/-- `F_GETFD` -/
def fGetfd : BitVec 32 := 1

/-- `F_SETFD` -/
def fSetfd : BitVec 32 := 2

/-- `F_GETFL` -/
def fGetfl : BitVec 32 := 3

/-- `F_SETFL` -/
def fSetfl : BitVec 32 := 4

/-- `F_GETLK` -/
def fGetlk : BitVec 32 := 5

/-- `F_SETLK` -/
def fSetlk : BitVec 32 := 6

/-- `F_SETLKW` -/
def fSetlkw : BitVec 32 := 7

/-- `F_SETOWN` -/
def fSetown : BitVec 32 := 8

/-- `F_DUPFD_CLOEXEC` -/
def fDupfdCloexec : BitVec 32 := 1030

/-- `F_SETPIPE_SZ` -/
def fSetpipeSz : BitVec 32 := 1031

/-- What the argument of `fcntl` points to: an `int` or a `struct flock`. -/
inductive FcntlArg where
  | int (x : BitVec 32)
  | flock (x : Block 32)

/-- The argument copied to the address `p`. -/
def FcntlArg.store (m : ByteMem) (p : ℕ) : FcntlArg → ByteMem
  | int x => m.storeBits p x
  | flock x => m.store p x

/-- The value `serialize_fcntl_dt` gives to `flag`, by the kind of argument the command takes. -/
def fcntlFlag (cmd : BitVec 32) : BitVec 32 :=
  if cmd = fGetfd ∨ cmd = fGetfl then 0
  else if cmd = fSetfd ∨ cmd = fSetfl ∨ cmd = fDupfd then 1
  else if cmd = fGetlk ∨ cmd = fSetlk ∨ cmd = fSetlkw then 2
  else 0

/-- `serialize_fcntl_dt` of the host: the memory, and the value left in `flag`. -/
def serializeFcntlDt (m : ByteMem) (p : ℕ) (cmd : BitVec 32) (arg : FcntlArg) :
    ByteMem × BitVec 32 :=
  let flag := fcntlFlag cmd
  let m := if flag = 0 then m else arg.store m (p + 8)
  ((m.storeBits p cmd).storeBits (p + 4) flag, flag)

/-- The flag, the command and the argument of `fcntl`. -/
structure FcntlArgs where
  flag : BitVec 32
  cmd : BitVec 32
  arg : Option FcntlArg

/-- `deserialize_fcntl_dt` of the server -/
def deserializeFcntlDt (m : ByteMem) (p : ℕ) (malloc : Bool) : FcntlArgs :=
  let flag := m.loadBits 32 (p + 4)
  { flag := flag
    cmd := m.loadBits 32 p
    arg :=
      if flag = 1 then
        if malloc then some (.int (m.loadBits 32 (p + 8))) else none
      else if flag = 2 then
        if malloc then some (.flock (m.load (p + 8) 32)) else none
      else none }

/-! ### Socket options -/

/-- The arguments of `setsockopt` and `getsockopt` besides the descriptor; there is no buffer
for the value when its length is zero. -/
structure SockoptArgs where
  level : BitVec 32
  optname : BitVec 32
  optlen : BitVec 32
  optval : Option ByteMem

/-- `serialize_sockopt_dt` -/
def serializeSockoptDt (m : ByteMem) (p : ℕ) (level optname : BitVec 32) (optval : ByteMem)
    (optlen : BitVec 32) : ByteMem :=
  let m := m.storeBits p level
  let m := m.storeBits (p + 4) optname
  let m := m.storeBits (p + 8) optlen
  m.store (p + 12) (optval.load 0 optlen.toNat)

/-- `deserialize_sockopt_dt` -/
def deserializeSockoptDt (m : ByteMem) (p : ℕ) (malloc : Bool) : SockoptArgs :=
  let optlen := m.loadBits 32 (p + 8)
  { level := m.loadBits 32 p
    optname := m.loadBits 32 (p + 4)
    optlen := optlen
    optval := if optlen ≠ 0 ∧ malloc then some fun j => m (p + 12 + j) else none }

/-! ### Socket addresses -/

/-- A socket address and its length. -/
structure AddrArgs where
  addrlen : BitVec 32
  addr : Block 16

/-- `serialize_addr_dt` -/
def serializeAddrDt (m : ByteMem) (p : ℕ) (a : AddrArgs) : ByteMem :=
  (m.storeBits p a.addrlen).store (p + 4) a.addr

/-- `deserialize_addr_dt` -/
def deserializeAddrDt (m : ByteMem) (p : ℕ) : AddrArgs where
  addrlen := m.loadBits 32 p
  addr := m.load (p + 4) 16

/-! ### Arrays -/

/-- The entries are copied as one object. -/
theorem serializePollfds_eq (m : ByteMem) (p : ℕ) (fds : ByteMem) (i n : ℕ) :
  serializePollfds m p fds i n = m.store (p + 12 + 8 * i) (fds.load (8 * i) (8 * n))
  := by
  induction n generalizing m i with
  | zero => rw [serializePollfds, Nat.mul_zero, ByteMem.store_load_zero]
  | succ n ih =>
      rw [serializePollfds, ih, Nat.mul_add 8 i 1, ← Nat.add_assoc, ByteMem.store_load_append,
        Nat.mul_add 8 n 1, Nat.add_comm (8 * n)]

theorem deserializePollfds_eq (m : ByteMem) (p : ℕ) (fds : ByteMem) (i n : ℕ) :
  deserializePollfds m p fds i n = fds.store (8 * i) (m.load (p + 12 + 8 * i) (8 * n))
  := by
  induction n generalizing fds i with
  | zero => rw [deserializePollfds, Nat.mul_zero, ByteMem.store_load_zero]
  | succ n ih =>
      rw [deserializePollfds, ih, Nat.mul_add 8 i 1, ← Nat.add_assoc, ByteMem.store_load_append,
        Nat.mul_add 8 n 1, Nat.add_comm (8 * n)]

/-- The events that end within 1024 bytes are copied as one object. -/
theorem serializeEvents_eq (m : ByteMem) (p : ℕ) (events : ByteMem) (i n : ℕ) :
  serializeEvents m p events i n =
    m.store (p + (16 + 12 * i)) (events.load (12 * i) (12 * min n (84 - i)))
  := by
  induction n generalizing m i with
  | zero => rw [serializeEvents, Nat.zero_min, Nat.mul_zero, ByteMem.store_load_zero]
  | succ n ih =>
      simp only [serializeEvents]
      split
      case isTrue hfull =>
        rw [show min (n + 1) (84 - i) = 0 by omega, Nat.mul_zero, ByteMem.store_load_zero]
      case isFalse hfit =>
        rw [ih, show p + (16 + 12 * (i + 1)) = p + (16 + 12 * i) + 12 by omega, Nat.mul_add 12 i 1,
          ByteMem.store_load_append,
          show 12 * min (n + 1) (84 - i) = 12 + 12 * min n (84 - (i + 1)) by omega]

theorem deserializeEvents_eq (m : ByteMem) (p : ℕ) (events : ByteMem) (i n : ℕ) :
  deserializeEvents m p events i n =
    events.store (12 * i) (m.load (p + (16 + 12 * i)) (12 * min n (84 - i)))
  := by
  induction n generalizing events i with
  | zero => rw [deserializeEvents, Nat.zero_min, Nat.mul_zero, ByteMem.store_load_zero]
  | succ n ih =>
      simp only [deserializeEvents]
      split
      case isTrue hfull =>
        rw [show min (n + 1) (84 - i) = 0 by omega, Nat.mul_zero, ByteMem.store_load_zero]
      case isFalse hfit =>
        rw [ih, show p + (16 + 12 * (i + 1)) = p + (16 + 12 * i) + 12 by omega, Nat.mul_add 12 i 1,
          ByteMem.store_load_append,
          show 12 * min (n + 1) (84 - i) = 12 + 12 * min n (84 - (i + 1)) by omega]

/-! ### What the encoders leave alone -/

/-- The encoder of `select` writes its bytes only. -/
theorem serializeSelectFdSet_agreeOn (m : ByteMem) {p : ℕ} (a : SelectArgs) {q k : ℕ}
    (h : q + k ≤ p ∨ p + selectSize ≤ q) :
  (serializeSelectFdSet m p a).AgreeOn m q k
  := by
  unfold selectSize at h
  apply (ByteMem.agreeOn_store _ _ _ (by omega)).trans
  apply (ByteMem.agreeOn_store _ _ _ (by omega)).trans
  apply (ByteMem.agreeOn_store _ _ _ (by omega)).trans
  apply (ByteMem.agreeOn_store _ _ _ (by omega)).trans
  apply (ByteMem.agreeOn_store _ _ _ (by omega)).trans
  apply ByteMem.agreeOn_store _ _ _ (by omega)

theorem serializeEvents_agreeOn (m : ByteMem) {p : ℕ} (events : ByteMem) (i n : ℕ) {q k : ℕ}
    (h : q + k ≤ p ∨ p + 1024 ≤ q) :
  (serializeEvents m p events i n).AgreeOn m q k
  := by
  rw [serializeEvents_eq]
  by_cases hi : i ≤ 84
  · apply ByteMem.agreeOn_store _ _ _ (by omega)
  · rw [show min n (84 - i) = 0 by omega, Nat.mul_zero, ByteMem.store_load_zero]
    apply ByteMem.AgreeOn.refl

/-- The encoder of `epoll_wait` writes its `1024` bytes only. -/
theorem serializeEpollWaitDt_agreeOn (m : ByteMem) {p : ℕ} (a : EpollWaitArgs) (events : ByteMem)
    {q k : ℕ} (h : q + k ≤ p ∨ p + 1024 ≤ q) :
  (serializeEpollWaitDt m p a events).AgreeOn m q k
  := by
  apply (serializeEvents_agreeOn _ _ _ _ h).trans
  apply (ByteMem.agreeOn_store _ _ _ (by omega)).trans
  apply (ByteMem.agreeOn_store _ _ _ (by omega)).trans
  apply (ByteMem.agreeOn_store _ _ _ (by omega)).trans
  apply ByteMem.agreeOn_store _ _ _ (by omega)

theorem serializePollfds_agreeOn (m : ByteMem) {p : ℕ} (fds : ByteMem) (i n : ℕ) {q k : ℕ}
    (h : q + k ≤ p ∨ p + 12 + 8 * (i + n) ≤ q) :
  (serializePollfds m p fds i n).AgreeOn m q k
  := by
  rw [serializePollfds_eq]
  apply ByteMem.agreeOn_store _ _ _ (by omega)

/-- The encoder of `poll` writes the header and the entries only. -/
theorem serializePollPollfd_agreeOn (m : ByteMem) {p : ℕ} (a : PollArgs) {q k : ℕ}
    (h : q + k ≤ p ∨ p + 12 + 8 * a.nfds.toNat ≤ q) :
  (serializePollPollfd m p a).AgreeOn m q k
  := by
  unfold serializePollPollfd
  split
  · apply ByteMem.AgreeOn.refl
  · apply (serializePollfds_agreeOn _ _ _ _ (by omega)).trans
    apply (ByteMem.agreeOn_store _ _ _ (by omega)).trans
    apply ByteMem.agreeOn_store _ _ _ (by omega)

/-- The encoder of the socket options writes the header and the value only. -/
theorem serializeSockoptDt_agreeOn (m : ByteMem) {p : ℕ} (level optname : BitVec 32)
    (optval : ByteMem) (optlen : BitVec 32) {q k : ℕ}
    (h : q + k ≤ p ∨ p + 12 + optlen.toNat ≤ q) :
  (serializeSockoptDt m p level optname optval optlen).AgreeOn m q k
  := by
  apply (ByteMem.agreeOn_store _ _ _ (by omega)).trans
  apply (ByteMem.agreeOn_store _ _ _ (by omega)).trans
  apply (ByteMem.agreeOn_store _ _ _ (by omega)).trans
  apply ByteMem.agreeOn_store _ _ _ (by omega)

/-- The encoder of the addresses writes its `20` bytes only. -/
theorem serializeAddrDt_agreeOn (m : ByteMem) {p : ℕ} (a : AddrArgs) {q k : ℕ}
    (h : q + k ≤ p ∨ p + 20 ≤ q) :
  (serializeAddrDt m p a).AgreeOn m q k
  := by
  apply (ByteMem.agreeOn_store _ _ _ (by omega)).trans
  apply ByteMem.agreeOn_store _ _ _ (by omega)

/-- The fifth byte of an encoded `select` with all arguments present is not zero. -/
theorem serializeSelectFdSet_flag (m : ByteMem) (p : ℕ) (nfds : BitVec 32)
    (readfds writefds exceptfds : Block 128) (timeout : Block 16) :
  serializeSelectFdSet m p ⟨nfds, some readfds, some writefds, some exceptfds, some timeout⟩ (p + 4)
    = 87
  := by
  simp only [serializeSelectFdSet, SelectArgs.flag, ByteMem.storeBits, ByteMem.store, Option.isSome,
    if_true]
  rw [dif_pos (by omega)]
  simp only [Nat.sub_self, Block.ofNat]
  decide

end SocketToRdma
