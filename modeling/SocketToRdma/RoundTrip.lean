import SocketToRdma.Server.Socket

/-!
# Decoding what was encoded

The host and the server have a copy of each encoder and each decoder. What one of them encodes
over any previous contents of the data area, the other decodes: the formats of `poll`, `epoll_ctl`,
the socket options and the socket addresses give back what they were given. The format of `select`
gives back its arguments only when they are a first part of its four, and a read set only when the
flag that is stored over it changes nothing. The format of `fcntl` drops the argument of three
commands for which the hook takes one.
-/

namespace SocketToRdma

/-! ### The two copies -/

/-- The two copies of the source. -/
inductive Tree where
  | host
  | snic

namespace Tree

/-- `serialize_poll_pollfd` of a copy -/
def serializePollPollfd : Tree → ByteMem → ℕ → PollArgs → ByteMem
  | host => SocketToRdma.serializePollPollfd
  | snic => SocketToRdma.serializePollPollfd

/-- `deserialize_poll_pollfd` of a copy: the array is allocated when there is none. -/
def deserializePollPollfd : Tree → ByteMem → ℕ → Bool → Option ByteMem → PollArgs
  | host, m, p, malloc, none => SocketToRdma.deserializePollPollfd m p malloc
  | host, m, p, _, some fds => deserializePollPollfdInto m p fds
  | snic, m, p, malloc, none => SocketToRdma.deserializePollPollfd m p malloc
  | snic, m, p, _, some fds => deserializePollPollfdInto m p fds

/-- `serialize_epoll_ctl_dt` of a copy -/
def serializeEpollCtlDt :
    Tree → ByteMem → ℕ → BitVec 32 → BitVec 32 → BitVec 32 → Option EpollEvent → ByteMem
  | host => SocketToRdma.serializeEpollCtlDt
  | snic => snicSerializeEpollCtlDt

/-- `deserialize_epoll_ctl_dt` of a copy -/
def deserializeEpollCtlDt : Tree → ByteMem → ℕ → EpollCtlArgs
  | host => hostDeserializeEpollCtlDt
  | snic => SocketToRdma.deserializeEpollCtlDt

/-- `serialize_sockopt_dt` of a copy -/
def serializeSockoptDt : Tree → ByteMem → ℕ → BitVec 32 → BitVec 32 → ByteMem → BitVec 32 → ByteMem
  | host => SocketToRdma.serializeSockoptDt
  | snic => SocketToRdma.serializeSockoptDt

/-- `deserialize_sockopt_dt` of a copy -/
def deserializeSockoptDt : Tree → ByteMem → ℕ → Bool → SockoptArgs
  | host => SocketToRdma.deserializeSockoptDt
  | snic => SocketToRdma.deserializeSockoptDt

/-- `serialize_addr_dt` of a copy -/
def serializeAddrDt : Tree → ByteMem → ℕ → AddrArgs → ByteMem
  | host => SocketToRdma.serializeAddrDt
  | snic => SocketToRdma.serializeAddrDt

/-- `deserialize_addr_dt` of a copy -/
def deserializeAddrDt : Tree → ByteMem → ℕ → AddrArgs
  | host => SocketToRdma.deserializeAddrDt
  | snic => SocketToRdma.deserializeAddrDt

end Tree

/-- The decoder of `poll` gave back the timeout and the entries; it has an array for them if it was
given one or could allocate one. -/
structure PollRecovered (timeout : BitVec 32) (nfds : BitVec 64) (fds : ByteMem) (allocated : Bool)
    (a : PollArgs) : Prop where
  timeout_eq : a.timeout = timeout
  nfds_eq : a.nfds = nfds
  isSome : a.fds.isSome = allocated
  array : ∀ array, a.fds = some array → array.AgreeOn fds 0 (8 * nfds.toNat)

/-- The decoder of the socket options gave back the option; it has a buffer for the value if it
could allocate one. -/
structure SockoptRecovered (level optname : BitVec 32) (optval : ByteMem) (optlen : BitVec 32)
    (malloc : Bool) (a : SockoptArgs) : Prop where
  level_eq : a.level = level
  optname_eq : a.optname = optname
  optlen_eq : a.optlen = optlen
  isSome : a.optval.isSome = malloc
  value : ∀ value, a.optval = some value → value.AgreeOn optval 0 optlen.toNat

/-- What the copy `t` encodes at the address `p` of the memory `m`, the copy `t'` decodes, and only
the bytes of the encoding change. -/
structure Interoperate (t t' : Tree) (m : ByteMem) (p : ℕ) : Prop where
  poll : ∀ timeout nfds fds malloc dest, 12 + 8 * nfds.toNat ≤ bufferSize →
    let m' := t.serializePollPollfd m p ⟨timeout, nfds, some fds⟩
    PollRecovered timeout nfds fds (dest.isSome || malloc)
        (t'.deserializePollPollfd m' p malloc dest) ∧
      m.DifferIn m' p (12 + 8 * nfds.toNat)
  epollCtl : ∀ epfd op fd event,
    let m' := t.serializeEpollCtlDt m p epfd op fd (some event)
    t'.deserializeEpollCtlDt m' p = ⟨epfd, op, fd, event.events, event.data⟩ ∧ m.DifferIn m' p 24
  sockopt : ∀ level optname optval optlen malloc, 1 ≤ optlen.toNat →
    optlen.toNat ≤ bufferSize - 12 →
      let m' := t.serializeSockoptDt m p level optname optval optlen
      SockoptRecovered level optname optval optlen malloc (t'.deserializeSockoptDt m' p malloc) ∧
        m.DifferIn m' p (12 + optlen.toNat)
  addr : ∀ a,
    let m' := t.serializeAddrDt m p a
    t'.deserializeAddrDt m' p = a ∧ m.DifferIn m' p 20
  nullEvent : ∀ epfd op fd,
    let m' := Tree.host.serializeEpollCtlDt m p epfd op fd none
    ((t'.deserializeEpollCtlDt m' p).epfd = epfd ∧ (t'.deserializeEpollCtlDt m' p).op = op ∧
        (t'.deserializeEpollCtlDt m' p).fd = fd) ∧ m.DifferIn m' p 12

/-! ### `poll` -/

/-- The timeout, the number of entries and the entries are read back as they were encoded. -/
theorem loads_serializePollPollfd (m : ByteMem) (p : ℕ) (timeout : BitVec 32) (nfds : BitVec 64)
    (fds : ByteMem) :
  let m' := serializePollPollfd m p ⟨timeout, nfds, some fds⟩
  m'.loadBits 32 p = timeout ∧ m'.loadBits 64 (p + 4) = nfds ∧
    m'.load (p + 12) (8 * nfds.toNat) = fds.load 0 (8 * nfds.toNat)
  := by
  simp only [serializePollPollfd, serializePollfds_eq, Nat.mul_zero, Nat.add_zero]
  refine ⟨?_, ?_, ?_⟩
  · rw [ByteMem.loadBits_store_of_disjoint _ _ _ (Or.inl (by omega)),
      ByteMem.loadBits_storeBits_of_disjoint _ _ _ (Or.inl (by omega)),
      ByteMem.loadBits_storeBits _ _ _ (by decide)]
  · rw [ByteMem.loadBits_store_of_disjoint _ _ _ (Or.inl (by omega)),
      ByteMem.loadBits_storeBits _ _ _ (by decide)]
  · apply ByteMem.load_store

theorem poll_recovered (t t' : Tree) (m : ByteMem) (p : ℕ) (timeout : BitVec 32) (nfds : BitVec 64)
    (fds : ByteMem) (malloc : Bool) (dest : Option ByteMem) :
  PollRecovered timeout nfds fds (dest.isSome || malloc)
    (t'.deserializePollPollfd (t.serializePollPollfd m p ⟨timeout, nfds, some fds⟩) p malloc dest)
  := by
  obtain ⟨htimeout, hnfds, hfds⟩ := loads_serializePollPollfd m p timeout nfds fds
  have hencode : t.serializePollPollfd m p ⟨timeout, nfds, some fds⟩ =
      serializePollPollfd m p ⟨timeout, nfds, some fds⟩ := by
    cases t <;> rfl
  rw [hencode]
  cases dest with
  | none =>
      have hdecode : t'.deserializePollPollfd (serializePollPollfd m p ⟨timeout, nfds, some fds⟩) p
          malloc none = deserializePollPollfd
            (serializePollPollfd m p ⟨timeout, nfds, some fds⟩) p malloc := by
        cases t' <;> rfl
      rw [hdecode]
      constructor
      · apply htimeout
      · apply hnfds
      · cases malloc <;> rfl
      · intro array harray
        cases malloc with
        | false => cases harray
        | true =>
            obtain rfl := Option.some.inj harray
            apply ByteMem.agreeOn_of_load_eq hfds
  | some dest =>
      have hdecode : t'.deserializePollPollfd (serializePollPollfd m p ⟨timeout, nfds, some fds⟩) p
          malloc (some dest) = deserializePollPollfdInto
            (serializePollPollfd m p ⟨timeout, nfds, some fds⟩) p dest := by
        cases t' <;> rfl
      rw [hdecode]
      constructor
      · apply htimeout
      · apply hnfds
      · rfl
      · intro array harray
        obtain rfl := Option.some.inj harray
        rw [hnfds, deserializePollfds_eq]
        simp only [Nat.mul_zero, Nat.add_zero]
        rw [hfds]
        apply ByteMem.agreeOn_store_load

/-! ### `epoll_ctl` -/

/-- The descriptors and the operation are read back as they were stored. -/
theorem loads_storeEpollCtl (m : ByteMem) (p : ℕ) (epfd op fd : BitVec 32) :
  let m' := storeEpollCtl m p epfd op fd
  m'.loadBits 32 p = epfd ∧ m'.loadBits 32 (p + 4) = op ∧ m'.loadBits 32 (p + 8) = fd
  := by
  simp only [storeEpollCtl]
  refine ⟨?_, ?_, ?_⟩
  · rw [ByteMem.loadBits_storeBits_of_disjoint _ _ _ (Or.inl (by omega)),
      ByteMem.loadBits_storeBits_of_disjoint _ _ _ (Or.inl (by omega)),
      ByteMem.loadBits_storeBits _ _ _ (by decide)]
  · rw [ByteMem.loadBits_storeBits_of_disjoint _ _ _ (Or.inl (by omega)),
      ByteMem.loadBits_storeBits _ _ _ (by decide)]
  · apply ByteMem.loadBits_storeBits _ _ _ (by decide)

theorem loads_storeEvent (m : ByteMem) (p : ℕ) (event : EpollEvent) :
  let m' := storeEvent m p event
  m'.loadBits 32 (p + 12) = event.events ∧ m'.loadBits 64 (p + 16) = event.data
  := by
  simp only [storeEvent]
  constructor
  · rw [ByteMem.loadBits_storeBits_of_disjoint _ _ _ (Or.inl (by omega)),
      ByteMem.loadBits_storeBits _ _ _ (by decide)]
  · apply ByteMem.loadBits_storeBits _ _ _ (by decide)

theorem storeEpollCtl_agreeOn (m : ByteMem) {p : ℕ} (epfd op fd : BitVec 32) {q k : ℕ}
    (h : q + k ≤ p ∨ p + 12 ≤ q) :
  (storeEpollCtl m p epfd op fd).AgreeOn m q k
  := by
  apply (ByteMem.agreeOn_store _ _ _ (by omega)).trans
  apply (ByteMem.agreeOn_store _ _ _ (by omega)).trans
  apply ByteMem.agreeOn_store _ _ _ (by omega)

theorem storeEvent_agreeOn (m : ByteMem) {p : ℕ} (event : EpollEvent) {q k : ℕ}
    (h : q + k ≤ p + 12 ∨ p + 24 ≤ q) :
  (storeEvent m p event).AgreeOn m q k
  := by
  apply (ByteMem.agreeOn_store _ _ _ (by omega)).trans
  apply ByteMem.agreeOn_store _ _ _ (by omega)

/-- Either copy decodes the three descriptors and the event from the same bytes. -/
theorem deserializeEpollCtlDt_eq (t : Tree) (m : ByteMem) (p : ℕ) :
  t.deserializeEpollCtlDt m p =
    ⟨m.loadBits 32 p, m.loadBits 32 (p + 4), m.loadBits 32 (p + 8), m.loadBits 32 (p + 12),
      m.loadBits 64 (p + 16)⟩
  := by
  cases t <;> rfl

/-- The event may be stored before the descriptors or behind them. -/
theorem epollCtl_recovered (t t' : Tree) (m : ByteMem) (p : ℕ) (epfd op fd : BitVec 32)
    (event : EpollEvent) :
  t'.deserializeEpollCtlDt (t.serializeEpollCtlDt m p epfd op fd (some event)) p =
    ⟨epfd, op, fd, event.events, event.data⟩
  := by
  rw [deserializeEpollCtlDt_eq]
  cases t with
  | host =>
      have hkeep : ∀ q k, p + 12 ≤ q →
          (storeEpollCtl (storeEvent m p event) p epfd op fd).AgreeOn (storeEvent m p event) q k :=
        fun q k hq => storeEpollCtl_agreeOn _ _ _ _ (Or.inr hq)
      obtain ⟨hepfd, hop, hfd⟩ := loads_storeEpollCtl (storeEvent m p event) p epfd op fd
      obtain ⟨hevents, hdata⟩ := loads_storeEvent m p event
      simp only [Tree.serializeEpollCtlDt, serializeEpollCtlDt]
      rw [hepfd, hop, hfd, (hkeep _ _ (le_refl _)).loadBits, (hkeep _ _ (by omega)).loadBits,
        hevents, hdata]
  | snic =>
      have hkeep : ∀ q k, q + k ≤ p + 12 →
          (storeEvent (storeEpollCtl m p epfd op fd) p event).AgreeOn
            (storeEpollCtl m p epfd op fd) q k :=
        fun q k hq => storeEvent_agreeOn _ _ (Or.inl hq)
      obtain ⟨hepfd, hop, hfd⟩ := loads_storeEpollCtl m p epfd op fd
      obtain ⟨hevents, hdata⟩ := loads_storeEvent (storeEpollCtl m p epfd op fd) p event
      simp only [Tree.serializeEpollCtlDt, snicSerializeEpollCtlDt]
      rw [(hkeep _ _ (by omega)).loadBits, (hkeep _ _ (by omega)).loadBits,
        (hkeep _ _ (by omega)).loadBits, hepfd, hop, hfd, hevents, hdata]

theorem serializeEpollCtlDt_agreeOn (t : Tree) (m : ByteMem) {p : ℕ} (epfd op fd : BitVec 32)
    (event : EpollEvent) {q k : ℕ} (h : q + k ≤ p ∨ p + 24 ≤ q) :
  (t.serializeEpollCtlDt m p epfd op fd (some event)).AgreeOn m q k
  := by
  cases t with
  | host =>
      apply (storeEpollCtl_agreeOn _ _ _ _ (by omega)).trans
      apply storeEvent_agreeOn _ _ (by omega)
  | snic =>
      apply (storeEvent_agreeOn _ _ (by omega)).trans
      apply storeEpollCtl_agreeOn _ _ _ _ (by omega)

/-! ### Socket options and addresses -/

/-- The header and the value are read back as they were encoded. -/
theorem loads_serializeSockoptDt (m : ByteMem) (p : ℕ) (level optname : BitVec 32)
    (optval : ByteMem) (optlen : BitVec 32) :
  let m' := serializeSockoptDt m p level optname optval optlen
  m'.loadBits 32 p = level ∧ m'.loadBits 32 (p + 4) = optname ∧ m'.loadBits 32 (p + 8) = optlen ∧
    m'.load (p + 12) optlen.toNat = optval.load 0 optlen.toNat
  := by
  simp only [serializeSockoptDt]
  refine ⟨?_, ?_, ?_, ?_⟩
  · rw [ByteMem.loadBits_store_of_disjoint _ _ _ (Or.inl (by omega)),
      ByteMem.loadBits_storeBits_of_disjoint _ _ _ (Or.inl (by omega)),
      ByteMem.loadBits_storeBits_of_disjoint _ _ _ (Or.inl (by omega)),
      ByteMem.loadBits_storeBits _ _ _ (by decide)]
  · rw [ByteMem.loadBits_store_of_disjoint _ _ _ (Or.inl (by omega)),
      ByteMem.loadBits_storeBits_of_disjoint _ _ _ (Or.inl (by omega)),
      ByteMem.loadBits_storeBits _ _ _ (by decide)]
  · rw [ByteMem.loadBits_store_of_disjoint _ _ _ (Or.inl (by omega)),
      ByteMem.loadBits_storeBits _ _ _ (by decide)]
  · apply ByteMem.load_store

/-- A value that is not empty is decoded into a buffer allocated for it. -/
theorem sockopt_recovered (t t' : Tree) (m : ByteMem) (p : ℕ) (level optname : BitVec 32)
    (optval : ByteMem) (optlen : BitVec 32) (malloc : Bool) (hpos : 1 ≤ optlen.toNat) :
  SockoptRecovered level optname optval optlen malloc
    (t'.deserializeSockoptDt (t.serializeSockoptDt m p level optname optval optlen) p malloc)
  := by
  have hencode : t.serializeSockoptDt m p level optname optval optlen =
      serializeSockoptDt m p level optname optval optlen := by
    cases t <;> rfl
  have hdecode : ∀ m', t'.deserializeSockoptDt m' p malloc = deserializeSockoptDt m' p malloc := by
    intro m'
    cases t' <;> rfl
  obtain ⟨hlevel, hoptname, hoptlen, hvalue⟩ :=
    loads_serializeSockoptDt m p level optname optval optlen
  have hne : optlen ≠ 0 := by
    rintro rfl
    cases hpos
  rw [hencode, hdecode]
  cases malloc with
  | false =>
      constructor
      · apply hlevel
      · apply hoptname
      · apply hoptlen
      · simp [deserializeSockoptDt]
      · simp [deserializeSockoptDt]
  | true =>
      have hbuffer : (deserializeSockoptDt
          (serializeSockoptDt m p level optname optval optlen) p true).optval =
            some fun j => serializeSockoptDt m p level optname optval optlen (p + 12 + j) := by
        simp only [deserializeSockoptDt, hoptlen]
        apply if_pos ⟨hne, trivial⟩
      constructor
      · apply hlevel
      · apply hoptname
      · apply hoptlen
      · rw [hbuffer]
        rfl
      · intro value hsome
        rw [hbuffer] at hsome
        obtain rfl := Option.some.inj hsome
        apply ByteMem.agreeOn_of_load_eq hvalue

/-- The length is the first word of an address that was encoded. -/
theorem addrlen_serializeAddrDt (m : ByteMem) (p : ℕ) (a : AddrArgs) :
  (serializeAddrDt m p a).loadBits 32 p = a.addrlen
  := by
  rw [serializeAddrDt, ByteMem.loadBits_store_of_disjoint _ _ _ (Or.inl (by omega)),
    ByteMem.loadBits_storeBits _ _ _ (by decide)]

theorem addr_recovered (t t' : Tree) (m : ByteMem) (p : ℕ) (a : AddrArgs) :
  t'.deserializeAddrDt (t.serializeAddrDt m p a) p = a
  := by
  have hencode : t.serializeAddrDt m p a = serializeAddrDt m p a := by
    cases t <;> rfl
  have hdecode : ∀ m', t'.deserializeAddrDt m' p = deserializeAddrDt m' p := by
    intro m'
    cases t' <;> rfl
  have haddr : (serializeAddrDt m p a).load (p + 4) 16 = a.addr := ByteMem.load_store _ _ _
  rw [hencode, hdecode, deserializeAddrDt, addrlen_serializeAddrDt, haddr]

/-! ### The formats together -/

/-- What either copy encodes in the formats of `poll`, `epoll_ctl`, the socket options and the
socket addresses, either copy decodes. -/
theorem codecs_interoperate (t t' : Tree) (m : ByteMem) (p : ℕ) :
  Interoperate t t' m p
  := by
  constructor
  case poll =>
    intro timeout nfds fds malloc dest _
    use poll_recovered t t' m p timeout nfds fds malloc dest
    apply ByteMem.differIn_of_agreeOn
    intro q k h
    rw [← Nat.add_assoc] at h
    have hframe : (serializePollPollfd m p ⟨timeout, nfds, some fds⟩).AgreeOn m q k :=
      serializePollPollfd_agreeOn m ⟨timeout, nfds, some fds⟩ h
    cases t <;> apply hframe
  case epollCtl =>
    intro epfd op fd event
    use epollCtl_recovered t t' m p epfd op fd event
    apply ByteMem.differIn_of_agreeOn
    intro q k h
    apply serializeEpollCtlDt_agreeOn _ _ _ _ _ _ h
  case sockopt =>
    intro level optname optval optlen malloc hpos _
    use sockopt_recovered t t' m p level optname optval optlen malloc hpos
    apply ByteMem.differIn_of_agreeOn
    intro q k h
    have hframe : (serializeSockoptDt m p level optname optval optlen).AgreeOn m q k :=
      serializeSockoptDt_agreeOn _ _ _ _ _ (by omega)
    cases t <;> apply hframe
  case addr =>
    intro a
    use addr_recovered t t' m p a
    apply ByteMem.differIn_of_agreeOn
    intro q k h
    have hframe : (serializeAddrDt m p a).AgreeOn m q k := serializeAddrDt_agreeOn _ _ h
    cases t <;> apply hframe
  case nullEvent =>
    intro epfd op fd
    simp only [deserializeEpollCtlDt_eq]
    use loads_storeEpollCtl m p epfd op fd
    apply ByteMem.differIn_of_agreeOn
    intro q k h
    apply storeEpollCtl_agreeOn _ _ _ _ h

/-! ### `select` -/

/-- Whatever the destinations held, the decoder recovers the number of descriptors, fills those of
the arguments that were present, and leaves the others. -/
def SelectRoundTrip (m : ByteMem) (p : ℕ) (a : SelectArgs) : Prop :=
  ∀ nfds rd wr ex tm,
    deserializeSelectFdSet (serializeSelectFdSet m p a) p ⟨nfds, some rd, some wr, some ex, some tm⟩
      = ⟨a.nfds, some (a.readfds.getD rd), some (a.writefds.getD wr), some (a.exceptfds.getD ex),
          some (a.timeout.getD tm)⟩

/-- The arguments are a first part of the four, and the flag does not change the read set. -/
structure SelectArgs.Decodable (a : SelectArgs) : Prop where
  writefds : a.writefds.isSome → a.readfds.isSome
  exceptfds : a.exceptfds.isSome → a.writefds.isSome
  timeout : a.timeout.isSome → a.exceptfds.isSome
  overlaps : ∀ rd, a.readfds = some rd →
    rd 0 = (if a.writefds.isSome then 4 else 3) ∧ rd 1 = 0 ∧ rd 2 = 0

/-- The digits of the flag, as the decoder takes them off: each is seen only behind the others. -/
theorem flag_digits (a : SelectArgs) :
  (a.flag.toInt.tdiv 1000 = 1 ↔ a.readfds.isSome) ∧
    ((a.flag.toInt - 1000).tdiv 100 = 1 ↔ a.readfds.isSome ∧ a.writefds.isSome) ∧
    ((a.flag.toInt - 1100).tdiv 10 = 1 ↔
      a.readfds.isSome ∧ a.writefds.isSome ∧ a.exceptfds.isSome) ∧
    (a.flag.toInt - 1110 = 1 ↔
      a.readfds.isSome ∧ a.writefds.isSome ∧ a.exceptfds.isSome ∧ a.timeout.isSome)
  := by
  unfold SelectArgs.flag
  generalize a.readfds.isSome = r, a.writefds.isSome = w, a.exceptfds.isSome = e,
    a.timeout.isSome = t
  revert r w e t
  decide

theorem flag_eq_zero (a : SelectArgs) (h : a.flag.toInt = 0) :
  a.readfds.isSome = false ∧ a.writefds.isSome = false ∧ a.exceptfds.isSome = false ∧
    a.timeout.isSome = false
  := by
  revert h
  unfold SelectArgs.flag
  generalize a.readfds.isSome = r, a.writefds.isSome = w, a.exceptfds.isSome = e,
    a.timeout.isSome = t
  revert r w e t
  decide

/-- The bytes of the flag that lie over the read set. -/
theorem flag_overlay (a : SelectArgs) (h : a.readfds.isSome) :
  ∀ i : Fin 3, Block.ofNat 4 a.flag.toNat i.succ =
    if i.val = 0 then (if a.writefds.isSome then 4 else 3) else 0
  := by
  revert h
  unfold SelectArgs.flag
  generalize a.readfds.isSome = r, a.writefds.isSome = w, a.exceptfds.isSome = e,
    a.timeout.isSome = t
  revert r w e t
  decide

/-- The read set with the upper bytes of the flag over its first bytes. -/
def overlay (flag : BitVec 32) (rd : Block 128) : Block 128 :=
  fun i => if h : i.val < 3 then Block.ofNat 4 flag.toNat ⟨i.val + 1, by omega⟩ else rd i

theorem load_storeBits_overlay (m : ByteMem) (p : ℕ) (flag : BitVec 32) :
  (m.storeBits (p + 4) flag).load (p + 5) 128 = overlay flag (m.load (p + 5) 128)
  := by
  funext i
  simp only [ByteMem.load, ByteMem.storeBits, ByteMem.store, overlay]
  by_cases hlt : i.val < 3
  · have hindex : p + 5 + i.val - (p + 4) = i.val + 1 := by omega
    rw [dif_pos (by omega), dif_pos hlt]
    simp only [hindex]
  · rw [dif_neg (by omega), dif_neg hlt]

/-- The bytes of an encoded `select`; zeros stand for what is absent. -/
theorem loads_serializeSelectFdSet (m : ByteMem) (p : ℕ) (a : SelectArgs) :
  let m' := serializeSelectFdSet m p a
  m'.loadBits 32 p = a.nfds ∧ m'.loadBits 32 (p + 4) = a.flag ∧
    m'.load (p + 5) 128 = overlay a.flag (a.readfds.getD (Block.fill 128 0)) ∧
    m'.load (p + 133) 128 = a.writefds.getD (Block.fill 128 0) ∧
    m'.load (p + 261) 128 = a.exceptfds.getD (Block.fill 128 0) ∧
    m'.load (p + 389) 16 = a.timeout.getD (Block.fill 16 0)
  := by
  simp only [serializeSelectFdSet, storeOrZero]
  refine ⟨?_, ?_, ?_, ?_, ?_, ?_⟩
  · rw [ByteMem.loadBits_storeBits_of_disjoint _ _ _ (Or.inl (by omega)),
      ByteMem.loadBits_store_of_disjoint _ _ _ (by omega),
      ByteMem.loadBits_store_of_disjoint _ _ _ (by omega),
      ByteMem.loadBits_store_of_disjoint _ _ _ (by omega),
      ByteMem.loadBits_store_of_disjoint _ _ _ (by omega)]
    apply ByteMem.loadBits_storeBits _ _ _ (by decide)
  · apply ByteMem.loadBits_storeBits _ _ _ (by decide)
  · rw [load_storeBits_overlay, ByteMem.load_store_of_disjoint _ _ _ (by omega),
      ByteMem.load_store_of_disjoint _ _ _ (by omega),
      ByteMem.load_store_of_disjoint _ _ _ (by omega), ByteMem.load_store]
  · rw [ByteMem.storeBits, ByteMem.load_store_of_disjoint _ _ _ (by omega),
      ByteMem.load_store_of_disjoint _ _ _ (by omega),
      ByteMem.load_store_of_disjoint _ _ _ (by omega), ByteMem.load_store]
  · rw [ByteMem.storeBits, ByteMem.load_store_of_disjoint _ _ _ (by omega),
      ByteMem.load_store_of_disjoint _ _ _ (by omega), ByteMem.load_store]
  · rw [ByteMem.storeBits, ByteMem.load_store_of_disjoint _ _ _ (by omega), ByteMem.load_store]

/-- A destination is overwritten when the digit says so. -/
theorem loadIf_some {n : ℕ} (present : Prop) [Decidable present] (m : ByteMem) (p : ℕ)
    (b : Block n) :
  loadIf present m p (some b) = some (if present then m.load p n else b)
  := by
  unfold loadIf
  split <;> rfl

/-- An object that is read where it is present, if the earlier ones are there. -/
theorem ite_isSome_getD {n : ℕ} (earlier : Prop) [Decidable earlier] (o : Option (Block n))
    (zero b : Block n) :
  (if earlier ∧ o.isSome then o.getD zero else b) = if earlier then o.getD b else b
  := by
  cases o with
  | none => simp
  | some x => simp

/-- What the decoder leaves in its destinations: an argument is decoded only if those before it were
present. -/
theorem deserialize_serializeSelectFdSet (m : ByteMem) (p : ℕ) (a : SelectArgs) (nfds : BitVec 32)
    (rd wr ex : Block 128) (tm : Block 16) :
  deserializeSelectFdSet (serializeSelectFdSet m p a) p ⟨nfds, some rd, some wr, some ex, some tm⟩ =
    { nfds := a.nfds
      readfds := some ((a.readfds.map (overlay a.flag)).getD rd)
      writefds := some (if a.readfds.isSome then a.writefds.getD wr else wr)
      exceptfds :=
        some (if a.readfds.isSome ∧ a.writefds.isSome then a.exceptfds.getD ex else ex)
      timeout :=
        some (if a.readfds.isSome ∧ a.writefds.isSome ∧ a.exceptfds.isSome then a.timeout.getD tm
          else tm) }
  := by
  obtain ⟨hnfds, hflag, hrd, hwr, hex, htm⟩ := loads_serializeSelectFdSet m p a
  obtain ⟨hdrd, hdwr, hdex, hdtm⟩ := flag_digits a
  simp only [deserializeSelectFdSet, hnfds, hflag]
  split
  case isTrue hzero =>
    obtain ⟨hr, hw, he, -⟩ := flag_eq_zero a hzero
    rw [Option.isSome_eq_false_iff, Option.isNone_iff_eq_none] at hr hw he
    simp [hr, hw, he]
  case isFalse =>
    simp only [loadIf_some, hrd, hwr, hex, htm, hdrd, hdwr, hdex, hdtm]
    have hread : (if a.readfds.isSome then overlay a.flag (a.readfds.getD (Block.fill 128 0))
        else rd) = (a.readfds.map (overlay a.flag)).getD rd := by
      cases a.readfds with
      | none => rfl
      | some x => rfl
    rw [hread, ite_isSome_getD]
    simp only [← and_assoc]
    rw [ite_isSome_getD, ite_isSome_getD]

/-- An object that no choice of another one can change is absent. -/
theorem eq_none_of_getD {n : ℕ} {o : Option (Block (n + 1))} (h : ∀ b, o.getD b = b) :
  o = none
  := by
  cases o with
  | none => rfl
  | some x =>
      have hbyte : x 0 = if x 0 = 0 then 1 else 0 := congrFun (h fun i => if x i = 0 then 1 else 0) 0
      split at hbyte
      case isTrue hzero =>
        rw [hzero] at hbyte
        cases hbyte
      case isFalse hne => cases hne hbyte

/-- An object that is decoded behind others arrives, over whatever was there, exactly when it comes
with the others. -/
theorem ite_getD_eq_iff {n : ℕ} (earlier : Prop) [Decidable earlier] (o : Option (Block (n + 1))) :
  (∀ b, (if earlier then o.getD b else b) = o.getD b) ↔ (o.isSome → earlier)
  := by
  constructor
  · intro h hsome
    by_contra hearlier
    have habsent : o = none := by
      apply eq_none_of_getD
      intro b
      have hb := h b
      rw [if_neg hearlier] at hb
      apply hb.symm
    rw [habsent] at hsome
    cases hsome
  · intro h b
    split
    case isTrue => rfl
    case isFalse hearlier =>
      have habsent := mt h hearlier
      rw [Option.not_isSome_iff_eq_none] at habsent
      rw [habsent]
      rfl

/-- The flag changes nothing of a read set that starts with its upper bytes. -/
theorem overlay_eq_iff (a : SelectArgs) {rd : Block 128} (h : a.readfds = some rd) :
  overlay a.flag rd = rd ↔
    rd 0 = (if a.writefds.isSome then 4 else 3) ∧ rd 1 = 0 ∧ rd 2 = 0
  := by
  have hbytes := flag_overlay a (by rw [h, Option.isSome_some])
  constructor
  · intro hrd
    have h0 : overlay a.flag rd 0 = _ := hbytes 0
    have h1 : overlay a.flag rd 1 = _ := hbytes 1
    have h2 : overlay a.flag rd 2 = _ := hbytes 2
    rw [hrd] at h0 h1 h2
    exact ⟨h0, h1, h2⟩
  · rintro ⟨h0, h1, h2⟩
    funext i
    simp only [overlay]
    split
    case isTrue hi =>
      have hbyte := hbytes ⟨i.val, hi⟩
      have hcases : i = 0 ∨ i = 1 ∨ i = 2 := by
        simp only [Fin.ext_iff, Fin.val_zero, Fin.val_one, Fin.val_two]
        omega
      obtain rfl | rfl | rfl := hcases
      · rw [h0]
        apply hbyte
      · rw [h1]
        apply hbyte
      · rw [h2]
        apply hbyte
    case isFalse => rfl

/-- What was encoded for `select` is decoded as it was exactly when the arguments are a first part
of the four and the flag does not change the read set. -/
theorem select_roundTrip_iff (m : ByteMem) (p : ℕ) (a : SelectArgs) :
  SelectRoundTrip m p a ↔ a.Decodable
  := by
  simp only [SelectRoundTrip, deserialize_serializeSelectFdSet, SelectArgs.mk.injEq, true_and,
    Option.some.injEq]
  let z := Block.fill 128 0
  let t := Block.fill 16 0
  constructor
  · intro h
    have hwr := (ite_getD_eq_iff _ a.writefds).mp fun b => (h 0 z b z t).2.1
    have hex := (ite_getD_eq_iff _ a.exceptfds).mp fun b => (h 0 z z b t).2.2.1
    have htm := (ite_getD_eq_iff _ a.timeout).mp fun b => (h 0 z z z b).2.2.2
    refine ⟨hwr, fun h => (hex h).2, fun h => (htm h).2.2, fun rd hrd => ?_⟩
    apply (overlay_eq_iff a hrd).mp
    have hread := (h 0 z z z t).1
    rw [hrd] at hread
    apply hread
  · intro h nfds rd wr ex tm
    have hex : a.exceptfds.isSome → a.readfds.isSome ∧ a.writefds.isSome :=
      fun hex => ⟨h.writefds (h.exceptfds hex), h.exceptfds hex⟩
    have htm : a.timeout.isSome → a.readfds.isSome ∧ a.writefds.isSome ∧ a.exceptfds.isSome :=
      fun htm => ⟨(hex (h.timeout htm)).1, (hex (h.timeout htm)).2, h.timeout htm⟩
    refine ⟨?_, (ite_getD_eq_iff _ _).mpr h.writefds wr, (ite_getD_eq_iff _ _).mpr hex ex,
      (ite_getD_eq_iff _ _).mpr htm tm⟩
    cases hrd : a.readfds with
    | none => rfl
    | some x => apply (overlay_eq_iff a hrd).mpr (h.overlaps x hrd)

/-- The descriptor `5` in the set to be written, and no other set. -/
def fiveToWrite : SelectArgs :=
  ⟨6#32, none, some fun i => if i.val = 0 then 32 else 0, none, none⟩

/-- The destination of the set to be written stays empty. -/
theorem write_only_select_not_roundTrip :
  (deserializeSelectFdSet (serializeSelectFdSet zeros reqData fiveToWrite) reqData
      ⟨0, some (.fill 128 0), some (.fill 128 0), some (.fill 128 0), some (.fill 16 0)⟩).writefds =
    some (.fill 128 0) ∧
  ¬ SelectRoundTrip zeros reqData fiveToWrite
  := by
  constructor
  · rw [deserialize_serializeSelectFdSet]
    rfl
  · intro h
    have hdecoded := h 0 (Block.fill 128 0) (Block.fill 128 0) (Block.fill 128 0) (Block.fill 16 0)
    rw [deserialize_serializeSelectFdSet] at hdecoded
    cases congrFun (Option.some.inj (congrArg SelectArgs.writefds hdecoded)) 0

/-! ### `fcntl` -/

/-- The commands for which `req_fcntl` takes an `int`. -/
def GathersInt (cmd : BitVec 32) : Prop :=
  cmd = fSetfd ∨ cmd = fSetfl ∨ cmd = fDupfd ∨ cmd = fDupfdCloexec ∨ cmd = fSetown ∨
    cmd = fSetpipeSz

/-- The commands for which `req_fcntl` takes a `struct flock`. -/
def GathersFlock (cmd : BitVec 32) : Prop :=
  cmd = fGetlk ∨ cmd = fSetlk ∨ cmd = fSetlkw

/-- The commands for which the encoder drops the argument that `req_fcntl` takes. -/
def DropsArg (cmd : BitVec 32) : Prop :=
  cmd = fDupfdCloexec ∨ cmd = fSetown ∨ cmd = fSetpipeSz

instance : DecidablePred GathersInt := fun cmd => by
  unfold GathersInt
  infer_instance

instance : DecidablePred GathersFlock := fun cmd => by
  unfold GathersFlock
  infer_instance

/-- The argument `req_fcntl` takes for a command: an `int` for the commands it does not know as
well. -/
def gatheredArg (cmd x : BitVec 32) (fl : Block 32) : FcntlArg :=
  if GathersInt cmd then .int x
  else if GathersFlock cmd then .flock fl
  else .int x

/-- The decoder gave back the command, the argument if the hook takes one, and none for the two
commands that have none. -/
structure FcntlRecovered (cmd : BitVec 32) (arg : FcntlArg) (a : FcntlArgs) : Prop where
  cmd_eq : a.cmd = cmd
  some_arg : GathersInt cmd ∨ GathersFlock cmd → a.arg = some arg
  no_arg : cmd = fGetfd ∨ cmd = fGetfl → a.arg = none

/-- The three classifications of the commands. -/
theorem fcntlFlag_cases (cmd x : BitVec 32) (fl : Block 32) :
  (fcntlFlag cmd = 1 ∧ GathersInt cmd ∧ gatheredArg cmd x fl = .int x) ∨
    (fcntlFlag cmd = 2 ∧ GathersFlock cmd ∧ gatheredArg cmd x fl = .flock fl) ∨
    (fcntlFlag cmd = 0 ∧ (GathersInt cmd ∨ GathersFlock cmd → DropsArg cmd))
  := by
  by_cases hint : GathersInt cmd
  · rw [gatheredArg, if_pos hint]
    obtain rfl | rfl | rfl | hdrop := id hint
    · left
      exact ⟨rfl, hint, rfl⟩
    · left
      exact ⟨rfl, hint, rfl⟩
    · left
      exact ⟨rfl, hint, rfl⟩
    · right
      right
      constructor
      · obtain rfl | rfl | rfl := hdrop <;> rfl
      · intro _
        apply hdrop
  · by_cases hflock : GathersFlock cmd
    · rw [gatheredArg, if_neg hint, if_pos hflock]
      right
      left
      refine ⟨?_, hflock, rfl⟩
      obtain rfl | rfl | rfl := hflock <;> rfl
    · right
      right
      constructor
      · rw [fcntlFlag]
        split
        · rfl
        · rw [if_neg, if_neg]
          · apply hflock
          · rintro (h | h | h)
            · apply hint (Or.inl h)
            · apply hint (Or.inr (Or.inl h))
            · apply hint (Or.inr (Or.inr (Or.inl h)))
      · rintro (h | h)
        · cases hint h
        · cases hflock h

theorem fcntlFlag_of_dropsArg {cmd : BitVec 32} (h : DropsArg cmd) :
  fcntlFlag cmd = 0 ∧ GathersInt cmd
  := by
  obtain rfl | rfl | rfl := h <;> decide

/-- The encoder passes on the arguments that the hook takes, except those that are dropped. -/
theorem fcntlFlag_ne_zero_iff (cmd : BitVec 32) :
  fcntlFlag cmd ≠ 0 ↔ (GathersInt cmd ∨ GathersFlock cmd) ∧ ¬ DropsArg cmd
  := by
  constructor
  · intro hne
    constructor
    · obtain ⟨-, hint, -⟩ | ⟨-, hflock, -⟩ | ⟨hzero, -⟩ := fcntlFlag_cases cmd 0 (Block.fill 32 0)
      · left
        apply hint
      · right
        apply hflock
      · cases hne hzero
    · intro hdrop
      apply hne (fcntlFlag_of_dropsArg hdrop).1
  · rintro ⟨hgathers, hdrop⟩ hzero
    obtain ⟨hone, -⟩ | ⟨htwo, -⟩ | ⟨-, hdrops⟩ := fcntlFlag_cases cmd 0 (Block.fill 32 0)
    · rw [hzero] at hone
      cases hone
    · rw [hzero] at htwo
      cases htwo
    · apply hdrop (hdrops hgathers)

/-- The command, the flag and the bytes of the argument are read back as they were encoded. -/
theorem loads_serializeFcntlDt (m : ByteMem) (p : ℕ) (cmd : BitVec 32) (arg : FcntlArg) :
  let m' := (serializeFcntlDt m p cmd arg).1
  m'.loadBits 32 p = cmd ∧ m'.loadBits 32 (p + 4) = fcntlFlag cmd ∧
    ∀ k, m'.AgreeOn (if fcntlFlag cmd = 0 then m else arg.store m (p + 8)) (p + 8) k
  := by
  simp only [serializeFcntlDt]
  refine ⟨?_, ?_, ?_⟩
  · rw [ByteMem.loadBits_storeBits_of_disjoint _ _ _ (Or.inl (by omega)),
      ByteMem.loadBits_storeBits _ _ _ (by decide)]
  · apply ByteMem.loadBits_storeBits _ _ _ (by decide)
  · intro k
    apply (ByteMem.agreeOn_store _ _ _ (Or.inr (by omega))).trans
    apply ByteMem.agreeOn_store _ _ _ (Or.inr (by omega))

/-- What the decoder makes of an encoded command: it has an argument if the flag is set and the
memory for it could be allocated. -/
theorem deserialize_serializeFcntlDt (m : ByteMem) (p : ℕ) (cmd x : BitVec 32) (fl : Block 32)
    (malloc : Bool) :
  deserializeFcntlDt (serializeFcntlDt m p cmd (gatheredArg cmd x fl)).1 p malloc =
    { flag := fcntlFlag cmd
      cmd := cmd
      arg := if fcntlFlag cmd ≠ 0 ∧ malloc then some (gatheredArg cmd x fl) else none }
  := by
  obtain ⟨hcmd, hflag, harg⟩ := loads_serializeFcntlDt m p cmd (gatheredArg cmd x fl)
  simp only [deserializeFcntlDt, hcmd, hflag]
  obtain ⟨hone, -, hint⟩ | ⟨htwo, -, hflock⟩ | ⟨hzero, -⟩ := fcntlFlag_cases cmd x fl
  · rw [hint, hone, if_neg (by decide)] at harg
    rw [hint, (harg 4).loadBits, FcntlArg.store, ByteMem.loadBits_storeBits _ _ _ (by decide), hone]
    simp
  · rw [hflock, htwo, if_neg (by decide)] at harg
    rw [hflock, (harg 32).load, FcntlArg.store, ByteMem.load_store, htwo]
    simp
  · rw [hzero]
    simp

/-- What was encoded for `fcntl` is decoded as the hook took it exactly when the command is not one
of the three whose argument is dropped, and the memory for an encoded argument can be allocated. -/
theorem fcntl_roundTrip_iff (m : ByteMem) (p : ℕ) (cmd x : BitVec 32) (fl : Block 32)
    (malloc : Bool) :
  FcntlRecovered cmd (gatheredArg cmd x fl)
      (deserializeFcntlDt (serializeFcntlDt m p cmd (gatheredArg cmd x fl)).1 p malloc) ↔
    ¬ DropsArg cmd ∧ (fcntlFlag cmd ≠ 0 → malloc)
  := by
  rw [deserialize_serializeFcntlDt]
  constructor
  · intro h
    constructor
    · intro hdrop
      obtain ⟨hzero, hint⟩ := fcntlFlag_of_dropsArg hdrop
      have harg := h.some_arg (Or.inl hint)
      rw [hzero] at harg
      cases harg
    · intro hflag
      have harg := h.some_arg ((fcntlFlag_ne_zero_iff cmd).mp hflag).1
      simp only at harg
      split at harg
      case isTrue hboth => apply hboth.2
      case isFalse => cases harg
  · rintro ⟨hdrop, hmalloc⟩
    constructor
    · rfl
    · intro hgathers
      have hflag := (fcntlFlag_ne_zero_iff cmd).mpr ⟨hgathers, hdrop⟩
      apply if_pos ⟨hflag, hmalloc hflag⟩
    · intro hnone
      have hzero : fcntlFlag cmd = 0 := if_pos hnone
      rw [hzero]
      rfl

/-- The argument of `F_DUPFD_CLOEXEC` is not decoded. -/
theorem dupfd_cloexec_not_recovered :
  (deserializeFcntlDt (serializeFcntlDt zeros reqData fDupfdCloexec (.int 10)).1 reqData true).arg =
    none ∧
  ¬ FcntlRecovered fDupfdCloexec (.int 10)
    (deserializeFcntlDt (serializeFcntlDt zeros reqData fDupfdCloexec (.int 10)).1 reqData true)
  := by
  have hdecoded :=
    deserialize_serializeFcntlDt zeros reqData fDupfdCloexec 10 (Block.fill 32 0) true
  rw [show gatheredArg fDupfdCloexec 10 (Block.fill 32 0) = .int 10 from rfl] at hdecoded
  rw [hdecoded]
  constructor
  · rfl
  · intro h
    have harg := h.some_arg (by decide)
    cases harg

end SocketToRdma
