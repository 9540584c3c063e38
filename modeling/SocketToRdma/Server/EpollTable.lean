import Mathlib.Data.Finset.Basic
import SocketToRdma.Lib.Run
import SocketToRdma.Server.Contract
import SocketToRdma.Table.Live

/-!
# The table of the epoll descriptors

`sock_ht` is to hold one entry for every epoll descriptor that the server created and did not close
yet. `rdma_req_event` enters a descriptor when `EPOLL_CREATE1` returns it. `CLOSE` closes the
descriptor and leaves its entry, so the table is right after every request of a run exactly when no
epoll descriptor is closed in it, and no entry fails to be allocated.
-/

namespace SocketToRdma

open Run

/-- The descriptors that a trace enters into `sock_ht`, in order. -/
def entered (trace : List Event) : List (BitVec 32) :=
  trace.filterMap fun
    | (.socketInsertByValue epfd, _) => some epfd
    | _ => none

/-- A request: the `client_r_info` of its connection, what its thread meets, the allocator of the
nodes of the table, and the address of the `socket_info` that is allocated for it. -/
structure TableReq where
  cInfo : ClientRInfo
  env : ServerEnv
  malloc : Malloc 64
  sockInfo : BitVec 64

/-- The trace of the request. -/
def TableReq.trace (a : TableReq) : List Event :=
  (rdmaReqEvent a.env (.start a.cInfo)).trace

/-- The table of the server, and the epoll descriptors that were created and not closed since. -/
structure SockState where
  sockHt : SocketHashTable
  opened : Finset (BitVec 32)

namespace SockState

/-- The server starts with an empty table. -/
def init : SockState :=
  ⟨createSocketHashTable, ∅⟩

/-- The open epoll descriptors after a system call. -/
def openedAfter (o : Outcome) (opened : Finset (BitVec 32)) : Syscall → Finset (BitVec 32)
  | .epollCreate1 _ => if o.int.toInt < 0 then opened else insert o.int opened
  | .close sockfd => if o.int.toInt < 0 then opened else opened.erase sockfd
  | _ => opened

/-- The state after a request. -/
def serve (s : SockState) (a : TableReq) : SockState where
  sockHt := (entered a.trace).foldl
    (fun sockHt epfd => (socketInsertByValue a.malloc sockHt epfd a.sockInfo).1) s.sockHt
  opened := (calls a.trace).foldl (openedAfter a.env.outcome) s.opened

/-- Every request is served. -/
def step (s : SockState) (a : TableReq) : Option SockState :=
  some (s.serve a)

/-- The kernel does not return an epoll descriptor that is still open. -/
def Consistent (s : SockState) (a : TableReq) : Prop :=
  ∀ flags, .epollCreate1 flags ∈ calls a.trace → 0 ≤ a.env.outcome.int.toInt →
    a.env.outcome.int ∉ s.opened

/-- The number of entries of the descriptor in the table. -/
def entries (s : SockState) (d : BitVec 32) : ℕ :=
  s.sockHt.count fun node => node.key == d

/-- The table holds one entry for every open epoll descriptor, and no other entry. -/
def Tracks (s : SockState) : Prop :=
  ∀ d, s.entries d = if d ∈ s.opened then 1 else 0

/-- The table is right after the request. -/
def TracksAfter (s : SockState) (a : TableReq) : Prop :=
  (s.serve a).Tracks

/-- The request closes no epoll descriptor, and the node of one that it creates is allocated. -/
def Paired (s : SockState) (a : TableReq) : Prop :=
  (a.cInfo.request = some .close → 0 ≤ a.env.outcome.int.toInt → a.cInfo.sockfd ∉ s.opened) ∧
    (a.cInfo.request = some .epollCreate1 → 0 ≤ a.env.outcome.int.toInt →
      a.malloc.pick s.sockHt.heap ≠ none)

end SockState

/-! ### What a request enters -/

@[simp]
theorem entered_reply (env : ServerEnv) (x : Exec) :
  entered (reply env x).trace = entered x.trace
  := by
  apply filterMap_reply
  rintro ⟨a, m⟩ (hpost | rfl)
  · cases a with
    | postSend => rfl
    | _ => contradiction
  · rfl

@[simp]
theorem entered_assign (x : Exec) (m : ByteMem) :
  entered (x.assign m).trace = entered x.trace
  := by
  rw [Exec.assign_trace, entered, List.filterMap_append]
  apply List.append_nil

/-- An action other than an insertion enters nothing. -/
theorem entered_act (x : Exec) {a : ServerAct} (ha : ∀ epfd, a ≠ .socketInsertByValue epfd) :
  entered (x.act a).trace = entered x.trace
  := by
  rw [Exec.act, entered, List.filterMap_append]
  cases a with
  | socketInsertByValue epfd => cases ha epfd rfl
  | _ => apply List.append_nil

@[simp]
theorem entered_start (c : ClientRInfo) :
  entered (Exec.start c).trace = []
  := rfl

@[simp]
theorem entered_handled (c : ClientRInfo) (hd : Handled) :
  entered ((Exec.start c).handled hd).trace = []
  := by
  rw [handled_trace, entered, List.filterMap_append, List.filterMap_map]
  simp

@[simp]
theorem entered_setSockfd (x : Exec) (sockfd : BitVec 32) :
  entered (x.setSockfd sockfd).trace = entered x.trace
  := rfl

/-- The branch of `EPOLL_CREATE1`. -/
theorem serve_epollCreate1 (env : ServerEnv) (c : ClientRInfo) :
  serve env (.start c) (some .epollCreate1) =
    if env.outcome.int.toInt < 0 then
      reply env ((Exec.start c).handled (sockEpollCreate1 env.toHandlerEnv c.mem))
    else
      (reply env (((Exec.start c).handled (sockEpollCreate1 env.toHandlerEnv c.mem)).setSockfd
        env.outcome.int)).act (.socketInsertByValue env.outcome.int)
  := rfl

/-- `EPOLL_CREATE1` enters the descriptor that it created, another request none. -/
theorem entered_serve (req : Option RdmaReq) (env : ServerEnv) (c : ClientRInfo) :
  entered (serve env (.start c) req).trace =
    if req = some .epollCreate1 ∧ 0 ≤ env.outcome.int.toInt then [env.outcome.int] else []
  := by
  cases req with
  | none => simp [serve]
  | some req =>
      cases req with
      | epollCreate1 =>
          rw [serve_epollCreate1]
          by_cases hret : env.outcome.int.toInt < 0
          · rw [if_pos hret, entered_reply, entered_handled,
              if_neg fun h => absurd hret (not_lt.mpr h.2)]
          · rw [if_neg hret, Exec.act, entered, List.filterMap_append, ← entered, entered_reply,
              entered_setSockfd, entered_handled, if_pos ⟨rfl, not_lt.mp hret⟩]
            rfl
      | newRdmaConn =>
          by_cases hconnect : env.connect = 0#32
          · simp [serve, hconnect, entered_act]
          · simp [serve, hconnect, entered_act]
      | delRdmaConn =>
          by_cases hgone : env.disconnected
          · simp [serve, hgone, entered_act]
          · simp [serve, hgone]
      | _ => simp [serve]

/-! ### The calls of a request -/

@[simp]
theorem calls_start (c : ClientRInfo) :
  calls (Exec.start c).trace = []
  := rfl

@[simp]
theorem calls_setSockfd (x : Exec) (sockfd : BitVec 32) :
  calls (x.setSockfd sockfd).trace = calls x.trace
  := rfl

/-- An action other than a system call is none. -/
theorem calls_act (x : Exec) {a : ServerAct} (ha : ∀ call, a ≠ .syscall call) :
  calls (x.act a).trace = calls x.trace
  := by
  rw [Exec.act, calls, List.filterMap_append]
  cases a with
  | syscall call => cases ha call rfl
  | _ => apply List.append_nil

/-- `EPOLL_CREATE1` executes `epoll_create1`. -/
theorem calls_epollCreate1 (env : ServerEnv) (c : ClientRInfo) :
  calls (serve env (.start c) (some .epollCreate1)).trace =
    [.epollCreate1 (deserializeEpollCreateDt c.mem reqData)]
  := by
  rw [serve_epollCreate1]
  split
  case isTrue =>
    rw [calls_reply, calls_handled]
    rfl
  case isFalse =>
    rw [calls_act _ (by simp), calls_reply, calls_setSockfd, calls_handled]
    rfl

/-- The epoll descriptors that are open after a request. -/
theorem opened_serve (req : Option RdmaReq) (env : ServerEnv) (c : ClientRInfo)
    (opened : Finset (BitVec 32)) :
  (calls (serve env (.start c) req).trace).foldl (SockState.openedAfter env.outcome) opened =
    if env.outcome.int.toInt < 0 then opened
    else if req = some .epollCreate1 then insert env.outcome.int opened
    else if req = some .close then opened.erase c.sockfd
    else opened
  := by
  cases req with
  | none => simp [serve]
  | some req =>
      cases req with
      | epollCreate1 =>
          rw [calls_epollCreate1, if_pos rfl]
          rfl
      | newRdmaConn =>
          by_cases hconnect : env.connect = 0#32
          · simp [serve, hconnect, calls_act]
          · simp [serve, hconnect, calls_act]
      | delRdmaConn =>
          by_cases hgone : env.disconnected
          · simp [serve, hgone, calls_act]
          · simp [serve, hgone]
      | close =>
          simp only [serve, calls_reply, calls_handled]
          rfl
      | _ =>
          simp [serve, SockState.openedAfter, sockSocket, sockBind, sockListen, sockAccept,
            sockConnect, sockSendMessage, sockReadMessage, sockSelect, sockEpollCtl, sockEpollWait,
            sockPoll, sockFcntl, sockSetsockopt, sockGetsockopt, sockGetpeername, sockGetsockname]

/-! ### One request -/

namespace SockState

/-- The table after a request. -/
theorem sockHt_serve (s : SockState) (a : TableReq) :
  (s.serve a).sockHt =
    if a.cInfo.request = some .epollCreate1 ∧ 0 ≤ a.env.outcome.int.toInt then
      (socketInsertByValue a.malloc s.sockHt a.env.outcome.int a.sockInfo).1
    else s.sockHt
  := by
  have hentered : entered a.trace = _ := entered_serve a.cInfo.request a.env a.cInfo
  rw [serve, hentered]
  split
  case isTrue => rfl
  case isFalse => rfl

/-- The open descriptors after a request. -/
theorem opened_serve (s : SockState) (a : TableReq) :
  (s.serve a).opened =
    if a.env.outcome.int.toInt < 0 then s.opened
    else if a.cInfo.request = some .epollCreate1 then insert a.env.outcome.int s.opened
    else if a.cInfo.request = some .close then s.opened.erase a.cInfo.sockfd
    else s.opened
  := SocketToRdma.opened_serve a.cInfo.request a.env a.cInfo s.opened

/-- A descriptor that `EPOLL_CREATE1` returns was not open. -/
theorem Consistent.fresh {s : SockState} {a : TableReq} (h : s.Consistent a)
    (hreq : a.cInfo.request = some .epollCreate1) (hret : 0 ≤ a.env.outcome.int.toInt) :
  a.env.outcome.int ∉ s.opened
  := by
  apply h (deserializeEpollCreateDt a.cInfo.mem reqData) _ hret
  have hcalls : calls a.trace =
      calls (SocketToRdma.serve a.env (.start a.cInfo) a.cInfo.request).trace := rfl
  rw [hcalls, hreq, calls_epollCreate1]
  apply List.mem_singleton_self

/-- An insertion that cannot allocate its node leaves the table. -/
theorem socketInsertByValue_of_none {malloc : Malloc 64} {t : SocketHashTable} (key : BitVec 32)
    (sockInfo : BitVec 64) (h : malloc.pick t.heap = none) :
  (socketInsertByValue malloc t key sockInfo).1 = t
  := by
  rw [socketInsertByValue, ChainTable.insertByValue, h]

/-- A table keeps representing live nodes. -/
theorem represents_serve {s : SockState} (h : ∃ live, s.sockHt.Represents live) (a : TableReq) :
  ∃ live, (s.serve a).sockHt.Represents live
  := by
  obtain ⟨live, h⟩ := h
  rw [sockHt_serve]
  split
  case isTrue =>
    cases hmalloc : a.malloc.pick s.sockHt.heap with
    | none =>
        use live
        rw [socketInsertByValue_of_none _ _ hmalloc]
        apply h
    | some =>
        exact ⟨_, h.insertByValue a.malloc _ _ (by simp [hmalloc])⟩
  case isFalse => use live

/-- The entries after a new one was allocated. -/
theorem count_insertByValue {s : SockState} {live : List (Node 64)} (h : s.sockHt.Represents live)
    (malloc : Malloc 64) (key : BitVec 32) (sockInfo : BitVec 64)
    (hmalloc : malloc.pick s.sockHt.heap ≠ none) (d : BitVec 32) :
  (socketInsertByValue malloc s.sockHt key sockInfo).1.count (fun node => node.key == d) =
    s.entries d + if key = d then 1 else 0
  := by
  rw [entries, h.count_eq, socketInsertByValue,
    (h.insertByValue malloc key sockInfo hmalloc).count_eq, List.countP_append,
    List.countP_singleton]
  simp

/-- After `EPOLL_CREATE1` the table is right exactly when the node of the descriptor was
allocated. -/
theorem tracksAfter_create_iff {s : SockState} {a : TableReq}
    (h : ∃ live, s.sockHt.Represents live) (htracks : s.Tracks) (hkernel : s.Consistent a)
    (hreq : a.cInfo.request = some .epollCreate1) (hret : 0 ≤ a.env.outcome.int.toInt) :
  s.TracksAfter a ↔ a.malloc.pick s.sockHt.heap ≠ none
  := by
  obtain ⟨live, h⟩ := h
  have hfresh := hkernel.fresh hreq hret
  simp only [TracksAfter, Tracks, entries, sockHt_serve, opened_serve, if_pos hreq,
    if_pos (And.intro hreq hret), if_neg (not_lt.mpr hret), Finset.mem_insert]
  constructor
  · intro hafter hnone
    have hone := hafter a.env.outcome.int
    rw [if_pos (Or.inl rfl), socketInsertByValue_of_none _ _ hnone] at hone
    have hzero := (htracks a.env.outcome.int).symm.trans hone
    rw [if_neg hfresh] at hzero
    cases hzero
  · intro hmalloc d
    rw [count_insertByValue h _ _ _ hmalloc, htracks d]
    by_cases hd : a.env.outcome.int = d
    · subst hd
      rw [if_neg hfresh, if_pos rfl, if_pos (Or.inl rfl)]
    · simp only [if_neg hd, Ne.symm hd, false_or, Nat.add_zero]

/-- After a `CLOSE` that succeeds the table is right exactly when it closed no epoll descriptor. -/
theorem tracksAfter_close_iff {s : SockState} {a : TableReq} (htracks : s.Tracks)
    (hreq : a.cInfo.request = some .close) (hret : 0 ≤ a.env.outcome.int.toInt) :
  s.TracksAfter a ↔ a.cInfo.sockfd ∉ s.opened
  := by
  have hother : ¬ (a.cInfo.request = some .epollCreate1) := by
    rw [hreq]
    nofun
  simp only [TracksAfter, Tracks, entries, sockHt_serve, opened_serve, if_pos hreq, hother,
    false_and, if_false, if_neg (not_lt.mpr hret)]
  constructor
  · intro hafter hmem
    have hzero := (htracks a.cInfo.sockfd).symm.trans (hafter a.cInfo.sockfd)
    rw [if_pos hmem, if_neg (Finset.notMem_erase _ _)] at hzero
    contradiction
  · intro hmem
    rw [Finset.erase_eq_of_notMem hmem]
    apply htracks

/-- After a request the table is right exactly when the request is paired. -/
theorem tracksAfter_iff_paired {s : SockState} {a : TableReq}
    (h : ∃ live, s.sockHt.Represents live) (htracks : s.Tracks) (hkernel : s.Consistent a) :
  s.TracksAfter a ↔ s.Paired a
  := by
  by_cases hret : 0 ≤ a.env.outcome.int.toInt
  · by_cases hcreate : a.cInfo.request = some .epollCreate1
    · rw [tracksAfter_create_iff h htracks hkernel hcreate hret, Paired, hcreate]
      simp [hret]
    · by_cases hclose : a.cInfo.request = some .close
      · rw [tracksAfter_close_iff htracks hclose hret, Paired, hclose]
        simp [hret]
      · simp only [TracksAfter, Tracks, entries, sockHt_serve, opened_serve, Paired, hcreate,
          hclose, false_and, if_false, false_imp_iff, and_self, iff_true, ite_self]
        apply htracks
  · have hneg : a.env.outcome.int.toInt < 0 := not_le.mp hret
    simp only [TracksAfter, Tracks, entries, sockHt_serve, opened_serve, Paired, hret, and_false,
      if_false, if_pos hneg, false_imp_iff, implies_true, and_self, iff_true]
    apply htracks

theorem tracks_init :
  init.Tracks
  := by
  intro d
  have hinit : init.sockHt.Represents [] := ChainTable.Represents.create
  rw [entries, hinit.count_eq]
  rfl

end SockState

/-! ### A run -/

/-- In a run of requests the table is right after each of them exactly when none of them closes an
epoll descriptor or fails to allocate the entry of one. -/
theorem sock_ht_tracks_iff (acts : List TableReq)
    (hkernel : Along SockState.step SockState.Consistent .init acts) :
  Along SockState.step SockState.TracksAfter .init acts ↔
    Along SockState.step SockState.Paired .init acts
  := by
  have hinit : (∃ live, SockState.init.sockHt.Represents live) ∧ SockState.init.Tracks :=
    ⟨⟨[], ChainTable.Represents.create⟩, SockState.tracks_init⟩
  constructor
  · intro htracks
    apply along_of_invariant (I := fun s => (∃ live, s.sockHt.Represents live) ∧ s.Tracks)
      (C := fun s a => s.Consistent a ∧ s.TracksAfter a) _ _ hinit (hkernel.and htracks)
    · rintro s a s' ⟨h, -⟩ ⟨-, hafter⟩ hs
      obtain rfl := Option.some.inj hs
      exact ⟨SockState.represents_serve h a, hafter⟩
    · rintro s a ⟨h, hs⟩ ⟨hcon, hafter⟩
      apply (SockState.tracksAfter_iff_paired h hs hcon).mp hafter
  · intro hpaired
    apply along_of_invariant (I := fun s => (∃ live, s.sockHt.Represents live) ∧ s.Tracks)
      (C := fun s a => s.Consistent a ∧ s.Paired a) _ _ hinit (hkernel.and hpaired)
    · rintro s a s' ⟨h, htracks⟩ ⟨hcon, hafter⟩ hs
      obtain rfl := Option.some.inj hs
      exact ⟨SockState.represents_serve h a,
        (SockState.tracksAfter_iff_paired h htracks hcon).mpr hafter⟩
    · rintro s a ⟨h, hs⟩ ⟨hcon, hafter⟩
      apply (SockState.tracksAfter_iff_paired h hs hcon).mpr hafter

/-- `EPOLL_CREATE1` returns the descriptor `5`. -/
def createFive : TableReq :=
  ⟨.received .epollCreate1 0, .ofOutcome (.ofRet 5 0), .bump 64, 4096⟩

/-- `CLOSE` of the descriptor `5` succeeds. -/
def closeFive : TableReq :=
  ⟨.received .close 0, .ofOutcome (.ofRet 0 0), .bump 64, 0⟩

theorem sock_ht_tracks_iff_created :
  Along SockState.step SockState.TracksAfter .init [createFive]
  := by
  apply (sock_ht_tracks_iff _ _).mpr
  · refine ⟨⟨fun _ _ => Finset.notMem_empty _, fun _ _ => ?_⟩, fun _ _ => trivial⟩
    simp [createFive, Malloc.bump]
  · exact ⟨fun _ _ _ => Finset.notMem_empty _, fun _ _ => trivial⟩

/-- An epoll descriptor that is created and closed leaves its entry. -/
theorem closed_epoll_tracked :
  Along SockState.step SockState.Consistent .init [createFive, closeFive] ∧
    ¬ Along SockState.step SockState.TracksAfter .init [createFive, closeFive]
  := by
  constructor
  · refine ⟨fun _ _ _ => Finset.notMem_empty _, fun s _ => ⟨?_, fun _ _ => trivial⟩⟩
    intro flags hcall
    have hcalls : calls closeFive.trace =
        calls (serve closeFive.env (.start closeFive.cInfo) closeFive.cInfo.request).trace := rfl
    rw [hcalls, closeFive, ClientRInfo.request_received] at hcall
    simp [serve, sockClose] at hcall
  · intro h
    have hafter := (h.2 (SockState.init.serve createFive) rfl).1
    have hclosed := (SockState.tracksAfter_close_iff (a := closeFive) h.1
      (ClientRInfo.request_received .close 0) (by decide)).mp hafter
    have hreq : createFive.cInfo.request = some .epollCreate1 := ClientRInfo.request_received ..
    rw [SockState.opened_serve, if_neg (by decide), if_pos hreq] at hclosed
    apply hclosed (Finset.mem_insert_self _ _)

end SocketToRdma
