import SocketToRdma.Lib.Run
import SocketToRdma.Server.Request

/-!
# The exchange of the metadata

The two ends of a connection tell each other where their messages are: the host the region of its
`rtn`, the server the region of its `req`. Each fills one `rdma_buffer_attr`, sends it, and
receives the other one, into a structure that the host has filled before with the region of its
own `req`. The network card reads a message that is sent at any time before it arrives.

The calls of the verbs succeed. The connection managers relay what the other thread did, and the
threads wait for a completion by polling; the notification they wait for before that only
delays them.
-/

namespace SocketToRdma

open Run

/-! ### The structures -/

/-- A registered region, a `struct ibv_mr`. -/
structure Region where
  addr : BitVec 64
  length : BitVec 64
  lkey : BitVec 32
  rkey : BitVec 32

/-- The regions of the messages of both ends, registered with the size of the messages. -/
structure Regions where
  hostReq : Region
  hostRtn : Region
  serverReq : Region
  serverRtn : Region
  hostReq_length : hostReq.length = BitVec.ofNat 64 reqSize
  hostRtn_length : hostRtn.length = BitVec.ofNat 64 rtnSize
  serverReq_length : serverReq.length = BitVec.ofNat 64 reqSize
  serverRtn_length : serverRtn.length = BitVec.ofNat 64 rtnSize

/-- A `struct rdma_buffer_attr`; the members `local_stag` and `remote_stag` of its union share
`stag`. -/
structure BufferAttr where
  address : BitVec 64
  length : BitVec 32
  stag : BitVec 32

namespace BufferAttr

/-- `stag.local_stag` set -/
def setLocalStag (a : BufferAttr) (key : BitVec 32) : BufferAttr :=
  { a with stag := key }

/-- `stag.remote_stag` set -/
def setRemoteStag (a : BufferAttr) (key : BitVec 32) : BufferAttr :=
  { a with stag := key }

/-- `stag.remote_stag` -/
def remoteStag (a : BufferAttr) : BitVec 32 :=
  a.stag

/-- The address and the length of a region set. -/
def setRegion (a : BufferAttr) (mr : Region) : BufferAttr :=
  { a with address := mr.addr, length := mr.length.setWidth 32 }

/-- What `client_pre_post_req_buffer` fills in. -/
def fillLocal (a : BufferAttr) (mr : Region) : BufferAttr :=
  (a.setRegion mr).setLocalStag mr.lkey

/-- What `client_xchange_metadata_with_server` and `send_server_metadata_to_client` fill in. -/
def fill (a : BufferAttr) (mr : Region) : BufferAttr :=
  ((a.setRegion mr).setLocalStag mr.lkey).setRemoteStag mr.rkey

end BufferAttr

/-- The metadata of a region: its address, its length and its remote key. -/
def Region.attr (mr : Region) : BufferAttr :=
  ⟨mr.addr, mr.length.setWidth 32, mr.rkey⟩

/-- The remote key is the one that is set last. -/
theorem BufferAttr.fill_eq (a : BufferAttr) (mr : Region) :
  a.fill mr = mr.attr
  := rfl

/-! ### The threads and the network card -/

/-- The message with the metadata of an end: not posted, posted, read by the network card, arrived,
and completed. -/
inductive SendState where
  | unposted
  | posted
  | read (attr : BufferAttr)
  | arrived
  | completed

/-- One end: the two structures, whether the receive for the metadata is posted, its own message,
and the number of completions that are not polled. -/
structure MetadataEnd where
  clientMetadataAttr : BufferAttr
  serverMetadataAttr : BufferAttr
  recv : Bool
  send : SendState
  wcs : ℕ

/-- Where the thread of the host is in `connect_server`, with the number of completions polled. -/
inductive ConnectPc where
  | prePost
  | connect
  | waitEstablished
  | fillMetadata
  | postSend
  | awaitMetadata (totalWc : ℕ)
  | returned

/-- Where the thread of the server is in `connect_client_r_info`. -/
inductive AcceptPc where
  | waitRequest
  | postRecv
  | accept
  | waitEstablished
  | awaitMetadata
  | fillMetadata
  | postSend
  | postRecvReq
  | returned

/-- The two ends while the connection is set up. -/
structure Handshake where
  connectPc : ConnectPc
  host : MetadataEnd
  acceptPc : AcceptPc
  server : MetadataEnd

/-- A step of a thread; or the network card reads a message, it arrives, and it is completed. -/
inductive HandshakeAct where
  | host
  | server
  | readHost
  | arriveAtServer
  | completeHost
  | readServer
  | arriveAtHost
  | completeServer

/-- The host has called `rdma_connect`. -/
def ConnectPc.requested : ConnectPc → Bool
  | prePost | connect => false
  | _ => true

/-- The host has received the establishment of the connection. -/
def ConnectPc.established : ConnectPc → Bool
  | prePost | connect | waitEstablished => false
  | _ => true

/-- The server has called `rdma_accept`. -/
def AcceptPc.accepted : AcceptPc → Bool
  | waitRequest | postRecv | accept => false
  | _ => true

namespace MetadataEnd

/-- An end before the set-up, with any contents of its structures. -/
def start (client server : BufferAttr) : MetadataEnd :=
  ⟨client, server, false, .unposted, 0⟩

/-- The network card reads the message from the structure `attr`. -/
def readSend (e : MetadataEnd) (attr : BufferAttr) : Option MetadataEnd :=
  match e.send with
  | .posted => some { e with send := .read attr }
  | _ => none

/-- The message is completed, after it has arrived. -/
def completeSend (e : MetadataEnd) : Option MetadataEnd :=
  match e.send with
  | .arrived => some { e with send := .completed, wcs := e.wcs + 1 }
  | _ => none

end MetadataEnd

namespace Handshake

/-- A connection that is not set up. -/
def start (host server : BufferAttr × BufferAttr) : Handshake :=
  ⟨.prePost, .start host.1 host.2, .waitRequest, .start server.1 server.2⟩

/-- The next step of `connect_server`. -/
def hostStep (r : Regions) (s : Handshake) : Option (ConnectPc × MetadataEnd) :=
  let e := s.host
  match s.connectPc with
  | .prePost =>
      some (.connect,
        { e with serverMetadataAttr := e.serverMetadataAttr.fillLocal r.hostReq, recv := true })
  | .connect => some (.waitEstablished, e)
  | .waitEstablished => if s.acceptPc.accepted then some (.fillMetadata, e) else none
  | .fillMetadata =>
      some (.postSend, { e with clientMetadataAttr := e.clientMetadataAttr.fill r.hostRtn })
  | .postSend => some (.awaitMetadata 0, { e with send := .posted })
  | .awaitMetadata totalWc =>
      if totalWc < 2 then
        match e.wcs with
        | 0 => none
        | wcs + 1 => some (.awaitMetadata (totalWc + 1), { e with wcs })
      else some (.returned, e)
  | .returned => none

/-- The next step of `connect_client_r_info`. -/
def serverStep (r : Regions) (s : Handshake) : Option (AcceptPc × MetadataEnd) :=
  let e := s.server
  match s.acceptPc with
  | .waitRequest => if s.connectPc.requested then some (.postRecv, e) else none
  | .postRecv => some (.accept, { e with recv := true })
  | .accept => some (.waitEstablished, e)
  | .waitEstablished => if s.connectPc.established then some (.awaitMetadata, e) else none
  | .awaitMetadata =>
      match e.wcs with
      | 0 => none
      | wcs + 1 => some (.fillMetadata, { e with wcs })
  | .fillMetadata =>
      some (.postSend, { e with serverMetadataAttr := e.serverMetadataAttr.fill r.serverReq })
  | .postSend => some (.postRecvReq, { e with send := .posted })
  -- the receive for the first request takes no metadata
  | .postRecvReq => some (.returned, e)
  | .returned => none

/-- The metadata of the host arrive, and take the receive of the server. -/
def arriveAtServer (s : Handshake) : Option Handshake :=
  match s.host.send, s.server.recv with
  | .read attr, true =>
      some { s with
        host := { s.host with send := .arrived }
        server := { s.server with
          clientMetadataAttr := attr, recv := false, wcs := s.server.wcs + 1 } }
  | _, _ => none

/-- The metadata of the server arrive, and take the receive of the host. -/
def arriveAtHost (s : Handshake) : Option Handshake :=
  match s.server.send, s.host.recv with
  | .read attr, true =>
      some { s with
        server := { s.server with send := .arrived }
        host := { s.host with
          serverMetadataAttr := attr, recv := false, wcs := s.host.wcs + 1 } }
  | _, _ => none

/-- The state after an action. -/
def step (r : Regions) (s : Handshake) : HandshakeAct → Option Handshake
  | .host => (s.hostStep r).map fun (connectPc, host) => { s with connectPc, host }
  | .server => (s.serverStep r).map fun (acceptPc, server) => { s with acceptPc, server }
  | .readHost => (s.host.readSend s.host.clientMetadataAttr).map fun host => { s with host }
  | .arriveAtServer => s.arriveAtServer
  | .completeHost => s.host.completeSend.map fun host => { s with host }
  | .readServer =>
      (s.server.readSend s.server.serverMetadataAttr).map fun server => { s with server }
  | .arriveAtHost => s.arriveAtHost
  | .completeServer => s.server.completeSend.map fun server => { s with server }

end Handshake

/-! ### What the messages carry -/

namespace SendState

/-- The messages that are not posted. -/
def unsent : SendState → ℕ
  | unposted => 1
  | _ => 0

/-- The messages that have arrived. -/
def delivered : SendState → ℕ
  | arrived | completed => 1
  | _ => 0

/-- The messages that are completed. -/
def done : SendState → ℕ
  | completed => 1
  | _ => 0

/-- The metadata `attr` are in the structure that is sent until they are read, and in the one that
receives them once they have arrived. -/
def Carries (attr source target : BufferAttr) : SendState → Prop
  | unposted => True
  | posted => source = attr
  | read a => a = attr
  | arrived | completed => target = attr

theorem delivered_le (m : SendState) :
  m.delivered ≤ 1 ∧ m.done ≤ m.delivered
  := by
  cases m with
  | _ => simp [delivered, done]

theorem eq_unposted {m : SendState} (h : m.unsent = 1) :
  m = .unposted
  := by
  cases m with
  | unposted => rfl
  | _ => cases h

theorem Carries.of_unsent {attr source target : BufferAttr} {m : SendState} (h : m.unsent = 1) :
  m.Carries attr source target
  := by
  cases m with
  | unposted => trivial
  | _ => cases h

/-- Until the message arrives, its receiver may write to the structure that receives it. -/
theorem Carries.of_not_delivered {attr source target target' : BufferAttr} {m : SendState}
    (h : m.Carries attr source target) (hm : m.delivered = 0) :
  m.Carries attr source target'
  := by
  cases m with
  | arrived | completed => cases hm
  | _ => apply h

theorem Carries.target_eq {attr source target : BufferAttr} {m : SendState}
    (h : m.Carries attr source target) (hm : m.delivered = 1) :
  target = attr
  := by
  cases m with
  | arrived | completed => apply h
  | _ => cases hm

end SendState

/-- What reading a message does. -/
theorem MetadataEnd.readSend_eq_some {e e' : MetadataEnd} {attr : BufferAttr}
    (h : e.readSend attr = some e') :
  e.send = .posted ∧ e' = { e with send := .read attr }
  := by
  unfold readSend at h
  split at h
  case h_1 hsend => exact ⟨hsend, (Option.some.inj h).symm⟩
  case h_2 => cases h

/-- What the completion of a message does. -/
theorem MetadataEnd.completeSend_eq_some {e e' : MetadataEnd} (h : e.completeSend = some e') :
  e.send = .arrived ∧ e' = { e with send := .completed, wcs := e.wcs + 1 }
  := by
  unfold completeSend at h
  split at h
  case h_1 hsend => exact ⟨hsend, (Option.some.inj h).symm⟩
  case h_2 => cases h

/-- The metadata that the host has still to post. -/
def ConnectPc.unsent : ConnectPc → ℕ
  | awaitMetadata _ | returned => 0
  | _ => 1

/-- The completions that the host has polled. -/
def ConnectPc.polled : ConnectPc → ℕ
  | awaitMetadata totalWc => totalWc
  | returned => 2
  | _ => 0

/-- The metadata that the server has still to post. -/
def AcceptPc.unsent : AcceptPc → ℕ
  | postRecvReq | returned => 0
  | _ => 1

/-- The completions that the server has polled. -/
def AcceptPc.polled : AcceptPc → ℕ
  | fillMetadata | postSend | postRecvReq | returned => 1
  | _ => 0

namespace Handshake

/-- The structure that is posted is filled, a message carries the metadata of its region, the
structure that the host fills for itself has received nothing yet, and every completion is of
a message of this end or of a receive that a message of the other end took. -/
structure Inv (r : Regions) (s : Handshake) : Prop where
  hostSend : s.connectPc.unsent = s.host.send.unsent
  serverSend : s.acceptPc.unsent = s.server.send.unsent
  hostFilled : s.connectPc = .postSend → s.host.clientMetadataAttr = r.hostRtn.attr
  serverFilled : s.acceptPc = .postSend → s.server.serverMetadataAttr = r.serverReq.attr
  hostCarries :
    s.host.send.Carries r.hostRtn.attr s.host.clientMetadataAttr s.server.clientMetadataAttr
  serverCarries :
    s.server.send.Carries r.serverReq.attr s.server.serverMetadataAttr s.host.serverMetadataAttr
  prePost : s.connectPc = .prePost → s.host.recv = false ∧ s.server.send.delivered = 0
  hostWcs : s.host.wcs + s.connectPc.polled = s.host.send.done + s.server.send.delivered
  serverWcs : s.server.wcs + s.acceptPc.polled = s.server.send.done + s.host.send.delivered
  serverPolled : s.acceptPc.polled ≤ s.host.send.delivered

theorem inv_start (r : Regions) (host server : BufferAttr × BufferAttr) :
  (start host server).Inv r
  := by
  constructor
  case hostCarries => trivial
  case serverCarries => trivial
  case prePost => exact fun _ => ⟨rfl, rfl⟩
  all_goals simp [start, MetadataEnd.start, ConnectPc.unsent, AcceptPc.unsent, SendState.unsent,
    ConnectPc.polled, AcceptPc.polled, SendState.done, SendState.delivered]

/-- A step of `connect_server` keeps the invariant. -/
theorem Inv.host {r : Regions} {s : Handshake} {connectPc : ConnectPc} {host : MetadataEnd}
    (h : s.Inv r) (hs : s.hostStep r = some (connectPc, host)) :
  Inv r { s with connectPc, host }
  := by
  obtain ⟨pc, e, acceptPc, server⟩ := s
  obtain ⟨hsend, hsend', hfilled, hfilled', hcarries, hcarries', hpre, hwcs, hwcs', hpolled⟩ := h
  dsimp only at *
  cases pc with
  | prePost =>
      obtain ⟨rfl, rfl⟩ := Prod.mk.inj (Option.some.inj hs)
      exact ⟨hsend, hsend', nofun, hfilled', hcarries, hcarries'.of_not_delivered (hpre rfl).2,
        nofun, hwcs, hwcs', hpolled⟩
  | connect =>
      obtain ⟨rfl, rfl⟩ := Prod.mk.inj (Option.some.inj hs)
      exact ⟨hsend, hsend', nofun, hfilled', hcarries, hcarries', nofun, hwcs, hwcs', hpolled⟩
  | waitEstablished =>
      simp only [hostStep] at hs
      split at hs
      · obtain ⟨rfl, rfl⟩ := Prod.mk.inj (Option.some.inj hs)
        exact ⟨hsend, hsend', nofun, hfilled', hcarries, hcarries', nofun, hwcs, hwcs', hpolled⟩
      · cases hs
  | fillMetadata =>
      obtain ⟨rfl, rfl⟩ := Prod.mk.inj (Option.some.inj hs)
      exact ⟨hsend, hsend', fun _ => BufferAttr.fill_eq _ _, hfilled', .of_unsent hsend.symm,
        hcarries', nofun, hwcs, hwcs', hpolled⟩
  | postSend =>
      obtain ⟨rfl, rfl⟩ := Prod.mk.inj (Option.some.inj hs)
      rw [SendState.eq_unposted hsend.symm] at hwcs hwcs' hpolled
      exact ⟨rfl, hsend', nofun, hfilled', hfilled rfl, hcarries', nofun, hwcs, hwcs', hpolled⟩
  | awaitMetadata totalWc =>
      have hdelivered := server.send.delivered_le
      have hdone := e.send.delivered_le
      simp only [hostStep] at hs
      split at hs
      · split at hs
        · cases hs
        case h_2 wcs heq =>
          obtain ⟨rfl, rfl⟩ := Prod.mk.inj (Option.some.inj hs)
          refine ⟨hsend, hsend', nofun, hfilled', hcarries, hcarries', nofun, ?_, hwcs', hpolled⟩
          simp only [ConnectPc.polled] at hwcs ⊢
          omega
      · obtain ⟨rfl, rfl⟩ := Prod.mk.inj (Option.some.inj hs)
        refine ⟨hsend, hsend', nofun, hfilled', hcarries, hcarries', nofun, ?_, hwcs', hpolled⟩
        simp only [ConnectPc.polled] at hwcs ⊢
        omega
  | returned => cases hs

/-- A step of `connect_client_r_info` keeps the invariant. -/
theorem Inv.server {r : Regions} {s : Handshake} {acceptPc : AcceptPc} {server : MetadataEnd}
    (h : s.Inv r) (hs : s.serverStep r = some (acceptPc, server)) :
  Inv r { s with acceptPc, server }
  := by
  obtain ⟨connectPc, host, pc, e⟩ := s
  obtain ⟨hsend, hsend', hfilled, hfilled', hcarries, hcarries', hpre, hwcs, hwcs', hpolled⟩ := h
  dsimp only at *
  cases pc with
  | waitRequest | waitEstablished =>
      simp only [serverStep] at hs
      split at hs
      · obtain ⟨rfl, rfl⟩ := Prod.mk.inj (Option.some.inj hs)
        exact ⟨hsend, hsend', hfilled, nofun, hcarries, hcarries', hpre, hwcs, hwcs', hpolled⟩
      · cases hs
  | postRecv | accept | postRecvReq =>
      obtain ⟨rfl, rfl⟩ := Prod.mk.inj (Option.some.inj hs)
      exact ⟨hsend, hsend', hfilled, nofun, hcarries, hcarries', hpre, hwcs, hwcs', hpolled⟩
  | awaitMetadata =>
      simp only [serverStep] at hs
      split at hs
      · cases hs
      case h_2 wcs heq =>
        obtain ⟨rfl, rfl⟩ := Prod.mk.inj (Option.some.inj hs)
        -- nothing is posted by then, so that the completion is of the receive
        rw [SendState.eq_unposted hsend'.symm] at hwcs'
        simp only [AcceptPc.polled, SendState.done] at hwcs' hpolled
        refine ⟨hsend, hsend', hfilled, nofun, hcarries, hcarries', hpre, hwcs, ?_, ?_⟩
        · simp only [AcceptPc.polled, SendState.eq_unposted hsend'.symm, SendState.done]
          omega
        · simp only [AcceptPc.polled]
          omega
  | fillMetadata =>
      obtain ⟨rfl, rfl⟩ := Prod.mk.inj (Option.some.inj hs)
      exact ⟨hsend, hsend', hfilled, fun _ => BufferAttr.fill_eq _ _, hcarries,
        .of_unsent hsend'.symm, hpre, hwcs, hwcs', hpolled⟩
  | postSend =>
      obtain ⟨rfl, rfl⟩ := Prod.mk.inj (Option.some.inj hs)
      rw [SendState.eq_unposted hsend'.symm] at hwcs hwcs' hpre
      exact ⟨hsend, rfl, hfilled, nofun, hcarries, hfilled' rfl, hpre, hwcs, hwcs', hpolled⟩
  | returned => cases hs

/-- What the network card does for the messages of the host keeps the invariant. -/
theorem Inv.hostMessage {r : Regions} {s s' : Handshake} {a : HandshakeAct} (h : s.Inv r)
    (ha : a = .readHost ∨ a = .arriveAtServer ∨ a = .completeHost) (hs : s.step r a = some s') :
  s'.Inv r
  := by
  obtain ⟨connectPc, e, acceptPc, server⟩ := s
  obtain ⟨hsend, hsend', hfilled, hfilled', hcarries, hcarries', hpre, hwcs, hwcs', hpolled⟩ := h
  dsimp only at *
  obtain rfl | rfl | rfl := ha
  · obtain ⟨e', he, rfl⟩ := Option.map_eq_some_iff.mp hs
    obtain ⟨hposted, rfl⟩ := MetadataEnd.readSend_eq_some he
    rw [hposted] at hsend hcarries hwcs hwcs' hpolled
    exact ⟨hsend, hsend', hfilled, hfilled', hcarries, hcarries', hpre, hwcs, hwcs', hpolled⟩
  · simp only [step, arriveAtServer] at hs
    split at hs
    case h_1 attr hread hrecv =>
      obtain rfl := Option.some.inj hs
      rw [hread] at hsend hcarries hwcs hwcs' hpolled
      refine ⟨hsend, hsend', hfilled, hfilled', hcarries, hcarries', hpre, hwcs, ?_, ?_⟩
      · simp only [SendState.delivered] at hwcs' ⊢
        omega
      · apply Nat.le_succ_of_le hpolled
    case h_2 => cases hs
  · obtain ⟨e', he, rfl⟩ := Option.map_eq_some_iff.mp hs
    obtain ⟨harrived, rfl⟩ := MetadataEnd.completeSend_eq_some he
    rw [harrived] at hsend hcarries hwcs hwcs' hpolled
    refine ⟨hsend, hsend', hfilled, hfilled', hcarries, hcarries', hpre, ?_, hwcs', hpolled⟩
    simp only [SendState.done] at hwcs ⊢
    omega

/-- What the network card does for the messages of the server keeps the invariant. -/
theorem Inv.serverMessage {r : Regions} {s s' : Handshake} {a : HandshakeAct} (h : s.Inv r)
    (ha : a = .readServer ∨ a = .arriveAtHost ∨ a = .completeServer)
    (hs : s.step r a = some s') :
  s'.Inv r
  := by
  obtain ⟨connectPc, host, acceptPc, e⟩ := s
  obtain ⟨hsend, hsend', hfilled, hfilled', hcarries, hcarries', hpre, hwcs, hwcs', hpolled⟩ := h
  dsimp only at *
  obtain rfl | rfl | rfl := ha
  · obtain ⟨e', he, rfl⟩ := Option.map_eq_some_iff.mp hs
    obtain ⟨hposted, rfl⟩ := MetadataEnd.readSend_eq_some he
    rw [hposted] at hsend' hcarries' hpre hwcs hwcs'
    exact ⟨hsend, hsend', hfilled, hfilled', hcarries, hcarries', hpre, hwcs, hwcs', hpolled⟩
  · simp only [step, arriveAtHost] at hs
    split at hs
    case h_1 attr hread hrecv =>
      obtain rfl := Option.some.inj hs
      rw [hread] at hsend' hcarries' hpre hwcs hwcs'
      refine ⟨hsend, hsend', hfilled, hfilled', hcarries, hcarries', ?_, ?_, hwcs', hpolled⟩
      · intro hpc
        cases hrecv.symm.trans (hpre hpc).1
      · simp only [SendState.delivered] at hwcs ⊢
        omega
    case h_2 => cases hs
  · obtain ⟨e', he, rfl⟩ := Option.map_eq_some_iff.mp hs
    obtain ⟨harrived, rfl⟩ := MetadataEnd.completeSend_eq_some he
    rw [harrived] at hsend' hcarries' hpre hwcs hwcs'
    refine ⟨hsend, hsend', hfilled, hfilled', hcarries, hcarries', hpre, hwcs, ?_, hpolled⟩
    simp only [SendState.done] at hwcs' ⊢
    omega

theorem inv_step {r : Regions} {s s' : Handshake} {a : HandshakeAct} (h : s.Inv r)
    (hs : s.step r a = some s') :
  s'.Inv r
  := by
  cases a with
  | host =>
      obtain ⟨⟨connectPc, host⟩, hhost, rfl⟩ := Option.map_eq_some_iff.mp hs
      apply h.host hhost
  | server =>
      obtain ⟨⟨acceptPc, server⟩, hserver, rfl⟩ := Option.map_eq_some_iff.mp hs
      apply h.server hserver
  | readHost => apply h.hostMessage (Or.inl rfl) hs
  | arriveAtServer => apply h.hostMessage (Or.inr (Or.inl rfl)) hs
  | completeHost => apply h.hostMessage (Or.inr (Or.inr rfl)) hs
  | readServer => apply h.serverMessage (Or.inl rfl) hs
  | arriveAtHost => apply h.serverMessage (Or.inr (Or.inl rfl)) hs
  | completeServer => apply h.serverMessage (Or.inr (Or.inr rfl)) hs

/-- When both threads have returned, each end holds the metadata of the other. -/
theorem Inv.exchanged {r : Regions} {s : Handshake} (h : s.Inv r)
    (hhost : s.connectPc = .returned) (hserver : s.acceptPc = .returned) :
  s.host.serverMetadataAttr = r.serverReq.attr ∧ s.server.clientMetadataAttr = r.hostRtn.attr
  := by
  have hdelivered := s.host.send.delivered_le
  have hdelivered' := s.server.send.delivered_le
  have hwcs := h.hostWcs
  have hpolled := h.serverPolled
  rw [hhost] at hwcs
  rw [hserver] at hpolled
  simp only [ConnectPc.polled, AcceptPc.polled] at hwcs hpolled
  constructor
  · apply h.serverCarries.target_eq
    omega
  · apply h.hostCarries.target_eq
    omega

end Handshake

/-! ### The messages of the calls -/

/-- The work request of `post_write_req`. -/
def postWriteReqWr (r : Regions) (e : MetadataEnd) (sockfd : BitVec 32) : SendWr where
  sge := ⟨r.hostReq.addr, r.hostReq.length.setWidth 32, r.hostReq.lkey⟩
  immData := htonl sockfd
  remoteAddr := e.serverMetadataAttr.address
  rkey := e.serverMetadataAttr.remoteStag

/-- The connection of the server that was set up has the region of its `rtn` and the metadata it
received. -/
structure ClientRInfo.Connected (c : ClientRInfo) (r : Regions) (e : MetadataEnd) : Prop where
  rtnMr : c.rtnMr = ⟨r.serverRtn.addr, r.serverRtn.length, r.serverRtn.lkey⟩
  clientMetadataAttr :
    c.clientMetadataAttr = ⟨e.clientMetadataAttr.address, e.clientMetadataAttr.remoteStag⟩

/-- The work request writes to the whole region. -/
structure SendWr.Targets (wr : SendWr) (mr : Region) : Prop where
  remoteAddr : wr.remoteAddr = mr.addr
  rkey : wr.rkey = mr.rkey
  length : wr.sge.length.toNat = mr.length.toNat

theorem postWriteReqWr_targets {r : Regions} {e : MetadataEnd}
    (h : e.serverMetadataAttr = r.serverReq.attr) (sockfd : BitVec 32) :
  (postWriteReqWr r e sockfd).Targets r.serverReq
  := by
  constructor
  · rw [postWriteReqWr, h]
    rfl
  · rw [postWriteReqWr, h]
    rfl
  · rw [postWriteReqWr, r.hostReq_length, r.serverReq_length]
    rfl

/-- `post_write_rtn` posts one work request, which writes to the whole region of the host. -/
theorem postWriteRtn_targets {r : Regions} {e : MetadataEnd} (env : ServerEnv) {x : Exec}
    (hx : x.cInfo.Connected r e) (h : e.clientMetadataAttr = r.hostRtn.attr) :
  ∃ wr : SendWr, wr.Targets r.hostRtn ∧ (postWriteRtn env x).1.trace =
    x.trace ++ [(.postSend wr (postWriteRtn env x).2, x.cInfo.mem)]
  := by
  refine ⟨_, ?_, rfl⟩
  constructor
  · rw [hx.clientMetadataAttr, h]
    rfl
  · rw [hx.clientMetadataAttr, h]
    rfl
  · rw [hx.rtnMr, r.serverRtn_length, r.hostRtn_length]
    rfl

/-- However the two threads and the network card take turns: when both threads have returned, the
host has the metadata of the `req` of the server and the server those of the `rtn` of the host,
and every request and every reply that is posted then writes to the whole of that region. -/
theorem metadata_exchanged {r : Regions} {host server : BufferAttr × BufferAttr}
    {as : List HandshakeAct} {s : Handshake}
    (hrun : run (Handshake.step r) (.start host server) as = some s)
    (hhost : s.connectPc = .returned) (hserver : s.acceptPc = .returned) :
  s.host.serverMetadataAttr = r.serverReq.attr ∧
    s.server.clientMetadataAttr = r.hostRtn.attr ∧
    (∀ sockfd, (postWriteReqWr r s.host sockfd).Targets r.serverReq) ∧
    ∀ env x, x.cInfo.Connected r s.server →
      ∃ wr : SendWr, wr.Targets r.hostRtn ∧ (postWriteRtn env x).1.trace =
        x.trace ++ [(.postSend wr (postWriteRtn env x).2, x.cInfo.mem)]
  := by
  have hinv : s.Inv r := run_invariant (fun _ _ _ hinv _ hs => Handshake.inv_step hinv hs)
    (Handshake.inv_start r host server) (along_of_mem fun _ _ => trivial) hrun
  obtain ⟨hreq, hrtn⟩ := hinv.exchanged hhost hserver
  exact ⟨hreq, hrtn, postWriteReqWr_targets hreq, fun env x hx => postWriteRtn_targets env hx hrtn⟩

/-- Four regions one after the other. -/
def consecutive : Regions where
  hostReq := ⟨0x100000, 600014, 1, 2⟩
  hostRtn := ⟨0x200000, 600012, 3, 4⟩
  serverReq := ⟨0x300000, 600014, 5, 6⟩
  serverRtn := ⟨0x400000, 600012, 7, 8⟩
  hostReq_length := rfl
  hostRtn_length := rfl
  serverReq_length := rfl
  serverRtn_length := rfl

/-- A set-up in which the server sends its metadata while those of the host are not yet
completed. -/
def exchange : List HandshakeAct :=
  [.host, .host, .server, .server, .server, .host, .server, .host, .host, .readHost,
    .arriveAtServer, .server, .server, .server, .readServer, .arriveAtHost, .completeHost, .server,
    .host, .host, .host, .completeServer]

theorem run_exchange :
  ∃ s, run (Handshake.step consecutive) (.start (⟨0, 0, 0⟩, ⟨0, 0, 0⟩) (⟨0, 0, 0⟩, ⟨0, 0, 0⟩)) exchange =
      some s ∧ s.connectPc = .returned ∧ s.acceptPc = .returned
  := ⟨_, rfl, rfl, rfl⟩

theorem metadata_exchanged_exchange :
  ∃ s : Handshake, s.host.serverMetadataAttr = consecutive.serverReq.attr ∧
    s.server.clientMetadataAttr = consecutive.hostRtn.attr ∧
    (∀ sockfd, (postWriteReqWr consecutive s.host sockfd).Targets consecutive.serverReq) ∧
    ∀ env x, x.cInfo.Connected consecutive s.server →
      ∃ wr : SendWr, wr.Targets consecutive.hostRtn ∧ (postWriteRtn env x).1.trace =
        x.trace ++ [(.postSend wr (postWriteRtn env x).2, x.cInfo.mem)]
  := by
  obtain ⟨s, hrun, hhost, hserver⟩ := run_exchange
  exact ⟨s, metadata_exchanged hrun hhost hserver⟩

end SocketToRdma
