import SocketToRdma.Host.Connections
import SocketToRdma.Lib.Ledger
import SocketToRdma.Remote.CmEvents

/-!
# The objects of a connection

The set-up of a connection makes objects one after the other, and a call that destroys one fails
while another one that was made with it is there. What a call returns is ignored while a connection
is cleaned up, and the pointer to a `client_r_info` whose set-up failed is freed without a clean-up.

A ledger lists the objects that are there, each with the number of its connection. At the end of
every run of a thread it holds all objects of the connections that were set up and not disconnected,
those that were freed among them, and what a set-up made before it failed.
-/

namespace SocketToRdma

open CmEvents (GetCmEvent PrepareEnv CmState orReturn ackOrReturn)
open Ledger Run

/-- The objects of a `client_r_info`, by its members. -/
inductive Resource where
  | cmEventChannel
  | cmClientId
  | pd
  | ioCompletionChannel
  | cq
  | qp
  | reqMr
  | serverMetadataMr
  | rtnMr
  | clientMetadataMr
  deriving DecidableEq, Repr

namespace Resource

/-- The objects that have to be there as long as an object is. -/
def restsOn : Resource → List Resource
  | .cmClientId => [.cmEventChannel]
  | .cq => [.ioCompletionChannel]
  | .qp => [.cmClientId, .pd, .cq]
  | .reqMr | .serverMetadataMr | .rtnMr | .clientMetadataMr => [.pd]
  | .cmEventChannel | .pd | .ioCompletionChannel => []

/-- An object of a connection rests on others of the same connection. -/
def Rests (b a : ℕ × Resource) : Prop :=
  b.1 = a.1 ∧ a.2 ∈ b.2.restsOn

instance : DecidableRel Rests :=
  fun b a => inferInstanceAs (Decidable (b.1 = a.1 ∧ a.2 ∈ b.2.restsOn))

end Resource

/-- The objects that are there. -/
abbrev Objects : Type := Finset (ℕ × Resource)

namespace Resources

/-- Objects of one connection. -/
def objectsOf (q : ℕ) (rs : List Resource) : List (ℕ × Resource) :=
  rs.map (Prod.mk q)

theorem mem_objectsOf {q : ℕ} {rs : List Resource} {p : ℕ × Resource} :
  p ∈ objectsOf q rs ↔ p.1 = q ∧ p.2 ∈ rs
  := by
  constructor
  · intro hp
    obtain ⟨r, hr, rfl⟩ := List.mem_map.mp hp
    exact ⟨rfl, hr⟩
  · rintro ⟨rfl, hr⟩
    apply List.mem_map_of_mem hr

/-- What is returned for a call that failed. -/
def failed (r : Option Errno) : Option ℤ :=
  r.map fun e => -e.val

/-- What is returned when `process_rdma_cm_event` refused the event. -/
def refused (get : GetCmEvent) (expectedEvent : CmEventType) : Option ℤ :=
  match get with
  | .failed e => some (-e.val)
  | .event type status =>
      if status ≠ 0 then some (-status) else if type ≠ expectedEvent then some (-1) else none

/-- What is returned if `rdma_buffer_register` failed. -/
def unregistered (registered : Bool) (ret : ℤ) : Option ℤ :=
  if registered then none else some ret

/-! ### The set-up of the host -/

/-- What the calls of `connect_server` return. -/
structure ConnectServerEnv where
  prepare : PrepareEnv
  registerReq : Bool
  registerServerMetadata : Bool
  postRecv : Option Errno
  connect : Option Errno
  established : GetCmEvent
  ackEstablished : Option Errno
  registerRtn : Bool
  registerClientMetadata : Bool
  postSend : Option Errno
  workCompletions : ℤ

/-- `client_prepare_connection` -/
def clientPrepareConnection (q : ℕ) (env : PrepareEnv) : Objects → ℤ × Objects :=
  acquire (failed env.createEventChannel) (q, .cmEventChannel) <|
  acquire (failed env.createId) (q, .cmClientId) <|
  check (failed env.resolveAddr) <|
  check (refused env.addrResolved .addrResolved) <|
  check (failed env.ackAddrResolved) <|
  check (failed env.resolveRoute) <|
  check (refused env.routeResolved .routeResolved) <|
  check (failed env.ackRouteResolved) <|
  acquire (failed env.allocPd) (q, .pd) <|
  acquire (failed env.createCompChannel) (q, .ioCompletionChannel) <|
  acquire (failed env.createCq) (q, .cq) <|
  check (failed env.reqNotifyCq) <|
  acquire (failed env.createQp) (q, .qp) fun held => (0, held)

/-- `client_pre_post_req_buffer` -/
def clientPrePostReqBuffer (q : ℕ) (env : ConnectServerEnv) : Objects → ℤ × Objects :=
  acquire (unregistered env.registerReq (-1)) (q, .reqMr) <|
  acquire (unregistered env.registerServerMetadata (-enomem)) (q, .serverMetadataMr) <|
  check (env.postRecv.map Subtype.val) fun held => (0, held)

/-- `client_connect_to_server` -/
def clientConnectToServer (env : ConnectServerEnv) : Objects → ℤ × Objects :=
  check (failed env.connect) <|
  check (refused env.established .established) <|
  check (failed env.ackEstablished) fun held => (0, held)

/-- `client_xchange_metadata_with_server` -/
def clientXchangeMetadataWithServer (q : ℕ) (env : ConnectServerEnv) : Objects → ℤ × Objects :=
  acquire (unregistered env.registerRtn (-1)) (q, .rtnMr) <|
  acquire (unregistered env.registerClientMetadata (-enomem)) (q, .clientMetadataMr) <|
  check (failed env.postSend) fun held =>
    (if env.workCompletions ≠ 2 then env.workCompletions else 0, held)

/-- `connect_server` -/
def connectServer (q : ℕ) (env : ConnectServerEnv) : Objects → ℤ × Objects :=
  andThen (· = 0) (clientPrepareConnection q env.prepare) <|
  andThen (· = 0) (clientPrePostReqBuffer q env) <|
  andThen (· = 0) (clientConnectToServer env) (clientXchangeMetadataWithServer q env)

/-- The order in which `connect_server` makes the objects of a connection. -/
def connectOrder (q : ℕ) : List (ℕ × Resource) :=
  objectsOf q [.cmEventChannel, .cmClientId, .pd, .ioCompletionChannel, .cq, .qp, .reqMr,
    .serverMetadataMr, .rtnMr, .clientMetadataMr]

theorem mem_connectOrder (q : ℕ) {p : ℕ × Resource} :
  p ∈ connectOrder q ↔ p.1 = q
  := by
  obtain ⟨q', r⟩ := p
  cases r <;> simp [connectOrder, mem_objectsOf]

/-- A failed call is not taken for a success. -/
theorem failed_ne_zero (r : Option Errno) :
  ∀ x ∈ failed r, ¬ x = 0
  := by
  cases r with
  | none => simp [failed]
  | some e =>
      have := e.2
      simp only [failed, Option.map_some, Option.mem_def, Option.some.injEq]
      rintro x rfl
      omega

theorem refused_ne_zero (get : GetCmEvent) (expectedEvent : CmEventType) :
  ∀ x ∈ refused get expectedEvent, ¬ x = 0
  := by
  cases get with
  | failed e =>
      have := e.2
      simp only [refused, Option.mem_def, Option.some.injEq]
      rintro x rfl
      omega
  | event type status =>
      simp only [refused]
      split_ifs with hstatus
      · simpa using hstatus
      · simp
      · simp

theorem unregistered_ne_zero (registered : Bool) {ret : ℤ} (hret : ret ≠ 0) :
  ∀ x ∈ unregistered registered ret, ¬ x = 0
  := by
  cases registered with
  | false => simpa [unregistered] using hret
  | true => simp [unregistered]

theorem postRecv_ne_zero (r : Option Errno) :
  ∀ x ∈ r.map Subtype.val, ¬ x = 0
  := by
  cases r with
  | none => simp
  | some e =>
      have := e.2
      simp only [Option.map_some, Option.mem_def, Option.some.injEq]
      rintro x rfl
      omega

/-- `connect_server` makes the objects in their order as far as it gets, and all of them if it
succeeds. -/
theorem acquires_connectServer (q : ℕ) (env : ConnectServerEnv) :
  Acquires (· = 0) (connectOrder q) (connectServer q env)
  := by
  have hprepare : Acquires (· = 0)
      (objectsOf q [.cmEventChannel, .cmClientId, .pd, .ioCompletionChannel, .cq, .qp])
      (clientPrepareConnection q env.prepare) := by
    apply Acquires.acquire _ (failed_ne_zero _)
    apply Acquires.acquire _ (failed_ne_zero _)
    apply Acquires.check (failed_ne_zero _)
    apply Acquires.check (refused_ne_zero _ _)
    apply Acquires.check (failed_ne_zero _)
    apply Acquires.check (failed_ne_zero _)
    apply Acquires.check (refused_ne_zero _ _)
    apply Acquires.check (failed_ne_zero _)
    apply Acquires.acquire _ (failed_ne_zero _)
    apply Acquires.acquire _ (failed_ne_zero _)
    apply Acquires.acquire _ (failed_ne_zero _)
    apply Acquires.check (failed_ne_zero _)
    apply Acquires.acquire _ (failed_ne_zero _)
    apply Acquires.done
  have hprePost : Acquires (· = 0) (objectsOf q [.reqMr, .serverMetadataMr])
      (clientPrePostReqBuffer q env) := by
    apply Acquires.acquire _ (unregistered_ne_zero _ (by decide))
    apply Acquires.acquire _ (unregistered_ne_zero _ (by decide))
    apply Acquires.check (postRecv_ne_zero _)
    apply Acquires.done
  have hconnect : Acquires (· = 0) (objectsOf q []) (clientConnectToServer env) := by
    apply Acquires.check (failed_ne_zero _)
    apply Acquires.check (refused_ne_zero _ _)
    apply Acquires.check (failed_ne_zero _)
    apply Acquires.done
  have hxchange : Acquires (· = 0) (objectsOf q [.rtnMr, .clientMetadataMr])
      (clientXchangeMetadataWithServer q env) := by
    apply Acquires.acquire _ (unregistered_ne_zero _ (by decide))
    apply Acquires.acquire _ (unregistered_ne_zero _ (by decide))
    apply Acquires.check (failed_ne_zero _)
    apply Acquires.done
  apply hprepare.andThen (hprePost.andThen (hconnect.andThen hxchange))

/-! ### What is returned -/

section Returned

variable {held : Objects} {k : Objects → ℤ × Objects} {r : Option Errno}

theorem check_fst {k' : ℤ × CmState} (h : (k held).1 = k'.1) (s : CmState) :
  (check (failed r) k held).1 = (orReturn r s k').1
  := by
  cases r with
  | some e => rfl
  | none => apply h

theorem acquire_fst {k' : ℤ × CmState} {p : ℕ × Resource} (h : (k (insert p held)).1 = k'.1)
    (s : CmState) :
  (acquire (failed r) p k held).1 = (orReturn r s k').1
  := by
  cases r with
  | some e => rfl
  | none => apply h

theorem check_refused_fst {k' : CmState → ℤ × CmState} (h : ∀ s, (k held).1 = (k' s).1)
    (get : GetCmEvent) (expectedEvent : CmEventType) (s : CmState) :
  (check (refused get expectedEvent) k held).1 =
    (ackOrReturn (CmEvents.processRdmaCmEvent get expectedEvent s) k').1
  := by
  cases get with
  | failed e =>
      have := e.2
      simp [refused, check, CmEvents.processRdmaCmEvent, ackOrReturn, this.ne']
  | event type status =>
      simp only [refused, CmEvents.processRdmaCmEvent]
      split_ifs with hstatus htype
      · simp [check, ackOrReturn, hstatus]
      · simp [check, ackOrReturn]
      · simpa [check, ackOrReturn] using h _

/-- `client_prepare_connection` returns what it does when its events are followed. -/
theorem clientPrepareConnection_fst (q : ℕ) (env : PrepareEnv) (held : Objects) (s : CmState) :
  (clientPrepareConnection q env held).1 = (CmEvents.clientPrepareConnection env s).1
  := by
  apply acquire_fst
  apply acquire_fst
  apply check_fst
  apply check_refused_fst
  intro s
  apply check_fst
  apply check_fst
  apply check_refused_fst
  intro s
  apply check_fst
  apply acquire_fst
  apply acquire_fst
  apply acquire_fst
  apply check_fst
  apply acquire_fst
  rfl

/-- So does `client_connect_to_server`. -/
theorem clientConnectToServer_fst (env : ConnectServerEnv) (held : Objects) (s : CmState) :
  (clientConnectToServer env held).1 =
    (CmEvents.clientConnectToServer env.connect env.established env.ackEstablished s).1
  := by
  apply check_fst
  apply check_refused_fst
  intro s
  apply check_fst
  rfl

end Returned

/-! ### The clean-up of the host -/

/-- `client_disconnect_and_clean` -/
def clientDisconnectAndClean (q : ℕ) (held : Objects) : Objects :=
  releaseAll Resource.Rests held <|
    objectsOf q [.qp, .cmClientId, .cq, .ioCompletionChannel, .serverMetadataMr, .clientMetadataMr,
      .rtnMr, .reqMr, .pd, .cmEventChannel]

theorem rests_irrefl (p : ℕ × Resource) :
  ¬ Resource.Rests p p
  := by
  obtain ⟨q, r⟩ := p
  cases r <;> simp [Resource.Rests, Resource.restsOn]

/-- The objects of a connection can be put in an order by what they rest on. -/
theorem usersFirst_objectsOf {q : ℕ} {rs : List Resource}
    (h : rs.Pairwise fun a b => a ∉ b.restsOn) :
  UsersFirst Resource.Rests (objectsOf q rs)
  := List.pairwise_map.mpr (h.imp fun hab hrests => hab hrests.2)

/-- What an object lies under belongs to the same connection. -/
theorem fst_eq_of_restsIn {held : Objects} {b a : ℕ × Resource}
    (h : Relation.ReflTransGen (RestsIn Resource.Rests held) b a) :
  b.1 = a.1
  := by
  induction h with
  | refl => rfl
  | tail _ hstep ih => rw [ih, hstep.1.1]

/-- The order of the clean-up is such that every object of the connection is destroyed. -/
theorem mem_clientDisconnectAndClean {q : ℕ} {held : Objects} {p : ℕ × Resource} :
  p ∈ clientDisconnectAndClean q held ↔ p ∈ held ∧ p.1 ≠ q
  := by
  rw [clientDisconnectAndClean, mem_releaseAll rests_irrefl]
  · constructor
    · rintro ⟨b, hb, hnot, h⟩
      have hbq : b.1 ≠ q := by
        rintro rfl
        obtain ⟨q, r⟩ := b
        cases r <;> simp [mem_objectsOf] at hnot
      have heq := fst_eq_of_restsIn h
      constructor
      · cases h with
        | refl => apply hb
        | tail _ hstep => apply hstep.2
      · rw [← heq]
        apply hbq
    · rintro ⟨hp, hpq⟩
      refine ⟨p, hp, ?_, .refl⟩
      intro hmem
      apply hpq (mem_objectsOf.mp hmem).1
  · apply usersFirst_objectsOf
    decide

/-! ### The objects in a run of a thread -/

/-- What an action of a thread does with the objects, when the calls in the set-up of the connection
`q` return what `env q` says. A clean-up without one of the objects would destroy something else. -/
def ledgerStep (env : ℕ → ConnectServerEnv) (held : Objects) (a : ConnAct) : Option Objects :=
  match a with
  | .connectServer q _ => some (connectServer q (env q) held).2
  | .disconnect q =>
      if ∀ p ∈ connectOrder q, p ∈ held then some (clientDisconnectAndClean q held) else none
  | .wrlock | .unlock | .setReqSock _ _ | .free _ => some held

/-- The objects after the actions of a trace. -/
def ledger (env : ℕ → ConnectServerEnv) (trace : List ConnAct) : Option Objects :=
  run (ledgerStep env) ∅ trace

/-- The objects that the set-up of a connection makes. -/
def made (env : ℕ → ConnectServerEnv) (q : ℕ) : Objects :=
  (connectServer q (env q) ∅).2

/-- The set-ups in the trace return what the environment says. -/
def Matches (env : ℕ → ConnectServerEnv) (trace : List ConnAct) : Prop :=
  ∀ q ret, .connectServer q ret ∈ trace → ret.toInt = (connectServer q (env q) ∅).1

/-- The objects after a trace are those that were made and not destroyed; the numbers from `next` on
were not used yet. -/
structure Ledgered (env : ℕ → ConnectServerEnv) (trace : List ConnAct) (next : ℕ)
    (held : Objects) : Prop where
  ledger_eq : ledger env trace = some held
  mem_iff : ∀ p, p ∈ held ↔
    .disconnect p.1 ∉ trace ∧ (∃ ret, .connectServer p.1 ret ∈ trace) ∧ p ∈ made env p.1
  lt_of_connected : ∀ q ret, .connectServer q ret ∈ trace → q < next
  lt_of_disconnected : ∀ q, .disconnect q ∈ trace → q < next

variable {env : ℕ → ConnectServerEnv} {trace : List ConnAct} {next : ℕ} {held : Objects}

theorem connectServer_snd (env : ℕ → ConnectServerEnv) (q : ℕ) (held : Objects) :
  (connectServer q (env q) held).2 = held ∪ made env q
  := by
  obtain ⟨r, l, -, -, hl⟩ := acquires_connectServer q (env q)
  rw [made, hl, hl, Finset.empty_union]

/-- A set-up makes objects of its connection only. -/
theorem fst_of_mem_made {p : ℕ × Resource} {q : ℕ} (hp : p ∈ made env q) :
  p.1 = q
  := by
  obtain ⟨r, l, hinit, -, hl⟩ := acquires_connectServer q (env q)
  rw [made, hl, Finset.empty_union, List.mem_toFinset] at hp
  apply (mem_connectOrder q).mp (hinit.subset hp)

/-- A set-up that succeeds makes all of them. -/
theorem mem_made_of_success (h : Matches env trace) {p : ℕ × Resource}
    (hp : .connectServer p.1 0 ∈ trace) :
  p ∈ made env p.1
  := by
  obtain ⟨r, l, -, hok, hl⟩ := acquires_connectServer p.1 (env p.1)
  have hr : r = 0 := by
    have hret := h p.1 0 hp
    rw [hl] at hret
    simpa using hret.symm
  rw [made, hl, hok hr, Finset.empty_union, List.mem_toFinset, mem_connectOrder]

theorem Matches.of_concat {a : ConnAct} (h : Matches env (trace ++ [a])) :
  Matches env trace
  := fun q ret hmem => h q ret (List.mem_append_left _ hmem)

namespace Ledgered

theorem ledger_concat (h : Ledgered env trace next held) {a : ConnAct} {held' : Objects}
    (ha : ledgerStep env held a = some held') :
  ledger env (trace ++ [a]) = some held'
  := by
  apply run_append h.ledger_eq
  apply run_cons_eq_some.mpr
  use held', ha
  rfl

/-- An action that neither makes nor destroys objects. -/
theorem neutral (h : Ledgered env trace next held) {a : ConnAct}
    (hconnect : ∀ q ret, a ≠ .connectServer q ret) (hdisconnect : ∀ q, a ≠ .disconnect q) :
  Ledgered env (trace ++ [a]) next held
  := by
  constructor
  · apply h.ledger_concat
    cases a with
    | connectServer q ret => exact absurd rfl (hconnect q ret)
    | disconnect q => exact absurd rfl (hdisconnect q)
    | _ => rfl
  · intro p
    simp only [List.mem_append, List.mem_singleton, (hdisconnect _).symm, (hconnect _ _).symm,
      or_false]
    apply h.mem_iff
  · intro q ret hmem
    simp only [List.mem_append, List.mem_singleton, (hconnect _ _).symm, or_false] at hmem
    apply h.lt_of_connected q ret hmem
  · intro q hmem
    simp only [List.mem_append, List.mem_singleton, (hdisconnect _).symm, or_false] at hmem
    apply h.lt_of_disconnected q hmem

/-- The set-up of a connection with a new number. -/
theorem connect (h : Ledgered env trace next held) (ret : BitVec 32) :
  Ledgered env (trace ++ [.connectServer next ret]) (next + 1) (held ∪ made env next)
  := by
  constructor
  · apply h.ledger_concat
    rw [ledgerStep, connectServer_snd]
  · intro p
    rw [Finset.mem_union, h.mem_iff]
    simp only [List.mem_append, List.mem_singleton, reduceCtorEq, or_false,
      ConnAct.connectServer.injEq]
    by_cases hp : p.1 = next
    · have hconnected : ¬ ∃ ret, .connectServer p.1 ret ∈ trace := by
        rintro ⟨ret, hmem⟩
        have := h.lt_of_connected _ _ hmem
        omega
      have hdisconnected : .disconnect p.1 ∉ trace := by
        intro hmem
        have := h.lt_of_disconnected _ hmem
        omega
      rw [← hp]
      simp only [hdisconnected, hconnected, not_false_eq_true, true_and, false_and, false_or]
      constructor
      · intro hmem
        exact ⟨⟨ret, Or.inr rfl⟩, hmem⟩
      · exact And.right
    · have hnot : p ∉ made env next := fun hmem => hp (fst_of_mem_made hmem)
      simp only [hp, hnot, false_and, or_false]
  · intro q ret' hmem
    obtain hmem | hmem := List.mem_append.mp hmem
    · have := h.lt_of_connected _ _ hmem
      omega
    · obtain ⟨rfl, -⟩ := ConnAct.connectServer.inj (List.mem_singleton.mp hmem)
      omega
  · intro q hmem
    simp only [List.mem_append, List.mem_singleton, reduceCtorEq, or_false] at hmem
    have := h.lt_of_disconnected _ hmem
    omega

/-- The clean-up of a live connection. -/
theorem disconnect (h : Ledgered env trace next held) (hmatches : Matches env trace) {q : ℕ}
    (hq : Live trace q) :
  Ledgered env (trace ++ [.disconnect q]) next (clientDisconnectAndClean q held)
  := by
  obtain ⟨hconnected, -, hdisconnected⟩ := hq
  constructor
  · apply h.ledger_concat
    rw [ledgerStep, if_pos]
    intro p hp
    obtain rfl := (mem_connectOrder q).mp hp
    exact (h.mem_iff p).mpr ⟨hdisconnected, ⟨0, hconnected⟩, mem_made_of_success hmatches hconnected⟩
  · intro p
    rw [mem_clientDisconnectAndClean, h.mem_iff]
    simp only [List.mem_append, List.mem_singleton, reduceCtorEq, or_false,
      ConnAct.disconnect.injEq, not_or]
    apply and_right_comm
  · intro q' ret hmem
    simp only [List.mem_append, List.mem_singleton, reduceCtorEq, or_false] at hmem
    apply h.lt_of_connected q' ret hmem
  · intro q' hmem
    obtain hmem | hmem := List.mem_append.mp hmem
    · apply h.lt_of_disconnected q' hmem
    · obtain rfl := ConnAct.disconnect.inj (List.mem_singleton.mp hmem)
      apply h.lt_of_connected q' 0 hconnected

end Ledgered

/-- The objects of a thread are those that were made and not destroyed. -/
def Tracked (env : ℕ → ConnectServerEnv) (s : HostThread) : Prop :=
  Matches env s.trace → ∃ held, Ledgered env s.trace s.next held

namespace Tracked

variable {s : HostThread}

theorem start (env : ℕ → ConnectServerEnv) :
  Tracked env .start
  := by
  intro _
  have hempty : Ledgered env [] globalRInfo ∅ := by
    constructor
    · rfl
    · simp
    · simp
    · simp
  exact ⟨_, hempty.connect 0⟩

theorem neutral (h : Tracked env s) {a : ConnAct} (hconnect : ∀ q ret, a ≠ .connectServer q ret)
    (hdisconnect : ∀ q, a ≠ .disconnect q) :
  Tracked env (s.act a)
  := by
  intro hmatches
  obtain ⟨held, hheld⟩ := h hmatches.of_concat
  exact ⟨held, hheld.neutral hconnect hdisconnect⟩

theorem connect (h : Tracked env s) (ret : BitVec 32) :
  Tracked env (HostThread.act { s with next := s.next + 1 } (.connectServer s.next ret))
  := by
  intro hmatches
  obtain ⟨held, hheld⟩ := h hmatches.of_concat
  exact ⟨_, hheld.connect ret⟩

theorem disconnect (h : Tracked env s) {q : ℕ} (hq : Live s.trace q) :
  Tracked env (s.act (.disconnect q))
  := by
  intro hmatches
  obtain ⟨held, hheld⟩ := h hmatches.of_concat
  exact ⟨_, hheld.disconnect hmatches.of_concat hq⟩

theorem getRInfo (h : Tracked env s) (create : CreateEnv) :
  Tracked env (s.getRInfo create).2
  := by
  rw [HostThread.getRInfo]
  cases s.tls with
  | some q => apply h
  | none =>
      have hasked : Tracked env
          ((s.act .wrlock).act (.setReqSock (some globalRInfo) .newRdmaConn)) :=
        (h.neutral (by simp) (by simp)).neutral (by simp) (by simp)
      have hconnected := hasked.connect create.connectServer
      simp only []
      split_ifs
      · apply hasked.neutral (by simp) (by simp)
      · apply hasked.neutral (by simp) (by simp)
      · apply neutral _ (by simp) (by simp)
        apply hconnected.neutral (by simp) (by simp)
      · apply hconnected.neutral (by simp) (by simp)

/-- The request of a hook, after which the connection is given up or not. -/
theorem giveUp (h : Tracked env s) {rInfo : Option ℕ} {req : RdmaReq} {aftermath : Aftermath}
    (hlive : LiveUses ((s.setReqSock rInfo req).giveUp aftermath rInfo).trace) :
  Tracked env ((s.setReqSock rInfo req).giveUp aftermath rInfo)
  := by
  have hused : Tracked env (s.setReqSock rInfo req) := h.neutral (by simp) (by simp)
  cases rInfo with
  | none => cases aftermath <;> apply hused
  | some q =>
      cases aftermath with
      | keeps => apply hused
      | frees => apply hused.neutral (by simp) (by simp)
      | disconnects =>
          apply hused.disconnect
          -- the request before it was sent over the connection
          obtain ⟨_, ⟨⟩, hq⟩ := hlive s.trace (some q) req ⟨[.disconnect q], rfl⟩
          apply hq.concat (by simp) (by simp)

/-- A hooked call that uses live connections only. -/
theorem serve (h : Tracked env s) {a : ConnCall} (hlive : LiveUses (s.serve a).trace) :
  Tracked env (s.serve a)
  := by
  rw [HostThread.serve] at hlive ⊢
  cases huse : a.use with
  | none => apply h
  | some use =>
      simp only [huse] at hlive
      have hgot := h.getRInfo a.create
      simp only [HostThread.forward] at hlive ⊢
      split_ifs at hlive ⊢
      · apply hgot
      · apply hgot
      · apply hgot.giveUp hlive

end Tracked

/-- After every run of the hooked calls of a thread in which only live connections are used, no
clean-up missed an object, and an object is left exactly if the set-up of its connection made it and
the connection was not disconnected. A connection that was set up has all its objects then, also
when its `client_r_info` was freed; one whose set-up failed has those that were made before. -/
theorem objects_after_run (env : ℕ → ConnectServerEnv) {acts : List ConnCall} {s : HostThread}
    (hrun : run HostThread.step .start acts = some s)
    (hsound : Along HostThread.step HostThread.Sound .start acts) (henv : Matches env s.trace) :
  ∃ held, ledger env s.trace = some held ∧
    ∀ q r, (q, r) ∈ held ↔
      .disconnect q ∉ s.trace ∧ ∃ ret, .connectServer q ret ∈ s.trace ∧
        (ret = 0 ∨ (q, r) ∈ (connectServer q (env q) ∅).2)
  := by
  have htracked : Tracked env s := by
    apply run_invariant _ (Tracked.start env) hsound hrun
    intro s a s' hs hsa hstep
    rw [HostThread.step] at hstep
    split_ifs at hstep
    obtain rfl := Option.some.inj hstep
    apply hs.serve hsa.1
  obtain ⟨held, hheld⟩ := htracked henv
  refine ⟨held, hheld.ledger_eq, ?_⟩
  intro q r
  rw [hheld.mem_iff]
  apply and_congr_right
  intro _
  constructor
  · rintro ⟨⟨ret, hret⟩, hmade⟩
    exact ⟨ret, hret, Or.inr hmade⟩
  · rintro ⟨ret, hret, rfl | hmade⟩
    · exact ⟨⟨0, hret⟩, mem_made_of_success henv hret⟩
    · exact ⟨⟨ret, hret⟩, hmade⟩

/-- A set-up in which every call succeeds. -/
def succeeding : ConnectServerEnv where
  prepare := ⟨none, none, none, .event .addrResolved 0, none, none, .event .routeResolved 0, none,
    none, none, none, none, none⟩
  registerReq := true
  registerServerMetadata := true
  postRecv := none
  connect := none
  established := .event .established 0
  ackEstablished := none
  registerRtn := true
  registerClientMetadata := true
  postSend := none
  workCompletions := 2

/-- A `socket` whose descriptor cannot be entered leaves all objects of the connection of which it
frees the `client_r_info`. -/
theorem objects_after_run_unentered :
  .free 1 ∈ (HostThread.start.serve unentered).trace ∧
    ∃ held, ledger (fun _ => succeeding) (HostThread.start.serve unentered).trace = some held ∧
      ∀ r, (1, r) ∈ held
  := by
  have htrace : (HostThread.start.serve unentered).trace =
      [.connectServer 0 0, .wrlock, .setReqSock (some 0) .newRdmaConn, .connectServer 1 0, .unlock,
        .setReqSock (some 1) .socket, .free 1] := rfl
  have hcareful : HostThread.start.Careful [unentered] :=
    ⟨fun _ _ _ _ _ => ⟨by decide, rfl, rfl⟩, by simp, fun _ _ => trivial⟩
  have hrun : run HostThread.step .start [unentered] = some (HostThread.start.serve unentered) := rfl
  have hmatches : Matches (fun _ => succeeding) (HostThread.start.serve unentered).trace := by
    intro q ret hmem
    rw [htrace] at hmem
    simp only [List.mem_cons, ConnAct.connectServer.injEq, reduceCtorEq, List.not_mem_nil,
      or_false, false_or] at hmem
    obtain ⟨rfl, rfl⟩ | ⟨rfl, rfl⟩ := hmem <;> rfl
  obtain ⟨held, hledger, hheld⟩ := objects_after_run (fun _ => succeeding) hrun
    ((HostThread.Ok.start.along_sound_iff rfl rfl _).mpr hcareful) hmatches
  constructor
  · rw [htrace]
    simp
  · refine ⟨held, hledger, ?_⟩
    intro r
    rw [hheld, htrace]
    simp

/-! ### The server -/

/-- What the calls of `connect_client_r_info` return from `setup_client_resources` on. The second
registration of `send_server_metadata_to_client` succeeds, which that function relies on. -/
structure ConnectClientEnv where
  allocPd : Option Errno
  createCompChannel : Option Errno
  createCq : Option Errno
  reqNotifyCq : Option Errno
  createQp : Option Errno
  registerClientMetadata : Bool
  postRecv : Option Errno
  accept : Option Errno
  ackEstablished : Option Errno
  workCompletions : ℤ
  registerRtn : Bool
  registerReq : Bool
  postSend : Option Errno

/-- `setup_client_resources` -/
def setupClientResources (q : ℕ) (env : ConnectClientEnv) : Objects → ℤ × Objects :=
  acquire (failed env.allocPd) (q, .pd) <|
  acquire (failed env.createCompChannel) (q, .ioCompletionChannel) <|
  acquire (failed env.createCq) (q, .cq) <|
  check (failed env.reqNotifyCq) <|
  acquire (failed env.createQp) (q, .qp) fun held => (0, held)

/-- `accept_client_connection`: whether the last registration succeeds is not looked at. -/
def acceptClientConnection (q : ℕ) (env : ConnectClientEnv) : Objects → ℤ × Objects :=
  acquire (unregistered env.registerClientMetadata (-enomem)) (q, .clientMetadataMr) <|
  check (failed env.postRecv) <|
  check (failed env.accept) <|
  check (failed env.ackEstablished) fun held =>
    if env.workCompletions ≠ 1 then (env.workCompletions, held)
    else (1, if env.registerRtn then insert (q, .rtnMr) held else held)

/-- `send_server_metadata_to_client` -/
def sendServerMetadataToClient (q : ℕ) (env : ConnectClientEnv) : Objects → ℤ × Objects :=
  acquire (unregistered env.registerReq (-enomem)) (q, .reqMr) <|
  acquire none (q, .serverMetadataMr) <|
  check (failed env.postSend) fun held => (0, held)

/-- `connect_client_r_info` after `waiting_client_conn`, which stored the `cm_client_id`. -/
def connectClientRInfo (q : ℕ) (env : ConnectClientEnv) : Objects → ℤ × Objects :=
  andThen (· = 0) (setupClientResources q env) fun held =>
    let accepted := acceptClientConnection q env held
    if accepted.1 < 0 then (-accepted.1, accepted.2)
    else sendServerMetadataToClient q env accepted.2

/-- `disconnect_and_cleanup`, which `rdma_sock_linker.c` calls -/
def disconnectAndCleanup (q : ℕ) (disconnected : GetCmEvent) (ackDisconnected : Option Errno) :
    Objects → ℤ × Objects :=
  check (refused disconnected .disconnected) <|
  check (failed ackDisconnected) fun held =>
    (0, releaseAll Resource.Rests held <|
      objectsOf q [.qp, .cmClientId, .cq, .ioCompletionChannel, .reqMr, .rtnMr, .pd])

theorem failed_neg (r : Option Errno) :
  ∀ x ∈ failed r, ¬ 0 ≤ x
  := by
  cases r with
  | none => simp [failed]
  | some e =>
      have := e.2
      simp only [failed, Option.map_some, Option.mem_def, Option.some.injEq]
      rintro x rfl
      omega

theorem acquires_setupClientResources (q : ℕ) (env : ConnectClientEnv) :
  Acquires (· = 0) (objectsOf q [.pd, .ioCompletionChannel, .cq, .qp]) (setupClientResources q env)
  := by
  apply Acquires.acquire _ (failed_ne_zero _)
  apply Acquires.acquire _ (failed_ne_zero _)
  apply Acquires.acquire _ (failed_ne_zero _)
  apply Acquires.check (failed_ne_zero _)
  apply Acquires.acquire _ (failed_ne_zero _)
  apply Acquires.done

theorem acquires_acceptClientConnection (q : ℕ) (env : ConnectClientEnv) :
  Acquires (0 ≤ ·)
    (objectsOf q
      (.clientMetadataMr :: if env.workCompletions = 1 ∧ env.registerRtn then [.rtnMr] else []))
    (acceptClientConnection q env)
  := by
  apply Acquires.acquire
  · cases env.registerClientMetadata <;> simp [unregistered, enomem]
  · apply Acquires.check (failed_neg _)
    apply Acquires.check (failed_neg _)
    apply Acquires.check (failed_neg _)
    refine ⟨if env.workCompletions ≠ 1 then env.workCompletions else 1, _, List.prefix_refl _,
      fun _ => rfl, ?_⟩
    intro held
    by_cases hcompletions : env.workCompletions = 1
    · cases hrtn : env.registerRtn <;> simp [hcompletions]
    · simp [hcompletions]

theorem acquires_sendServerMetadataToClient (q : ℕ) (env : ConnectClientEnv) :
  Acquires (· = 0) (objectsOf q [.reqMr, .serverMetadataMr]) (sendServerMetadataToClient q env)
  := by
  apply Acquires.acquire _ (unregistered_ne_zero _ (by decide))
  apply Acquires.acquire _ (by simp)
  apply Acquires.check (failed_ne_zero _)
  apply Acquires.done

/-- A set-up that succeeds makes all objects but the region of the reply, which may be missing. -/
theorem mem_connectClientRInfo {q : ℕ} {env : ConnectClientEnv} {held : Objects}
    (h : (connectClientRInfo q env held).1 = 0) {p : ℕ × Resource} (hp : p ≠ (q, .rtnMr)) :
  p ∈ (connectClientRInfo q env held).2 ↔
    p ∈ held ∨ p ∈ objectsOf q [.pd, .ioCompletionChannel, .cq, .qp, .clientMetadataMr, .reqMr,
      .serverMetadataMr]
  := by
  obtain ⟨r₁, l₁, -, hok₁, h₁⟩ := acquires_setupClientResources q env
  obtain ⟨r₂, l₂, -, hok₂, h₂⟩ := acquires_acceptClientConnection q env
  obtain ⟨r₃, l₃, -, hok₃, h₃⟩ := acquires_sendServerMetadataToClient q env
  simp only [connectClientRInfo, andThen, h₁, h₂, h₃] at h ⊢
  split_ifs at h ⊢ with hr₁ hr₂
  · omega
  · rw [hok₁ hr₁, hok₂ (not_lt.mp hr₂), hok₃ h]
    simp only [Finset.mem_union, List.mem_toFinset, mem_objectsOf]
    by_cases hq : p.1 = q
    · have hrtn : p.2 ≠ .rtnMr := fun hrtn => hp (Prod.ext hq hrtn)
      simp only [hq, true_and]
      split_ifs
      all_goals
        simp only [List.mem_cons, List.not_mem_nil, hrtn, or_false, or_assoc]
    · simp only [hq, false_and, or_false]
  · exact absurd h hr₁

/-- A memory region lies over its protection domain, and over nothing else. -/
theorem eq_of_restsIn_mr {held : Objects} {q : ℕ} {r : Resource} (hr : r.restsOn = [.pd])
    {p : ℕ × Resource} (h : Relation.ReflTransGen (RestsIn Resource.Rests held) (q, r) p) :
  p = (q, r) ∨ p = (q, .pd)
  := by
  induction h with
  | refl => exact Or.inl rfl
  | tail _ hstep ih =>
      obtain ⟨⟨hq, hmem⟩, -⟩ := hstep
      obtain rfl | rfl := ih
      · rw [hr, List.mem_singleton] at hmem
        exact Or.inr (Prod.ext hq.symm hmem)
      · cases hmem

/-- A clean-up that returns zero released the objects of its list. -/
theorem disconnectAndCleanup_snd {q : ℕ} {disconnected : GetCmEvent}
    {ackDisconnected : Option Errno} {held : Objects}
    (h : (disconnectAndCleanup q disconnected ackDisconnected held).1 = 0) :
  (disconnectAndCleanup q disconnected ackDisconnected held).2 =
    releaseAll Resource.Rests held
      (objectsOf q [.qp, .cmClientId, .cq, .ioCompletionChannel, .reqMr, .rtnMr, .pd])
  := by
  have hrefused := refused_ne_zero disconnected .disconnected
  have hfailed := failed_ne_zero ackDisconnected
  rw [disconnectAndCleanup] at h ⊢
  cases hr : refused disconnected .disconnected with
  | some r =>
      rw [hr] at h
      exact absurd h (hrefused r hr)
  | none =>
      cases hf : failed ackDisconnected with
      | some r =>
          rw [hr, hf] at h
          exact absurd h (hfailed r hf)
      | none => simp only [check]

/-- `disconnect_and_cleanup` deregisters two of the four memory regions, so that the protection
domain is left with the other two, whatever else is there. -/
theorem cleanup_leaves_domain (q : ℕ) (env : ConnectClientEnv) {held : Objects}
    (hfresh : ∀ p ∈ held, p.1 ≠ q) (disconnected : GetCmEvent) (ackDisconnected : Option Errno) :
  let connected := connectClientRInfo q env (insert (q, .cmClientId) held)
  let cleaned := disconnectAndCleanup q disconnected ackDisconnected connected.2
  connected.1 = 0 → cleaned.1 = 0 → ∀ p, p ∈ cleaned.2 ↔
    p ∈ held ∨ p ∈ objectsOf q [.pd, .clientMetadataMr, .serverMetadataMr]
  := by
  intro connected cleaned hconnected hcleaned p
  have hmem : ∀ {p}, p ≠ (q, Resource.rtnMr) → (p ∈ connected.2 ↔ _) :=
    fun hp => mem_connectClientRInfo hconnected hp
  have hreleased : cleaned.2 = releaseAll Resource.Rests connected.2 _ :=
    disconnectAndCleanup_snd hcleaned
  rw [hreleased, mem_releaseAll rests_irrefl (usersFirst_objectsOf (by decide))]
  have hother : ∀ p : ℕ × Resource, p.1 ≠ q → (p ∈ connected.2 ↔ p ∈ held) := by
    intro p hpq
    have hp : ∀ r, p ≠ (q, r) := by
      rintro r rfl
      apply hpq rfl
    rw [hmem (hp _), Finset.mem_insert, mem_objectsOf]
    simp only [hp, hpq, false_or, false_and, or_false]
  have hregion : ∀ r ∈ [Resource.clientMetadataMr, .serverMetadataMr], (q, r) ∈ connected.2 ∧
      (q, r) ∉ objectsOf q [.qp, .cmClientId, .cq, .ioCompletionChannel, .reqMr, .rtnMr, .pd] := by
    intro r hr
    rw [hmem (by rintro ⟨⟩; simp at hr), mem_objectsOf, mem_objectsOf]
    simp only [List.mem_cons, List.not_mem_nil, or_false] at hr
    obtain rfl | rfl := hr <;> simp
  constructor
  · rintro ⟨b, hb, hnot, h⟩
    have hbp := fst_eq_of_restsIn h
    by_cases hbq : b.1 = q
    · -- of this connection only the two regions are there and not released
      right
      obtain ⟨q, r⟩ := b
      obtain rfl : q = _ := hbq
      cases r with
      | clientMetadataMr | serverMetadataMr =>
          obtain rfl | rfl := eq_of_restsIn_mr rfl h <;> simp [mem_objectsOf]
      | cmEventChannel =>
          rw [hmem (by simp), Finset.mem_insert, mem_objectsOf] at hb
          obtain (hb | hb) | hb := hb
          · simp at hb
          · exact absurd rfl (hfresh _ hb)
          · simp at hb
      | _ => simp [mem_objectsOf] at hnot
    · left
      have hp : p ∈ connected.2 := by
        cases h with
        | refl => apply hb
        | tail _ hstep => apply hstep.2
      apply (hother p (hbp ▸ hbq)).mp hp
  · rintro (hp | hp)
    · have hpq := hfresh p hp
      refine ⟨p, (hother p hpq).mpr hp, ?_, .refl⟩
      intro hreleased
      apply hpq (mem_objectsOf.mp hreleased).1
    · obtain ⟨q, r⟩ := p
      obtain ⟨rfl, hr⟩ := mem_objectsOf.mp hp
      simp only [List.mem_cons, List.not_mem_nil, or_false] at hr
      obtain rfl | rfl | rfl := hr
      · obtain ⟨hb, hnot⟩ := hregion .clientMetadataMr (by simp)
        refine ⟨_, hb, hnot, .single ⟨⟨rfl, by simp [Resource.restsOn]⟩, ?_⟩⟩
        rw [hmem (by simp), mem_objectsOf]
        simp
      · obtain ⟨hb, hnot⟩ := hregion .clientMetadataMr (by simp)
        exact ⟨_, hb, hnot, .refl⟩
      · obtain ⟨hb, hnot⟩ := hregion .serverMetadataMr (by simp)
        exact ⟨_, hb, hnot, .refl⟩

/-- A set-up in which every call succeeds. -/
def ConnectClientEnv.succeeding : ConnectClientEnv :=
  ⟨none, none, none, none, none, true, none, none, none, 1, true, true, none⟩

/-- The objects of a server with the connection `1`. -/
def others : Objects :=
  (connectClientRInfo 1 .succeeding (insert (1, .cmClientId) ∅)).2

/-- A connection that is set up and cleaned up beside another leaves its protection domain, and the
queue pair of the other. -/
theorem cleanup_leaves_domain_beside :
  let cleaned := (disconnectAndCleanup 0 (.event .disconnected 0) none
    (connectClientRInfo 0 .succeeding (insert (0, .cmClientId) others)).2).2
  (0, Resource.pd) ∈ cleaned ∧ (1, Resource.qp) ∈ cleaned
  := by
  have hothers : ∀ {p}, p ≠ (1, Resource.rtnMr) → (p ∈ others ↔ _) :=
    fun hp => mem_connectClientRInfo rfl hp
  have hfresh : ∀ p ∈ others, p.1 ≠ 0 := by
    rintro ⟨q, r⟩ hp (rfl : q = 0)
    rw [hothers (by simp), mem_objectsOf] at hp
    simp at hp
  constructor
  · apply (cleanup_leaves_domain 0 _ hfresh _ _ rfl rfl _).mpr
    simp [mem_objectsOf]
  · apply (cleanup_leaves_domain 0 _ hfresh _ _ rfl rfl _).mpr
    left
    rw [hothers (by simp), mem_objectsOf]
    simp

end Resources

end SocketToRdma
