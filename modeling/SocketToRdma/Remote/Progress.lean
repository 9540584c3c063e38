import SocketToRdma.Remote.Atomic

/-!
# Calls return

Whatever the order of the actions of a session, and whether or not they are timely: a request is
served once, with the header of the call it was made for. Only a long `read` is excepted, which is
answered more than once.

The steps that are not the start of a call lower a measure, so they come to an end. As long as a
call has not returned, one of them is possible that depends on nothing outside of the session, or
the server is serving its request and goes on when the system call returns, or its request waits:
for a client to connect after an earlier `RDMA_REQ_NEW_RDMA_CONN`, which another thread may never
do, or for a disconnection after an earlier `RDMA_REQ_DEL_RDMA_CONN`.
-/

namespace SocketToRdma

open QueuePair Run

/-- The header of the posted request is that of the call. -/
structure Carries (posted : Request) (a : ReqArgs) : Prop where
  code : rdmaReq posted.mem = a.reqRdma
  bufSz : bufSz posted.mem = a.bufSz
  port : port posted.mem = a.port
  sockfd : htonl posted.immData = a.sockfd

namespace Session

/-- If the action serves a request, then the request is answered with one message. -/
def Short (s : Session) : SessionAct → Prop
  | .serve env => ∀ imm, s.server.pc = .serve imm →
      ¬ (s.server.cInfo.request = some .read ∧ 599988 ≤ env.val.outcome.ret.toInt)
  | _ => True

/-- If the action serves a request, then the request is that of the call under way: it has the
header that was posted. -/
def ServesCall (s : Session) : SessionAct → Prop
  | .serve _ => ∀ imm, s.server.pc = .serve imm →
      ∃ a posted, s.host.pc = .pollCq a posted ∧ Carries posted a ∧ imm = posted.immData ∧
        s.server.cInfo.mem.AgreeOn posted.mem 0 reqData
  | _ => True

/-- The action is the start of a call. -/
def IsCall : SessionAct → Prop
  | .call _ => True
  | _ => False

instance : DecidablePred IsCall := fun a => by
  cases a <;> unfold IsCall <;> infer_instance

/-- The action serves a request. -/
def IsServe : SessionAct → Prop
  | .serve _ => True
  | _ => False

instance : DecidablePred IsServe := fun a => by
  cases a <;> unfold IsServe <;> infer_instance

/-- The actions of a call under way: neither is a call started nor are the messages written
between two calls. -/
def Internal : SessionAct → Prop
  | .call _ | .edit _ => False
  | _ => True

/-- The actions that depend on nothing outside of the session: the steps of the two threads other
than system calls and the wait for a client, and the arrivals. -/
def Own : SessionAct → Prop
  | .host | .server | .arriveAtServer | .arriveAtHost => True
  | _ => False

end Session

/-! ### How far a call is -/

theorem header_fillRequest (m : ByteMem) (a : ReqArgs) :
  rdmaReq (fillRequest m a) = a.reqRdma ∧ bufSz (fillRequest m a) = a.bufSz ∧
    port (fillRequest m a) = a.port
  := ⟨rdmaReq_fillRequest m a, bufSz_fillRequest m a,
    ByteMem.loadBits_storeBits _ _ _ (by decide)⟩

theorem carries_of_prepareRequest {h h' : RInfo} {a : ReqArgs}
    (hprep : prepareRequest h a = some h') :
  Carries h'.posted a
  := by
  simp only [prepareRequest, Option.map_eq_some_iff] at hprep
  obtain ⟨m, hm, rfl⟩ := hprep
  have hagree : m.AgreeOn (fillRequest h.mem a) 0 reqData := by
    split at hm
    · simp only [copyMessage] at hm
      split at hm
      · obtain rfl := Option.some.inj hm
        apply ByteMem.agreeOn_store _ _ _ (Or.inl (by decide))
      · cases hm
    · obtain rfl := Option.some.inj hm
      apply ByteMem.AgreeOn.refl
  obtain ⟨hcode, hbufSz, hport⟩ := header_fillRequest h.mem a
  constructor
  · rw [← hcode]
    apply (hagree.mono (le_refl 0) (by decide)).loadBits
  · rw [← hbufSz]
    apply (hagree.mono (by decide) (by decide)).loadBits
  · rw [← hport]
    apply (hagree.mono (by decide) (by decide)).loadBits
  · apply htonl_htonl

/-- How far the call under way is, with the number of calls under way and the number of those
that were served. -/
inductive Underway : Session → ℕ → ℕ → Prop
  | idle {hq sq h spc ci} (net : Net hq sq [] [] [] 0 0 1) (resting : spc.Resting) :
      Underway ⟨⟨.idle, hq, h⟩, ⟨spc, sq, ci⟩⟩ 0 0
  | posting {hq sq h a spc ci} (net : Net hq sq [] [] [] 0 1 1) (carries : Carries h.posted a)
      (resting : spc.Resting) :
      Underway ⟨⟨.postWriteReq a, hq, h⟩, ⟨spc, sq, ci⟩⟩ 1 0
  | toServer {hq sq h a posted spc ci} (net : Net hq sq [posted] [] [] 0 1 1)
      (carries : Carries posted a) (resting : spc.Resting) :
      Underway ⟨⟨.pollCq a posted, hq, h⟩, ⟨spc, sq, ci⟩⟩ 1 0
  | atServer {hq sq h a posted spc ci} (net : Net hq sq [] [posted.immData] [] 0 1 0)
      (carries : Carries posted a) (resting : spc.Resting)
      (header : (spc.settle ci).mem.AgreeOn posted.mem 0 reqData) :
      Underway ⟨⟨.pollCq a posted, hq, h⟩, ⟨spc, sq, ci⟩⟩ 1 0
  | received {hq sq h a posted ci} (net : Net hq sq [] [] [] 0 1 0) (carries : Carries posted a)
      (header : ci.mem.AgreeOn posted.mem 0 reqData) :
      Underway ⟨⟨.pollCq a posted, hq, h⟩, ⟨.received posted.immData, sq, ci⟩⟩ 1 0
  | serving {hq sq h a posted ci} (net : Net hq sq [] [] [] 0 1 1) (carries : Carries posted a)
      (header : ci.mem.AgreeOn posted.mem 0 reqData) :
      Underway ⟨⟨.pollCq a posted, hq, h⟩, ⟨.serve posted.immData, sq, ci⟩⟩ 1 0
  | replying {hq sq h a posted req awaits ci} (net : Net hq sq [] [] [] 0 1 1) :
      Underway ⟨⟨.pollCq a posted, hq, h⟩, ⟨.reply req 0 awaits, sq, ci⟩⟩ 1 1
  | toHost {hq sq h a posted spc ci m} (net : Net hq sq [] [] [m] 0 1 1) (resting : spc.Resting) :
      Underway ⟨⟨.pollCq a posted, hq, h⟩, ⟨spc, sq, ci⟩⟩ 1 1
  | atHost {hq sq h a posted spc ci} (net : Net hq sq [] [] [] 1 0 1) (resting : spc.Resting) :
      Underway ⟨⟨.pollCq a posted, hq, h⟩, ⟨spc, sq, ci⟩⟩ 1 1

/-- What is left of a request is outside of the header of the next one. -/
theorem settle_header (spc : WorkerPc) (c : ClientRInfo) :
  (spc.settle c).mem.AgreeOn c.mem 0 reqData
  := by
  cases spc with
  | finish req chunked awaits =>
      have herrno : (setErrno (if chunked then c.mem.memset rtnData 0 8 else c.mem) 0).AgreeOn
          c.mem 0 reqData := by
        apply (setErrno_agreeOn _ _ (Or.inl (by decide))).trans
        split
        · apply ByteMem.agreeOn_store _ _ _ (Or.inl (by decide))
        · apply ByteMem.AgreeOn.refl
      apply ByteMem.AgreeOn.trans _ herrno
      simp only [WorkerPc.settle, ClientRInfo.finish]
      unfold branchCleared
      split
      · apply ByteMem.agreeOn_store _ _ _ (Or.inl (by decide))
      · apply ByteMem.agreeOn_store _ _ _ (Or.inl (by decide))
      · apply ByteMem.AgreeOn.refl
  | _ => apply ByteMem.AgreeOn.refl

section

variable {s s' : Session} {n k : ℕ}

/-- After the step, `m` calls have returned that were under way or started with it, and `l`
requests were served. -/
def Underway.After (s' : Session) (n k : ℕ) (a : SessionAct) : Prop :=
  ∃ n' k' r, Underway s' n' k' ∧ n + (if Session.IsCall a then 1 else 0) = n' + r ∧
    k + (if Session.IsServe a then 1 else 0) = k' + r

theorem Underway.edit {m : ByteMem} (hu : Underway s n k) (h : s.step (.edit m) = some s') :
  Underway.After s' n k (.edit m)
  := by
  cases hu with
  | idle net resting =>
      obtain rfl := Option.some.inj h
      exact ⟨0, 0, 0, .idle net resting, rfl, rfl⟩
  | _ => cases h

theorem Underway.call {a : ReqArgs} (hu : Underway s n k) (h : s.step (.call a) = some s') :
  Underway.After s' n k (.call a)
  := by
  cases hu with
  | idle net resting =>
      simp only [Session.step, Session.callStep] at h
      split at h
      · simp only [Option.map_map, Option.map_eq_some_iff] at h
        obtain ⟨h', hprep, rfl⟩ := h
        have hcarries := carries_of_prepareRequest hprep
        exact ⟨1, 0, 0, .posting net.hostPostRecv hcarries resting, rfl, rfl⟩
      · cases h
  | _ => cases h

theorem Underway.serve {env : PostingEnv} (hu : Underway s n k) (hshort : s.Short (.serve env))
    (h : s.step (.serve env) = some s') :
  Underway.After s' n k (.serve env)
  := by
  cases hu with
  | serving net carries header =>
      obtain rfl := Option.some.inj h
      rename_i hq sq hi a posted ci
      have hone : messageCount env { ci with sockfd := htonl posted.immData } = 1 := by
        rw [messageCount_eq_one_iff]
        apply hshort _ rfl
      rw [hone]
      exact ⟨1, 1, 0, .replying net, rfl, rfl⟩
  | idle _ resting | posting _ _ resting | toServer _ _ resting | atServer _ _ resting
  | toHost _ resting | atHost _ resting =>
      simp only [Session.step, Session.serveStep] at h
      split at h
      · cases resting
      · cases h
  | _ => cases h

theorem Underway.host (hu : Underway s n k) (h : s.step .host = some s') :
  Underway.After s' n k .host
  := by
  cases hu with
  | idle => cases h
  | posting net carries resting =>
      obtain rfl := Option.some.inj h
      exact ⟨1, 0, 0, .toServer (net.postRequest _) carries resting, rfl, rfl⟩
  | toServer net carries resting =>
      obtain ⟨hq', net', rfl, -⟩ | ⟨hq', n, hn, -⟩ := host_poll net h
      · exact ⟨1, 0, 0, .toServer net' carries resting, rfl, rfl⟩
      · cases hn
  | atServer net carries resting header =>
      obtain ⟨hq', net', rfl, -⟩ | ⟨hq', n, hn, -⟩ := host_poll net h
      · exact ⟨1, 0, 0, .atServer net' carries resting header, rfl, rfl⟩
      · cases hn
  | received net carries header =>
      obtain ⟨hq', net', rfl, -⟩ | ⟨hq', n, hn, -⟩ := host_poll net h
      · exact ⟨1, 0, 0, .received net' carries header, rfl, rfl⟩
      · cases hn
  | serving net carries header =>
      obtain ⟨hq', net', rfl, -⟩ | ⟨hq', n, hn, -⟩ := host_poll net h
      · exact ⟨1, 0, 0, .serving net' carries header, rfl, rfl⟩
      · cases hn
  | replying net =>
      obtain ⟨hq', net', rfl, -⟩ | ⟨hq', n, hn, -⟩ := host_poll net h
      · exact ⟨1, 1, 0, .replying net', rfl, rfl⟩
      · cases hn
  | toHost net resting =>
      obtain ⟨hq', net', rfl, -⟩ | ⟨hq', n, hn, -⟩ := host_poll net h
      · exact ⟨1, 1, 0, .toHost net' resting, rfl, rfl⟩
      · cases hn
  | atHost net resting =>
      obtain ⟨hq', net', rfl, -⟩ | ⟨hq', n, hn, net', rfl, -⟩ := host_poll net h
      · exact ⟨1, 1, 0, .atHost net' resting, rfl, rfl⟩
      · obtain rfl := Nat.succ.inj hn
        exact ⟨0, 0, 1, .idle net' resting, rfl, rfl⟩

theorem Underway.server (hu : Underway s n k) (h : s.step .server = some s') :
  Underway.After s' n k .server
  := by
  cases hu with
  | idle net resting =>
      obtain ⟨spc', sq', ci', resting', -, net', rfl⟩ | ⟨sq', imm, imms, himms, -⟩ :=
        server_rest net resting h
      · exact ⟨0, 0, 0, .idle net' resting', rfl, rfl⟩
      · cases himms
  | posting net carries resting =>
      obtain ⟨spc', sq', ci', resting', -, net', rfl⟩ | ⟨sq', imm, imms, himms, -⟩ :=
        server_rest net resting h
      · exact ⟨1, 0, 0, .posting net' carries resting', rfl, rfl⟩
      · cases himms
  | toServer net carries resting =>
      obtain ⟨spc', sq', ci', resting', -, net', rfl⟩ | ⟨sq', imm, imms, himms, -⟩ :=
        server_rest net resting h
      · exact ⟨1, 0, 0, .toServer net' carries resting', rfl, rfl⟩
      · cases himms
  | atServer net carries resting header =>
      obtain ⟨spc', sq', ci', resting', hsettle, net', rfl⟩ |
          ⟨sq', imm, imms, himms, hsettle, net', rfl⟩ := server_rest net resting h
      · rw [← hsettle] at header
        exact ⟨1, 0, 0, .atServer net' carries resting' header, rfl, rfl⟩
      · obtain ⟨rfl, rfl⟩ := List.cons.inj himms
        rw [hsettle] at header
        exact ⟨1, 0, 0, .received net' carries header, rfl, rfl⟩
  | received net carries header =>
      obtain rfl := Option.some.inj h
      exact ⟨1, 0, 0, .serving net.serverPostRecv carries header, rfl, rfl⟩
  | serving => cases h
  | replying net =>
      obtain rfl := Option.some.inj h
      exact ⟨1, 1, 0, .toHost (net.postReply _) trivial, rfl, rfl⟩
  | toHost net resting =>
      obtain ⟨spc', sq', ci', resting', -, net', rfl⟩ | ⟨sq', imm, imms, himms, -⟩ :=
        server_rest net resting h
      · exact ⟨1, 1, 0, .toHost net' resting', rfl, rfl⟩
      · cases himms
  | atHost net resting =>
      obtain ⟨spc', sq', ci', resting', -, net', rfl⟩ | ⟨sq', imm, imms, himms, -⟩ :=
        server_rest net resting h
      · exact ⟨1, 1, 0, .atHost net' resting', rfl, rfl⟩
      · cases himms

theorem Underway.connectReturn (hu : Underway s n k) (h : s.step .connectReturn = some s') :
  Underway.After s' n k .connectReturn
  := by
  refine ⟨n, k, 0, ?_, rfl, rfl⟩
  cases hu with
  | idle net =>
      obtain ⟨rfl, rfl⟩ := connectReturn_cases h
      exact .idle net trivial
  | posting net carries =>
      obtain ⟨rfl, rfl⟩ := connectReturn_cases h
      exact .posting net carries trivial
  | toServer net carries =>
      obtain ⟨rfl, rfl⟩ := connectReturn_cases h
      exact .toServer net carries trivial
  | atServer net carries resting header =>
      obtain ⟨rfl, rfl⟩ := connectReturn_cases h
      exact .atServer net carries trivial header
  | toHost net =>
      obtain ⟨rfl, rfl⟩ := connectReturn_cases h
      exact .toHost net trivial
  | atHost net =>
      obtain ⟨rfl, rfl⟩ := connectReturn_cases h
      exact .atHost net trivial
  | _ => cases h

theorem Underway.arriveAtServer (hu : Underway s n k) (h : s.step .arriveAtServer = some s') :
  Underway.After s' n k .arriveAtServer
  := by
  cases hu with
  | toServer net carries resting =>
      obtain ⟨hq', sq', req, rest, n, hts, hn, net', rfl⟩ := arriveAtServer_cases net h
      obtain ⟨rfl, rfl⟩ := List.cons.inj hts
      obtain rfl := Nat.succ.inj hn
      refine ⟨1, 0, 0, .atServer net' carries resting ?_, rfl, rfl⟩
      apply (settle_header _ _).trans
      apply (ByteMem.agreeOn_store_load _ _ _ _).mono (le_refl 0) (by decide)
  | idle net | posting net | atServer net | received net | serving net | replying net | toHost net
  | atHost net =>
      obtain ⟨hq', sq', req, rest, n, hts, -⟩ := arriveAtServer_cases net h
      cases hts

theorem Underway.arriveAtHost (hu : Underway s n k) (h : s.step .arriveAtHost = some s') :
  Underway.After s' n k .arriveAtHost
  := by
  cases hu with
  | toHost net resting =>
      obtain ⟨hq', sq', m', rest, n, hth, hn, net', rfl⟩ := arriveAtHost_cases net h
      obtain ⟨rfl, rfl⟩ := List.cons.inj hth
      obtain rfl := Nat.succ.inj hn
      exact ⟨1, 1, 0, .atHost net' resting, rfl, rfl⟩
  | idle net | posting net | toServer net | atServer net | received net | serving net
  | replying net | atHost net =>
      obtain ⟨hq', sq', m, rest, n, hth, -⟩ := arriveAtHost_cases net h
      cases hth

theorem Underway.completeHost (hu : Underway s n k) (h : s.step .completeHost = some s') :
  Underway.After s' n k .completeHost
  := by
  simp only [Session.step, Option.map_eq_some_iff] at h
  obtain ⟨qp, hcomplete, rfl⟩ := h
  refine ⟨n, k, 0, ?_, rfl, rfl⟩
  cases hu with
  | idle net resting => exact .idle (net.completeHost hcomplete) resting
  | posting net carries resting => exact .posting (net.completeHost hcomplete) carries resting
  | toServer net carries resting => exact .toServer (net.completeHost hcomplete) carries resting
  | atServer net carries resting header =>
      exact .atServer (net.completeHost hcomplete) carries resting header
  | received net carries header => exact .received (net.completeHost hcomplete) carries header
  | serving net carries header => exact .serving (net.completeHost hcomplete) carries header
  | replying net => exact .replying (net.completeHost hcomplete)
  | toHost net resting => exact .toHost (net.completeHost hcomplete) resting
  | atHost net resting => exact .atHost (net.completeHost hcomplete) resting

theorem Underway.completeServer (hu : Underway s n k) (h : s.step .completeServer = some s') :
  Underway.After s' n k .completeServer
  := by
  simp only [Session.step, Option.map_eq_some_iff] at h
  obtain ⟨qp, hcomplete, rfl⟩ := h
  refine ⟨n, k, 0, ?_, rfl, rfl⟩
  cases hu with
  | idle net resting => exact .idle (net.completeServer hcomplete) resting
  | posting net carries resting => exact .posting (net.completeServer hcomplete) carries resting
  | toServer net carries resting => exact .toServer (net.completeServer hcomplete) carries resting
  | atServer net carries resting header =>
      exact .atServer (net.completeServer hcomplete) carries resting header
  | received net carries header => exact .received (net.completeServer hcomplete) carries header
  | serving net carries header => exact .serving (net.completeServer hcomplete) carries header
  | replying net => exact .replying (net.completeServer hcomplete)
  | toHost net resting => exact .toHost (net.completeServer hcomplete) resting
  | atHost net resting => exact .atHost (net.completeServer hcomplete) resting

end

/-- A step takes a call on its way further. -/
theorem Underway.step {s s' : Session} {n k : ℕ} {a : SessionAct} (hu : Underway s n k)
    (hshort : s.Short a) (h : s.step a = some s') :
  Underway.After s' n k a
  := by
  cases a with
  | edit m => apply hu.edit h
  | call a => apply hu.call h
  | host => apply hu.host h
  | server => apply hu.server h
  | serve env => apply hu.serve hshort h
  | connectReturn => apply hu.connectReturn h
  | arriveAtServer => apply hu.arriveAtServer h
  | arriveAtHost => apply hu.arriveAtHost h
  | completeHost => apply hu.completeHost h
  | completeServer => apply hu.completeServer h

/-- If a request is served, it is that of the call under way. -/
theorem Underway.servesCall {s : Session} {n k : ℕ} (hu : Underway s n k) (a : SessionAct) :
  s.ServesCall a
  := by
  cases a with
  | serve env =>
      intro imm hpc
      cases hu with
      | serving net carries header =>
          obtain rfl := WorkerPc.serve.inj hpc
          exact ⟨_, _, rfl, carries, rfl, header⟩
      | idle _ resting | posting _ _ resting | toServer _ _ resting | atServer _ _ resting
      | toHost _ resting | atHost _ resting =>
          dsimp only at hpc
          subst hpc
          cases resting
      | _ => cases hpc
  | _ => trivial

/-- A run counts the calls that were made and the requests that were served. -/
theorem Underway.run {s s' : Session} {n k : ℕ} {acts : List SessionAct} (hu : Underway s n k)
    (hshort : Along Session.step Session.Short s acts)
    (hrun : Run.run Session.step s acts = some s') :
  ∃ n' k' r, Underway s' n' k' ∧ n + acts.countP (fun a => Session.IsCall a) = n' + r ∧
    k + acts.countP (fun a => Session.IsServe a) = k' + r
  := by
  induction acts generalizing s n k with
  | nil =>
      obtain rfl := Option.some.inj hrun
      exact ⟨n, k, 0, hu, rfl, rfl⟩
  | cons a acts ih =>
      obtain ⟨s₁, hs₁, hrun₁⟩ := run_cons_eq_some.mp hrun
      obtain ⟨n₁, k₁, r₁, hu₁, hn₁, hk₁⟩ := hu.step hshort.1 hs₁
      obtain ⟨n', k', r, hu', hn, hk⟩ := ih hu₁ (hshort.2 s₁ hs₁) hrun₁
      refine ⟨n', k', r + r₁, hu', ?_, ?_⟩
      · simp only [List.countP_cons, decide_eq_true_eq]
        omega
      · simp only [List.countP_cons, decide_eq_true_eq]
        omega

/-- In every run in which no long `read` is served, a request that is served is that of the call
under way and has its header; every call is served at most once, and exactly once when it has
returned. -/
theorem requests_served_once (h : RInfo) (c : ClientRInfo) (sends : ℕ) (acts : List SessionAct)
    (hshort : Along Session.step Session.Short (.connected h c sends) acts) {s : Session}
    (hrun : run Session.step (.connected h c sends) acts = some s) :
  Along Session.step Session.ServesCall (.connected h c sends) acts ∧
    acts.countP (fun a => Session.IsServe a) ≤ acts.countP (fun a => Session.IsCall a) ∧
    acts.countP (fun a => Session.IsCall a) ≤ acts.countP (fun a => Session.IsServe a) + 1 ∧
    (s.host.pc = .idle →
      acts.countP (fun a => Session.IsServe a) = acts.countP (fun a => Session.IsCall a))
  := by
  have hstart : Underway (.connected h c sends) 0 0 := .idle (Net.connected sends) trivial
  have hstep : ∀ s a s', (∃ n k, Underway s n k) → s.Short a → s.step a = some s' →
      ∃ n k, Underway s' n k := by
    rintro s a s' ⟨n, k, hu⟩ ha h
    obtain ⟨n', k', r, hu', -⟩ := hu.step ha h
    exact ⟨n', k', hu'⟩
  constructor
  · apply along_of_invariant hstep _ ⟨0, 0, hstart⟩ hshort
    rintro s a ⟨n, k, hu⟩ -
    apply hu.servesCall
  · obtain ⟨n, k, r, hu, hn, hk⟩ := hstart.run hshort hrun
    cases hu with
    | idle => exact ⟨by omega, by omega, fun _ => by omega⟩
    | _ => exact ⟨by omega, by omega, nofun⟩

/-! ### What is left of a call -/

namespace CallerPc

/-- The steps that the host still has before it. -/
def work : CallerPc → ℕ
  | .idle => 0
  | .postWriteReq _ => 15
  | .pollCq _ _ => 1

end CallerPc

namespace WorkerPc

/-- The steps that the server still has before it. -/
def work : WorkerPc → ℕ
  | .pollCq => 0
  | .received _ => 9
  | .serve _ => 8
  | .reply _ posts _ => 7 + 5 * posts
  | .finish _ _ _ => 2
  | .waitConnected => 1
  | .waitDisconnected => 0

theorem work_awaits_le (awaits : Awaits) :
  awaits.pc.work ≤ 1
  := by
  cases awaits <;> decide

end WorkerPc

namespace Session

/-- The steps that are left: of the two threads, and of what is under way between them. -/
def work (s : Session) : ℕ :=
  s.host.pc.work + s.host.qp.load 13 + s.server.pc.work + s.server.qp.load 4 +
    9 * s.server.qp.imms.length

theorem work_host {s : Session} {host : Caller} (h : s.hostStep = some host) :
  ({ s with host } : Session).work < s.work
  := by
  obtain ⟨⟨pc, hq, hi⟩, server⟩ := s
  simp only [hostStep] at h
  cases pc with
  | idle => cases h
  | postWriteReq a =>
      obtain rfl := Option.some.inj h
      simp only [work, CallerPc.work, Qp.load_postSend]
      omega
  | pollCq a posted =>
      rw [Option.map_eq_some_iff] at h
      obtain ⟨⟨wc, hq'⟩, hpoll, rfl⟩ := h
      have hload := Qp.load_poll 13 hpoll
      cases wc with
      | _ =>
          simp only [work, CallerPc.work]
          omega

theorem work_server {s : Session} {server : Worker} (h : s.serverStep = some server) :
  ({ s with server } : Session).work < s.work
  := by
  obtain ⟨host, ⟨pc, sq, ci⟩⟩ := s
  simp only [serverStep] at h
  cases pc with
  | pollCq =>
      rw [Option.map_eq_some_iff] at h
      obtain ⟨⟨wc, sq'⟩, hpoll, rfl⟩ := h
      have hload := Qp.load_poll 4 hpoll
      have himms := congrArg List.length (Qp.imms_poll hpoll).1
      rw [List.length_append] at himms
      cases wc with
      | _ =>
          simp at himms
          simp only [work, WorkerPc.work]
          omega
  | received imm =>
      obtain rfl := Option.some.inj h
      simp only [work, WorkerPc.work, Qp.load_postRecv, Qp.imms_postRecv]
      omega
  | reply req posts awaits =>
      cases posts with
      | zero =>
          obtain rfl := Option.some.inj h
          simp only [work, WorkerPc.work, Qp.load_postSend, Qp.imms_postSend]
          omega
      | succ posts =>
          obtain rfl := Option.some.inj h
          simp only [work, WorkerPc.work, Qp.load_postSend, Qp.imms_postSend]
          omega
  | finish req chunked awaits =>
      obtain rfl := Option.some.inj h
      have hle := WorkerPc.work_awaits_le awaits
      simp only [work]
      rw [show (WorkerPc.finish req chunked awaits).work = 2 from rfl]
      omega
  | _ => cases h

theorem work_serve {s : Session} {server : Worker} {env : PostingEnv} (hshort : s.Short (.serve env))
    (h : s.serveStep env = some server) :
  ({ s with server } : Session).work < s.work
  := by
  obtain ⟨host, ⟨pc, sq, ci⟩⟩ := s
  simp only [serveStep] at h
  split at h
  · rename_i imm
    obtain rfl := Option.some.inj h
    have hone : messageCount env { ci with sockfd := htonl imm } = 1 := by
      rw [messageCount_eq_one_iff]
      apply hshort _ rfl
    simp only [work, WorkerPc.work, hone]
    omega
  · cases h

theorem work_arriveAtServer {s s' : Session} (h : s.arriveAtServer = some s') :
  s'.work < s.work
  := by
  simp only [arriveAtServer] at h
  split at h
  · cases h
  · rename_i m hq' hdepart
    rw [Option.map_eq_some_iff] at h
    obtain ⟨sq', hreceive, rfl⟩ := h
    have hload := Qp.load_depart 13 hdepart
    have hload' := Qp.load_receive 4 hreceive
    have himms := congrArg List.length (Qp.imms_receive hreceive).1
    rw [List.length_append] at himms
    cases m with
    | _ =>
        simp at himms
        simp only [work]
        omega

theorem work_arriveAtHost {s s' : Session} (h : s.arriveAtHost = some s') :
  s'.work < s.work
  := by
  simp only [arriveAtHost] at h
  split at h
  · cases h
  · rename_i m sq' hdepart
    rw [Option.map_eq_some_iff] at h
    obtain ⟨hq', hreceive, rfl⟩ := h
    have hload := Qp.load_depart 4 hdepart
    have hload' := Qp.load_receive 13 hreceive
    have himms := (Qp.imms_depart hdepart).2.1
    simp only [work, himms]
    omega

/-- A step that happens by itself leaves less to do. -/
theorem work_lt {s s' : Session} {a : SessionAct} (ha : Internal a) (hshort : s.Short a)
    (h : s.step a = some s') :
  s'.work < s.work
  := by
  cases a with
  | edit | call => cases ha
  | host =>
      obtain ⟨host, hstep, rfl⟩ := Option.map_eq_some_iff.mp h
      apply work_host hstep
  | server =>
      obtain ⟨server, hstep, rfl⟩ := Option.map_eq_some_iff.mp h
      apply work_server hstep
  | serve env =>
      obtain ⟨server, hstep, rfl⟩ := Option.map_eq_some_iff.mp h
      apply work_serve hshort hstep
  | connectReturn =>
      obtain ⟨host, ⟨pc, sq, ci⟩⟩ := s
      obtain ⟨rfl, rfl⟩ := connectReturn_cases h
      simp only [work, WorkerPc.work]
      omega
  | arriveAtServer => apply work_arriveAtServer h
  | arriveAtHost => apply work_arriveAtHost h
  | completeHost =>
      obtain ⟨qp, hstep, rfl⟩ := Option.map_eq_some_iff.mp h
      have hload := Qp.load_complete 13 hstep
      simp only [work]
      omega
  | completeServer =>
      obtain ⟨qp, hstep, rfl⟩ := Option.map_eq_some_iff.mp h
      have hload := Qp.load_complete 4 hstep
      have himms := (Qp.imms_complete hstep).1
      simp only [work, himms]
      omega

end Session

/-- A server that rests takes up a request that has arrived, or finishes the previous one first,
unless it waits. -/
theorem exists_server_step {host : Caller} {spc : WorkerPc} {sq : Qp ByteMem (BitVec 32)}
    {ci : ClientRInfo} (resting : spc.Resting) (himms : sq.imms ≠ []) :
  spc = .waitConnected ∨ spc = .waitDisconnected ∨
    ∃ s', Session.step ⟨host, ⟨spc, sq, ci⟩⟩ .server = some s'
  := by
  cases spc with
  | pollCq =>
      obtain ⟨wc, sq', hpoll⟩ := Qp.exists_poll himms
      right
      right
      simp only [Session.step, Session.serverStep, hpoll]
      exact ⟨_, rfl⟩
  | finish => exact Or.inr (Or.inr ⟨_, rfl⟩)
  | waitConnected => exact Or.inl rfl
  | waitDisconnected => exact Or.inr (Or.inl rfl)
  | _ => cases resting

namespace Session

/-- The server serves the request: it goes on with every outcome that the system calls of the
handler may have. -/
def Serving (s : Session) : Prop :=
  ∃ imm, s.server.pc = .serve imm ∧ ∀ env, ∃ s', s.step (.serve env) = some s'

/-- The request has arrived, and the server waits for a client or for a disconnection. -/
def Waits (s : Session) : Prop :=
  s.server.qp.imms ≠ [] ∧ (s.server.pc = .waitConnected ∨ s.server.pc = .waitDisconnected)

end Session

/-- A call that has not returned goes on by itself, or its request waits for the server. -/
theorem Underway.exists_step {s : Session} {n k : ℕ} (hu : Underway s n k)
    (hidle : s.host.pc ≠ .idle) :
  s.Serving ∨ s.Waits ∨ ∃ a, Session.Own a ∧ ∃ s', s.step a = some s'
  := by
  cases hu with
  | idle => exact absurd rfl hidle
  | posting => exact Or.inr (Or.inr ⟨.host, trivial, _, rfl⟩)
  | toServer net carries resting =>
      obtain ⟨m, hq', hdepart, -⟩ := Qp.exists_depart (q := _) (by rw [net.toServer]; simp)
      obtain ⟨sq', hreceive⟩ := Qp.exists_receive (by rw [net.serverRecvs]; omega)
        (m.recvWc Request.immData)
      refine Or.inr (Or.inr ⟨.arriveAtServer, trivial, ?_⟩)
      simp only [Session.step, Session.arriveAtServer, hdepart, hreceive]
      exact ⟨_, rfl⟩
  | atServer net carries resting header =>
      right
      have himms := net.atServer.trans_ne (List.cons_ne_nil _ [])
      obtain hwait | hwait | hstep := exists_server_step resting himms
      · exact Or.inl ⟨himms, Or.inl hwait⟩
      · exact Or.inl ⟨himms, Or.inr hwait⟩
      · exact Or.inr ⟨.server, trivial, hstep⟩
  | received => exact Or.inr (Or.inr ⟨.server, trivial, _, rfl⟩)
  | serving => exact Or.inl ⟨_, rfl, fun _ => ⟨_, rfl⟩⟩
  | replying => exact Or.inr (Or.inr ⟨.server, trivial, _, rfl⟩)
  | toHost net resting =>
      obtain ⟨m, sq', hdepart, -⟩ := Qp.exists_depart (q := _) (by rw [net.toHost]; simp)
      obtain ⟨hq', hreceive⟩ := Qp.exists_receive (by rw [net.hostRecvs]; omega)
        (m.recvWc fun _ => ())
      refine Or.inr (Or.inr ⟨.arriveAtHost, trivial, ?_⟩)
      simp only [Session.step, Session.arriveAtHost, hdepart, hreceive]
      exact ⟨_, rfl⟩
  | atHost net resting =>
      obtain ⟨wc, hq', hpoll⟩ := Qp.exists_poll (q := _) (by
        rw [← List.length_pos_iff_ne_nil, net.atHost]
        omega)
      refine Or.inr (Or.inr ⟨.host, trivial, ?_⟩)
      simp only [Session.step, Session.hostStep, hpoll]
      exact ⟨_, rfl⟩

/-- From every state that a run without long `read`s reaches, the actions of a call under way come
to an end after boundedly many of them, whatever their order. Where they have come to, the call has
returned, or one of them is possible that depends on nothing outside of the session, or the server
serves the request, or the request waits because an earlier one made the server wait for a client or
for a disconnection. -/
theorem calls_return (h : RInfo) (c : ClientRInfo) (sends : ℕ) (acts : List SessionAct)
    (hshort : Along Session.step Session.Short (.connected h c sends) acts) {s : Session}
    (hrun : run Session.step (.connected h c sends) acts = some s) (acts' : List SessionAct)
    (hinternal : ∀ a ∈ acts', Session.Internal a)
    (hshort' : Along Session.step Session.Short s acts') {s' : Session}
    (hrun' : run Session.step s acts' = some s') :
  acts'.length ≤ s.work ∧
    (s'.host.pc = .idle ∨ s'.Serving ∨ s'.Waits ∨
      ∃ a, Session.Own a ∧ ∃ s'', s'.step a = some s'')
  := by
  have hstart : Underway (.connected h c sends) 0 0 := .idle (Net.connected sends) trivial
  obtain ⟨n, k, r, hu, -⟩ := hstart.run hshort hrun
  obtain ⟨n', k', r', hu', -⟩ := hu.run hshort' hrun'
  constructor
  · have hlen := length_le_of_decreasing (I := fun _ => True)
      (C := fun s a => s.Short a ∧ Session.Internal a) (fun _ _ _ _ _ _ => trivial)
      (fun s a s' _ ha h => Session.work_lt ha.2 ha.1 h) trivial
      (hshort'.and (along_of_mem hinternal)) hrun'
    omega
  · by_cases hidle : s'.host.pc = .idle
    · exact Or.inl hidle
    · exact Or.inr (hu'.exists_step hidle)

/-- What happens by itself once a call has started. -/
def afterCall (env : PostingEnv) : List SessionAct :=
  [.host, .arriveAtServer, .completeHost, .server, .server, .serve env, .server, .server,
    .arriveAtHost]

theorem short_afterCall :
  Along Session.step Session.Short (.connected idleRInfo (.received .socket 0) 0)
    (.call socketArgs :: afterCall fiveEnv)
  := by
  iterate 6 refine along_cons trivial rfl ?_
  refine along_cons (fun _ _ h => absurd h.2 (by decide)) rfl ?_
  iterate 2 refine along_cons trivial rfl ?_
  exact along_cons trivial rfl trivial

/-- The request of a call of `socket` is served once when the reply has arrived. -/
theorem requests_served_once_socket :
  Along Session.step Session.ServesCall (.connected idleRInfo (.received .socket 0) 0)
    (.call socketArgs :: afterCall fiveEnv)
  := (requests_served_once _ _ _ _ short_afterCall rfl).1

/-- What happens by itself after the start of a call of `socket` is bounded by what was left. -/
theorem calls_return_socket :
  (afterCall fiveEnv).length ≤ 15
  := by
  have hinternal : ∀ a ∈ afterCall fiveEnv, Session.Internal a := by
    simp [afterCall, Session.Internal]
  apply (calls_return idleRInfo (.received .socket 0) 0 [.call socketArgs]
    (along_cons trivial rfl trivial) rfl _ hinternal (short_afterCall.2 _ rfl) rfl).1

end SocketToRdma
