import SocketToRdma.Host.Routing
import SocketToRdma.Remote.Call
import SocketToRdma.RoundTrip

/-!
# A remote `poll`

The entries of a forwarded `poll` are encoded into the request and decoded by the server, whose
`poll` changes their returned events; the entries come back in the same format. The hook decodes
them only when `poll` found a descriptor. When it found none, the entries of the application keep
the returned events they had, while `poll` cleared those of the server.
-/

namespace SocketToRdma

/-- The connection with the entries, their number and the timeout encoded into its request. -/
def RInfo.encodePoll (h : RInfo) (fds : ByteMem) (nfds : BitVec 64) (timeout : BitVec 32) : RInfo :=
  { h with mem := serializePollPollfd h.mem reqData ⟨timeout, nfds, some fds⟩ }

/-- The entries of the application after `req_poll`, when `set_req_sock` ended with `s`. -/
def pollReturned (s : SetReqResult) (fds : ByteMem) : ByteMem :=
  if 0 < s.ret.toInt then
    ((deserializePollPollfdInto s.rInfo.mem rtnData fds).fds).getD fds
  else fds

/-- The entries `poll` leaves: the last two bytes of each, its returned events, are those that the
kernel stored, the descriptor and the events are those it was given. -/
def polled (fds stored : ByteMem) : ByteMem :=
  fun j => if 6 ≤ j % 8 then stored j else fds j

/-- A forwarded `poll` is the `poll` of the application: the server polls the same entries with the
same timeout, and the application finds in its entries what the `poll` of the server left. -/
structure PollFaithful (env : ServerEnv) (c : ClientRInfo) (h : RInfo) (f : Forward) (fds : ByteMem)
    (nfds : BitVec 64) (timeout : BitVec 32) : Prop where
  executed : ∃ array, executed env c (h.encodePoll fds nfds timeout) f =
      [.poll ⟨timeout, nfds, array⟩] ∧
    ∀ j < 8 * nfds.toNat, array.map (fun array => array j) = some (fds j)
  returned : 0 ≤ env.outcome.int.toInt →
    ∃ s, callServerWith env c (h.encodePoll fds nfds timeout) f = some s ∧
      (pollReturned s fds).AgreeOn (polled fds env.outcome.buf) 0 (8 * nfds.toNat)

theorem serves_poll (env : ServerEnv) {c : ClientRInfo} (h : c.request = some .poll) :
  Serves env c (sockPoll env.toHandlerEnv c.mem)
  := serves_handler h (by decide) (fills_sockPoll _ _) (Or.inl rfl)

/-- A forwarded `poll` is a `poll` request on its first descriptor. -/
theorem forward_of_poll {fdHt : FDHashTable} {hook : HookEnv} {r : HookResult} {f : Forward}
    {fd : BitVec 32} (hrun : HookCall.run fdHt hook (.poll fd) = some r)
    (hf : r.forward = some f) :
  f = ⟨fd, .poll, 0, 0⟩
  := (Option.some.inj (HookCall.forward_of_route hrun hf)).symm

/-- A memory that holds encoded entries, their number and the timeout. -/
structure HoldsPoll (m : ByteMem) (p : ℕ) (fds : ByteMem) (nfds : BitVec 64)
    (timeout : BitVec 32) : Prop where
  timeout : m.loadBits 32 p = timeout
  number : m.loadBits 64 (p + 4) = nfds
  entries : m.load (p + 12) (8 * nfds.toNat) = fds.load 0 (8 * nfds.toNat)

theorem holdsPoll_serializePollPollfd (m : ByteMem) (p : ℕ) (fds : ByteMem) (nfds : BitVec 64)
    (timeout : BitVec 32) :
  HoldsPoll (serializePollPollfd m p ⟨timeout, nfds, some fds⟩) p fds nfds timeout
  := by
  obtain ⟨htimeout, hnfds, hfds⟩ := loads_serializePollPollfd m p timeout nfds fds
  exact ⟨htimeout, hnfds, hfds⟩

/-- What was encoded arrives where the bytes are copied. -/
theorem HoldsPoll.congr {m m' : ByteMem} {p : ℕ} {fds : ByteMem} {nfds : BitVec 64}
    {timeout : BitVec 32} (h : HoldsPoll m p fds nfds timeout)
    (hm : m'.AgreeOn m p (12 + 8 * nfds.toNat)) :
  HoldsPoll m' p fds nfds timeout
  := by
  constructor
  · rw [← h.timeout]
    apply (hm.mono (le_refl _) (by omega)).loadBits
  · rw [← h.number]
    apply (hm.mono (by omega) (by omega)).loadBits
  · rw [← h.entries]
    apply (hm.mono (by omega) (by omega)).load

/-- The server decodes the entries into an array that it allocates. -/
theorem HoldsPoll.pollArgs {env : HandlerEnv} {m : ByteMem} {fds : ByteMem} {nfds : BitVec 64}
    {timeout : BitVec 32} (h : HoldsPoll m reqData fds nfds timeout) :
  pollArgs env m = ⟨timeout, nfds, if env.malloc then some fun j => m (reqData + 12 + j) else none⟩
  := by
  rw [SocketToRdma.pollArgs, deserializePollPollfd, h.timeout, h.number]

/-- The hook decodes the entries over those of the application. -/
theorem HoldsPoll.decode {m : ByteMem} {p : ℕ} {fds : ByteMem} {nfds : BitVec 64}
    {timeout : BitVec 32} (h : HoldsPoll m p fds nfds timeout) (dest : ByteMem) :
  deserializePollPollfdInto m p dest =
    ⟨timeout, nfds, some (dest.store 0 (fds.load 0 (8 * nfds.toNat)))⟩
  := by
  rw [deserializePollPollfdInto, h.timeout, h.number, deserializePollfds_eq]
  simp only [Nat.mul_zero, Nat.add_zero, h.entries]

/-- The entries the server received. -/
theorem holdsPoll_receive (c : ClientRInfo) (h : RInfo) (f : Forward) (fds : ByteMem)
    {nfds : BitVec 64} (timeout : BitVec 32) (hfit : 12 + 8 * nfds.toNat ≤ bufferSize) :
  HoldsPoll (c.receive (f.request (h.encodePoll fds nfds timeout))).mem reqData fds nfds timeout
  := by
  apply (holdsPoll_serializePollPollfd h.mem reqData fds nfds timeout).congr
  apply (receive_data c (h.encodePoll fds nfds timeout) f).mono (le_refl _)
  omega

/-- The entries of the reply are those that the `poll` of the server left. -/
theorem holdsPoll_sockPoll {env : HandlerEnv} {m : ByteMem} {fds : ByteMem} {nfds : BitVec 64}
    {timeout : BitVec 32} (h : HoldsPoll m reqData fds nfds timeout) (hmalloc : env.malloc)
    (hret : 0 ≤ env.outcome.int.toInt) :
  HoldsPoll (sockPoll env m).mem rtnData (polled (fun j => m (reqData + 12 + j)) env.outcome.buf)
    nfds timeout
  := by
  simp only [sockPoll]
  rw [if_neg (not_lt.mpr hret), h.pollArgs, if_pos hmalloc]
  apply holdsPoll_serializePollPollfd

/-- What the application finds in its entries: those that the `poll` of the server left, if it found
a descriptor, or else its own ones. -/
theorem pollReturned_of_answered {env : HandlerEnv} {m : ByteMem} {s : SetReqResult}
    {fds : ByteMem} {nfds : BitVec 64} {timeout : BitVec 32}
    (hfit : 12 + 8 * nfds.toNat ≤ bufferSize) (h : HoldsPoll m reqData fds nfds timeout)
    (hanswered : Answered (sockPoll env m) s) (hret : 0 ≤ env.outcome.int.toInt)
    (hmalloc : env.malloc) :
  (pollReturned s fds).AgreeOn
    (if 0 < env.outcome.int.toInt then polled fds env.outcome.buf else fds) 0 (8 * nfds.toNat)
  := by
  rw [pollReturned, hanswered.ret _ (fills_sockPoll env m).value hret]
  split
  case isTrue =>
    have hend : rtnData + (12 + 8 * nfds.toNat) ≤ rtnErrno + rtnSize := by
      apply (Nat.add_le_add_left hfit rtnData).trans
      decide
    have hreceived :=
      (holdsPoll_sockPoll h hmalloc hret).congr (hanswered.mem.mono (by decide) hend)
    rw [hreceived.decode]
    apply (ByteMem.agreeOn_store_load _ _ _ _).trans
    have hentries := ByteMem.agreeOn_of_load_eq h.entries
    intro j hj hlt
    simp only [polled]
    split
    · rfl
    · apply hentries j hj hlt
  case isFalse => apply ByteMem.AgreeOn.refl

/-- A `poll` that is answered, with what the application finds in its entries. -/
theorem callServerWith_poll (env : ServerEnv) (c : ClientRInfo) {h : RInfo} (fds : ByteMem)
    (nfds : BitVec 64) (timeout fd : BitVec 32) (hfit : 12 + 8 * nfds.toNat ≤ bufferSize)
    (hmr : h.rtnMr) :
  ∃ s, callServerWith env c (h.encodePoll fds nfds timeout) ⟨fd, .poll, 0, 0⟩ = some s ∧
    (0 ≤ env.outcome.int.toInt → env.malloc →
      (pollReturned s fds).AgreeOn
        (if 0 < env.outcome.int.toInt then polled fds env.outcome.buf else fds)
        0 (8 * nfds.toNat))
  := by
  obtain ⟨s, hs, -, hanswered⟩ := callServerWith_answered (h := h.encodePoll fds nfds timeout)
    hmr (by simp) (by simp)
    (serves_poll env (receive_request c (h.encodePoll fds nfds timeout) ⟨fd, .poll, 0, 0⟩))
  use s, hs
  apply pollReturned_of_answered hfit (holdsPoll_receive c h _ fds timeout hfit) hanswered

/-- A forwarded `poll` is the `poll` of the application exactly when the server can allocate the
array of the entries, and the entries have the returned events that `poll` left when it found no
descriptor. -/
theorem poll_faithful_iff {fdHt : FDHashTable} {hook : HookEnv} {r : HookResult} {f : Forward}
    (env : ServerEnv) (c : ClientRInfo) {h : RInfo} (fds : ByteMem) (nfds : BitVec 64)
    (timeout : BitVec 32) (hfit : 12 + 8 * nfds.toNat ≤ bufferSize)
    (hrun : HookCall.run fdHt hook (.poll (fds.loadBits 32 0)) = some r) (hf : r.forward = some f)
    (hmr : h.rtnMr) :
  PollFaithful env c h f fds nfds timeout ↔
    (nfds.toNat ≠ 0 → env.malloc) ∧
      (env.outcome.int.toInt = 0 →
        ∀ j < 8 * nfds.toNat, 6 ≤ j % 8 → fds j = env.outcome.buf j)
  := by
  obtain rfl := forward_of_poll hrun hf
  let f : Forward := ⟨fds.loadBits 32 0, .poll, 0, 0⟩
  have hserves := serves_poll env (receive_request c (h.encodePoll fds nfds timeout) f)
  obtain ⟨s, hs, hsame⟩ := callServerWith_poll env c fds nfds timeout f.sockfd hfit hmr
  have hholds := holdsPoll_receive c h f fds timeout hfit
  have hentries := ByteMem.agreeOn_of_load_eq hholds.entries
  have hexecuted : executed env c (h.encodePoll fds nfds timeout) f =
      [.poll ⟨timeout, nfds, if env.malloc then
        some fun j => (c.receive (f.request (h.encodePoll fds nfds timeout))).mem
          (reqData + 12 + j) else none⟩] := by
    rw [executed, hserves.calls, ← hholds.pollArgs]
    rfl
  constructor
  · rintro ⟨⟨array, hcall, harray⟩, hreturned⟩
    have hmalloc : nfds.toNat ≠ 0 → env.malloc := by
      intro hne
      by_contra hfail
      rw [hexecuted, if_neg hfail] at hcall
      simp only [List.cons.injEq, Syscall.poll.injEq, PollArgs.mk.injEq, and_true, true_and] at hcall
      rw [← hcall] at harray
      cases harray 0 (by omega)
    use hmalloc
    intro hzero j hj hrevents
    obtain ⟨s', hs', hagree⟩ := hreturned hzero.ge
    obtain rfl := Option.some.inj (hs.symm.trans hs')
    have hkept := hsame hzero.ge (hmalloc (by omega))
    rw [if_neg (by omega)] at hkept
    have hbyte := (hkept j (Nat.zero_le _) (by omega)).symm.trans
      (hagree j (Nat.zero_le _) (by omega))
    rwa [polled, if_pos hrevents] at hbyte
  · rintro ⟨hmalloc, hunchanged⟩
    constructor
    · refine ⟨_, hexecuted, ?_⟩
      intro j hj
      rw [if_pos (hmalloc (by omega))]
      apply congrArg some (hentries j (Nat.zero_le _) (by omega))
    · intro hret
      use s, hs
      by_cases hempty : nfds.toNat = 0
      · intro j _ hj
        omega
      · apply (hsame hret (hmalloc hempty)).trans
        split
        case isTrue => apply ByteMem.AgreeOn.refl
        case isFalse hnone =>
          intro j _ hj
          rw [polled]
          split
          case isTrue hrevents => apply hunchanged (by omega) j (by omega) hrevents
          case isFalse => rfl

theorem run_poll_afterSocket :
  HookCall.run afterSocket replyFive (.poll 5#32) =
    some (callServer afterSocket replyFive 5#32 .poll 0 0)
  := by
  rw [HookCall.run, reqPoll, HookCall.route_of_ne fd_afterSocket rfl]

/-- One entry: the descriptor `5` is polled for input, which an earlier `poll` found. -/
def readyPollfd : ByteMem :=
  fun j => if j = 0 then 5 else if j = 4 ∨ j = 6 then 1 else 0

theorem fd_readyPollfd :
  readyPollfd.loadBits 32 0 = 5#32
  := by decide

theorem poll_faithful_iff_ready :
  PollFaithful (.ofOutcome ⟨1, 0, readyPollfd, 0⟩) (.received .poll 0) idleRInfo
    ⟨5#32, .poll, 0, 0⟩ readyPollfd 1#64 0
  := by
  have hrun : HookCall.run afterSocket replyFive (.poll (readyPollfd.loadBits 32 0)) =
      some (callServer afterSocket replyFive 5#32 .poll 0 0) := by
    rw [fd_readyPollfd, run_poll_afterSocket]
  apply (poll_faithful_iff (.ofOutcome ⟨1, 0, readyPollfd, 0⟩) (.received .poll 0)
    (h := idleRInfo) readyPollfd 1#64 0 (by decide) hrun rfl rfl).mpr
  constructor
  · intro _
    rfl
  · intro _ j _ _
    rfl

/-- A `poll` that finds nothing leaves the returned event of the `poll` before. -/
theorem quiet_poll_not_faithful :
  (∃ r, HookCall.run afterSocket replyFive (.poll (readyPollfd.loadBits 32 0)) = some r ∧
      r.forward = some ⟨5#32, .poll, 0, 0⟩) ∧
    ¬ PollFaithful (.ofOutcome (.ofRet 0 0)) (.received .poll 0) idleRInfo ⟨5#32, .poll, 0, 0⟩
      readyPollfd 1#64 0
  := by
  constructor
  · rw [fd_readyPollfd]
    exact ⟨_, run_poll_afterSocket, rfl⟩
  · rintro ⟨-, hreturned⟩
    obtain ⟨s, hs, hagree⟩ := hreturned (by decide)
    obtain ⟨s', hs', hsame⟩ := callServerWith_poll (.ofOutcome (.ofRet 0 0)) (.received .poll 0)
      (h := idleRInfo) readyPollfd 1#64 0 5#32 (by decide) rfl
    obtain rfl := Option.some.inj (hs.symm.trans hs')
    have hbyte := (hsame (by decide) rfl 6 (by decide) (by decide)).symm.trans
      (hagree 6 (by decide) (by decide))
    cases hbyte

end SocketToRdma
