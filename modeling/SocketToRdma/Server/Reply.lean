import SocketToRdma.Server.Request

/-!
# The reply to a request

What one execution of `rdma_req_event` posts. Before the reply is posted a handler fills the
message and leaves the request alone: `Fills`. The reply is posted in one message, except
for the data of a long `read`, which go in chunks: `Replied`. What a branch of
`rdma_req_event` does around its reply is said once for all requests, in `Served`.
-/

namespace SocketToRdma

theorem ServerAct.Silent.not_isPost {a : ServerAct} (h : a.Silent) :
  ¬ a.IsPost
  := by
  cases a with
  | postSend => exact fun _ => h
  | _ => exact id

/-! ### The header of the reply -/

theorem setValue_agreeOn (m : ByteMem) (v : BitVec 64) {q k : ℕ}
    (h : q + k ≤ rtnValue ∨ rtnData ≤ q) :
  (setValue m v).AgreeOn m q k
  := ByteMem.agreeOn_store _ _ _ h

theorem setErrno_agreeOn (m : ByteMem) (e : BitVec 32) {q k : ℕ}
    (h : q + k ≤ rtnErrno ∨ rtnValue ≤ q) :
  (setErrno m e).AgreeOn m q k
  := ByteMem.agreeOn_store _ _ _ h

/-- The memory `m'` is `m` after the header of the reply was filled; the request is left
alone. -/
structure Fills (m m' : ByteMem) (v : BitVec 64) (e : BitVec 32) : Prop where
  request : m'.AgreeOn m 0 reqSize
  value : value m' = v
  errno : errno m' = e

/-- What is encoded into the data area keeps the header. -/
theorem Fills.encode {m m' m'' : ByteMem} {v : BitVec 64} {e : BitVec 32} (h : Fills m m' v e)
    (hm : m''.AgreeOn m' 0 rtnData) :
  Fills m m'' v e
  := by
  constructor
  · apply (hm.mono (le_refl 0) (by decide)).trans h.request
  · rw [← h.value]
    apply (hm.mono (Nat.zero_le _) (by decide)).loadBits
  · rw [← h.errno]
    apply (hm.mono (Nat.zero_le _) (by decide)).loadBits

theorem Fills.refl (m : ByteMem) :
  Fills m m (SocketToRdma.value m) (SocketToRdma.errno m)
  := ⟨.refl _ _ _, rfl, rfl⟩

theorem Fills.setValue {m m' : ByteMem} {v : BitVec 64} {e : BitVec 32} (h : Fills m m' v e)
    (v' : BitVec 64) :
  Fills m (setValue m' v') v' e
  := by
  constructor
  · apply (setValue_agreeOn m' v' (Or.inl (by decide))).trans h.request
  · apply value_setValue
  · rw [errno_setValue, h.errno]

theorem Fills.setErrno {m m' : ByteMem} {v : BitVec 64} {e : BitVec 32} (h : Fills m m' v e)
    (e' : BitVec 32) :
  Fills m (setErrno m' e') v e'
  := by
  constructor
  · apply (setErrno_agreeOn m' e' (Or.inl (by decide))).trans h.request
  · rw [value_setErrno, h.value]
  · apply errno_setErrno

/-- Whether the data area is encoded does not matter for the header. -/
theorem Fills.ite {m m₁ m₂ : ByteMem} {v : BitVec 64} {e : BitVec 32} {p : Prop} [Decidable p]
    (h₁ : Fills m m₁ v e) (h₂ : Fills m m₂ v e) :
  Fills m (if p then m₁ else m₂) v e
  := by
  split
  · apply h₁
  · apply h₂

/-- Filling the header of the reply leaves its data. -/
theorem fillRtn_agreeOn (m : ByteMem) (v : BitVec 64) (failed : Prop) [Decidable failed]
    (e : BitVec 32) {q k : ℕ} (h : rtnData ≤ q) :
  (fillRtn m v failed e).AgreeOn m q k
  := by
  have hvalue := setValue_agreeOn (k := k) m v (Or.inr h)
  unfold fillRtn
  split
  · apply ByteMem.AgreeOn.trans _ hvalue
    apply setErrno_agreeOn
    right
    exact le_trans (by decide) h
  · apply hvalue

theorem fills_fillRtn (m : ByteMem) (v : BitVec 64) (failed : Prop) [Decidable failed]
    (e : BitVec 32) :
  Fills m (fillRtn m v failed e) v (if failed then e else errno m)
  := by
  unfold fillRtn
  split
  · apply ((Fills.refl m).setValue v).setErrno
  · apply (Fills.refl m).setValue

/-! ### What the handlers fill in -/

/-- The call failed, in the sense of the handler of the request. -/
def Outcome.fails (o : Outcome) : RdmaReq → Bool
  | .socket => o.int.toInt ≤ 0
  | .read => o.ret.toInt ≤ 0
  | .write => o.ret.toInt < 0
  | .select | .epollCreate1 | .epollCtl | .epollWait => o.int = -1
  | .newRdmaConn | .delRdmaConn => false
  | _ => o.int.toInt < 0

/-- The `rtn_value` of the reply. -/
def replyValue (o : Outcome) (m : ByteMem) : Option RdmaReq → BitVec 64
  | none => -1
  | some .newRdmaConn | some .delRdmaConn => 1
  | some .read | some .write => o.ret
  | some .setsockopt | some .getsockopt => value m
  | some _ => o.int.signExtend 64

/-- The `errno_` of the reply. -/
def replyErrno (o : Outcome) (m : ByteMem) : Option RdmaReq → BitVec 32
  | none => errno m
  | some .read => if o.fails .read then o.errno else 0
  | some req => if o.fails req then o.errno else errno m

theorem fills_intReply (m : ByteMem) (o : Outcome) :
  Fills m (intReply m o) (o.int.signExtend 64) (if o.int.toInt < 0 then o.errno else errno m)
  := by
  apply fills_fillRtn

theorem fills_sockReadMessage (env : HandlerEnv) (m : ByteMem) (sockfd : BitVec 32) :
  Fills m (sockReadMessage env m sockfd).mem env.outcome.ret
    (if env.outcome.ret.toInt ≤ 0 then env.outcome.errno else 0)
  := by
  apply Fills.setErrno (e := errno m)
  apply Fills.setValue (v := value m)
  apply (Fills.refl m).encode
  apply ByteMem.agreeOn_store _ _ _ (Or.inl (by decide))

theorem fills_sockSelect (env : HandlerEnv) (m : ByteMem) :
  Fills m (sockSelect env m).mem (env.outcome.int.signExtend 64)
    (if env.outcome.int = -1 then env.outcome.errno else errno m)
  := by
  have hfill := fills_fillRtn m (env.outcome.int.signExtend 64) (env.outcome.int = -1)
    env.outcome.errno
  apply Fills.ite
  · apply hfill.encode
    apply serializeSelectFdSet_agreeOn
    apply Or.inl (by decide)
  · apply hfill

theorem fills_sockEpollWait (env : HandlerEnv) (m : ByteMem) :
  Fills m (sockEpollWait env m).mem (env.outcome.int.signExtend 64)
    (if env.outcome.int = -1 then env.outcome.errno else errno m)
  := by
  have hfill := fills_fillRtn m (env.outcome.int.signExtend 64) (env.outcome.int = -1)
    env.outcome.errno
  apply Fills.ite
  · apply hfill
  · apply hfill.encode
    apply serializeEpollWaitDt_agreeOn
    apply Or.inl (by decide)

theorem fills_sockPoll (env : HandlerEnv) (m : ByteMem) :
  Fills m (sockPoll env m).mem (env.outcome.int.signExtend 64)
    (if env.outcome.int.toInt < 0 then env.outcome.errno else errno m)
  := by
  have hfill := fills_intReply m env.outcome
  apply Fills.ite
  · apply hfill
  · apply hfill.encode
    apply serializePollPollfd_agreeOn
    apply Or.inl (by decide)

theorem fills_sockSetsockopt (env : HandlerEnv) (m : ByteMem) (sockfd : BitVec 32) :
  Fills m (sockSetsockopt env m sockfd).mem (value m)
    (if env.outcome.int.toInt < 0 then env.outcome.errno else errno m)
  := by
  simp only [sockSetsockopt]
  split
  · apply (Fills.refl m).setErrno
  · apply Fills.refl

theorem fills_sockGetsockopt (env : HandlerEnv) (m : ByteMem) (sockfd : BitVec 32) :
  Fills m (sockGetsockopt env m sockfd).mem (value m)
    (if env.outcome.int.toInt < 0 then env.outcome.errno else errno m)
  := by
  simp only [sockGetsockopt]
  split
  · apply (Fills.refl m).setErrno
  · apply (Fills.refl m).encode
    apply serializeSockoptDt_agreeOn
    apply Or.inl (by decide)

theorem fills_addrReply (m : ByteMem) (o : Outcome) :
  Fills m (addrReply m o) (o.int.signExtend 64) (if o.int.toInt < 0 then o.errno else errno m)
  := by
  have hfill := fills_intReply m o
  apply Fills.ite
  · apply hfill
  · apply hfill.encode
    apply serializeAddrDt_agreeOn
    apply Or.inl (by decide)

/-! ### Posting the reply -/

/-- The reply is data that was read, and goes in chunks. -/
def Chunked (m : ByteMem) : Prop :=
  rdmaReq m = RdmaReq.read.code ∧ 0 < (value m).toInt

instance (m : ByteMem) : Decidable (Chunked m) :=
  inferInstanceAs (Decidable (_ ∧ _))

/-- The number of messages the chunk loop sends. -/
def chunkCount (totalSize offset : ℕ) : ℕ :=
  if offset < totalSize then 1 + chunkCount totalSize (offset + bytesToCopy totalSize offset)
  else 0
termination_by totalSize - offset
decreasing_by
  have := bytesToCopy_pos ‹_›
  omega

/-- The number of messages of a reply. -/
def replyCount (m : ByteMem) : ℕ :=
  if Chunked m then chunkCount (headerSz + (value m).toNat) 0 else 1

/-- From `x` to `y` the messages `ps`, out of `n`, were posted, and the memory is the same; the
last call returned `ret`. -/
structure Posted (env : ServerEnv) (x y : Exec) (n : ℕ) (ps : List Event) (ret : BitVec 32) :
    Prop where
  trace : y.trace = x.trace ++ ps
  mem : y.cInfo.mem = x.cInfo.mem
  posts : ∀ e ∈ ps, e.1.IsPost ∧ e.2 = x.cInfo.mem
  sent : ret = 0 → ∀ e ∈ ps, ∃ wr, e.1 = .postSend wr 0
  done : ret = 0 → ps.length = n ∧ ∀ i < n, env.post (x.posts + i) = 0
  failed : ret ≠ 0 → ∃ i < n, env.post (x.posts + i) ≠ 0

theorem postWriteRtn_posted (env : ServerEnv) (x : Exec) :
  ∃ wr, Posted env x (postWriteRtn env x).1 1 [(.postSend wr (env.post x.posts), x.cInfo.mem)]
    (postWriteRtn env x).2
  := by
  refine ⟨_, rfl, rfl, ?_, ?_, ?_, ?_⟩
  · intro e he
    obtain rfl := List.mem_singleton.mp he
    exact ⟨trivial, rfl⟩
  · intro h e he
    obtain rfl := List.mem_singleton.mp he
    exact ⟨_, congrArg _ h⟩
  · intro h
    use rfl
    intro i hi
    obtain rfl := Nat.lt_one_iff.mp hi
    apply h
  · intro h
    use 0, Nat.one_pos
    apply h

/-- The length of the entry does not matter, as it is overwritten before the message is
posted. -/
theorem chunk_posted (env : ServerEnv) (x : Exec) (length : BitVec 32) :
  ∃ wr, Posted env x (postWriteRtn env (x.setSgeLength length)).1 1
    [(.postSend wr (env.post x.posts), x.cInfo.mem)] (postWriteRtn env (x.setSgeLength length)).2
  := by
  obtain ⟨wr, h⟩ := postWriteRtn_posted env (x.setSgeLength length)
  exact ⟨wr, h.trace, h.mem, h.posts, h.sent, h.done, h.failed⟩

/-- A message that was posted, and then the messages of a further execution. -/
theorem Posted.cons {env : ServerEnv} {x y z : Exec} {n : ℕ} {e : Event} {ps : List Event}
    {ret : BitVec 32} (h : Posted env x y 1 [e] 0) (hposts : y.posts = x.posts + 1)
    (h' : Posted env y z n ps ret) :
  Posted env x z (1 + n) (e :: ps) ret
  := by
  constructor
  · rw [h'.trace, h.trace, List.append_assoc, List.singleton_append]
  · rw [h'.mem, h.mem]
  · intro e' he'
    obtain rfl | he' := List.mem_cons.mp he'
    · apply h.posts _ (List.mem_singleton_self _)
    · rw [← h.mem]
      apply h'.posts e' he'
  · intro hret e' he'
    obtain rfl | he' := List.mem_cons.mp he'
    · apply h.sent rfl _ (List.mem_singleton_self _)
    · apply h'.sent hret e' he'
  · intro hret
    obtain ⟨hlen, hpost⟩ := h'.done hret
    constructor
    · rw [List.length_cons, hlen, Nat.add_comm]
    · intro i hi
      cases i with
      | zero => apply (h.done rfl).2 0 Nat.one_pos
      | succ i =>
          have hpost := hpost i (by omega)
          rwa [hposts, Nat.add_assoc, Nat.add_comm 1 i] at hpost
  · intro hret
    obtain ⟨i, hi, hpost⟩ := h'.failed hret
    use i + 1, by omega
    rwa [hposts, Nat.add_assoc, Nat.add_comm 1 i] at hpost

theorem Posted.mono {env : ServerEnv} {x y : Exec} {n k : ℕ} {ps : List Event}
    {ret : BitVec 32} (h : Posted env x y n ps ret) (hret : ret ≠ 0) (hk : n ≤ k) :
  Posted env x y k ps ret
  := by
  constructor
  · apply h.trace
  · apply h.mem
  · apply h.posts
  · intro h0
    contradiction
  · intro h0
    contradiction
  · intro _
    obtain ⟨i, hi, hpost⟩ := h.failed hret
    use i, by omega

/-- The chunk loop posts the message of every chunk, or stops at the first failure. -/
theorem postChunks_posted (env : ServerEnv) (totalSize offset : ℕ) (x : Exec) :
  ∃ ps, Posted env x (postChunks env totalSize offset x).1 (chunkCount totalSize offset) ps
    (postChunks env totalSize offset x).2
  := by
  induction offset, x using postChunks.induct env totalSize with
  | case1 offset x hlt bytes y hret =>
      obtain ⟨wr, h⟩ := chunk_posted env x (BitVec.ofNat 32 (bytes + 1))
      rw [postChunks, if_pos hlt, chunkCount, if_pos hlt]
      simp only []
      rw [if_pos hret]
      exact ⟨_, h.mono hret (Nat.le_add_right ..)⟩
  | case2 offset x hlt bytes y hret ih =>
      obtain ⟨wr, h⟩ := chunk_posted env x (BitVec.ofNat 32 (bytes + 1))
      obtain ⟨ps, ih⟩ := ih
      rw [postChunks, if_pos hlt, chunkCount, if_pos hlt]
      simp only []
      rw [if_neg hret]
      rw [not_not.mp hret] at h
      exact ⟨_, h.cons rfl ih⟩
  | case3 offset x hge =>
      rw [postChunks, if_neg hge, chunkCount, if_neg hge]
      use []
      constructor
      · rw [List.append_nil]
      · rfl
      · intro e he
        contradiction
      · intro _ e he
        contradiction
      · intro _
        use rfl
        intro i hi
        contradiction
      · intro h
        contradiction

/-- The memory once the chunk loop is done: the first bytes of the data are cleared. -/
def dataCleared (m : ByteMem) : ByteMem :=
  if Chunked m then m.memset rtnData 0 8 else m

/-- The memory as `write_msg_to_client` leaves it. -/
def settled (m : ByteMem) : ByteMem :=
  setErrno (dataCleared m) 0

/-- From `x` to `y` the messages `ps` of the reply were posted, and `rest` is what follows
them. -/
structure Replied (env : ServerEnv) (x y : Exec) (ps rest : List Event) : Prop where
  trace : y.trace = x.trace ++ ps ++ rest
  posts : ∀ e ∈ ps, e.1.IsPost ∧ e.2 = x.cInfo.mem
  single : ¬ Chunked x.cInfo.mem →
    ∃ wr, ps = [(.postSend wr (env.post x.posts), x.cInfo.mem)]
  silent : ∀ e ∈ rest, e.1.Silent
  sent : (∀ i < replyCount x.cInfo.mem, env.post (x.posts + i) = 0) →
    ∀ e ∈ ps, ∃ wr, e.1 = .postSend wr 0
  done : (∀ i < replyCount x.cInfo.mem, env.post (x.posts + i) = 0) →
    ps.length = replyCount x.cInfo.mem ∧ y.cInfo.mem = settled x.cInfo.mem ∧
      rest.map Prod.snd ⊆ [dataCleared x.cInfo.mem, settled x.cInfo.mem] ∧
      [dataCleared x.cInfo.mem, settled x.cInfo.mem] ⊆ x.cInfo.mem :: rest.map Prod.snd
  failed : (∃ i < replyCount x.cInfo.mem, env.post (x.posts + i) ≠ 0) →
    y.cInfo.mem = x.cInfo.mem ∧ rest = []

/-- A reply whose posting failed. -/
theorem Posted.replied_failed {env : ServerEnv} {x y : Exec} {ps : List Event}
    {ret : BitVec 32} (h : Posted env x y (replyCount x.cInfo.mem) ps ret) (hret : ret ≠ 0)
    (hsingle : ¬ Chunked x.cInfo.mem →
      ∃ wr, ps = [(.postSend wr (env.post x.posts), x.cInfo.mem)]) :
  Replied env x y ps []
  := by
  constructor
  · rw [h.trace, List.append_nil]
  · apply h.posts
  · apply hsingle
  · intro e he
    contradiction
  · intro hall
    obtain ⟨i, hi, hpost⟩ := h.failed hret
    exact absurd (hall i hi) hpost
  · intro hall
    obtain ⟨i, hi, hpost⟩ := h.failed hret
    exact absurd (hall i hi) hpost
  · intro _
    exact ⟨h.mem, rfl⟩

/-- A reply that was posted, after what follows the posting. -/
theorem Posted.replied_done {env : ServerEnv} {x y z : Exec} {ps rest : List Event}
    (h : Posted env x y (replyCount x.cInfo.mem) ps 0)
    (hsingle : ¬ Chunked x.cInfo.mem →
      ∃ wr, ps = [(.postSend wr (env.post x.posts), x.cInfo.mem)])
    (htrace : z.trace = y.trace ++ rest) (hsilent : ∀ e ∈ rest, e.1.Silent)
    (hmem : z.cInfo.mem = settled x.cInfo.mem)
    (hsub : rest.map Prod.snd ⊆ [dataCleared x.cInfo.mem, settled x.cInfo.mem])
    (hsup : [dataCleared x.cInfo.mem, settled x.cInfo.mem] ⊆ x.cInfo.mem :: rest.map Prod.snd) :
  Replied env x z ps rest
  := by
  constructor
  · rw [htrace, h.trace]
  · apply h.posts
  · apply hsingle
  · apply hsilent
  · intro _
    apply h.sent rfl
  · intro _
    exact ⟨(h.done rfl).1, hmem, hsub, hsup⟩
  · rintro ⟨i, hi, hpost⟩
    exact absurd ((h.done rfl).2 i hi) hpost

/-- An action or an assignment adds one event. -/
theorem Exec.assign_trace (x : Exec) (m : ByteMem) :
  (x.assign m).trace = x.trace ++ [(.assign, m)]
  := rfl

theorem reply_chunked (env : ServerEnv) (x : Exec) (hchunked : Chunked x.cInfo.mem) :
  ∃ ps rest, Replied env x (reply env x) ps rest
  := by
  obtain ⟨ps, h⟩ := postChunks_posted env (headerSz + (value x.cInfo.mem).toNat) 0 x
  have hsingle : ¬ Chunked x.cInfo.mem →
      ∃ wr, ps = [(.postSend wr (env.post x.posts), x.cInfo.mem)] := absurd hchunked
  have hcleared : dataCleared x.cInfo.mem = x.cInfo.mem.memset rtnData 0 8 := if_pos hchunked
  rw [← show replyCount x.cInfo.mem = _ from if_pos hchunked] at h
  rw [reply, writeMsgToClient]
  simp only []
  rw [if_pos (show rdmaReq x.cInfo.mem = RdmaReq.read.code ∧ _ from hchunked)]
  generalize postChunks env (headerSz + (value x.cInfo.mem).toNat) 0 x = y at h ⊢
  split
  case isTrue hret =>
    exact ⟨ps, [], h.replied_failed hret hsingle⟩
  case isFalse hret =>
    rw [not_not.mp hret] at h
    refine ⟨ps, [(.assign, dataCleared x.cInfo.mem), (.assign, settled x.cInfo.mem)],
      h.replied_done hsingle ?_ ?_ ?_ ?_ ?_⟩
    · rw [settled, hcleared, ← h.mem]
      simp only [Exec.assign_trace, List.append_assoc, List.singleton_append]
      rfl
    · simp [ServerAct.Silent]
    · rw [settled, hcleared, ← h.mem]
      rfl
    · apply List.Subset.refl
    · apply List.subset_cons_self

theorem reply_single (env : ServerEnv) (x : Exec) (hchunked : ¬ Chunked x.cInfo.mem) :
  ∃ ps rest, Replied env x (reply env x) ps rest
  := by
  obtain ⟨wr, h⟩ := postWriteRtn_posted env x
  have hcleared : dataCleared x.cInfo.mem = x.cInfo.mem := if_neg hchunked
  rw [← show replyCount x.cInfo.mem = 1 from if_neg hchunked] at h
  rw [reply, writeMsgToClient]
  simp only []
  rw [if_neg (show ¬ (rdmaReq x.cInfo.mem = RdmaReq.read.code ∧ _) from hchunked)]
  generalize postWriteRtn env x = y at h ⊢
  split
  case isTrue hret =>
    exact ⟨_, [], h.replied_failed hret fun _ => ⟨wr, rfl⟩⟩
  case isFalse hret =>
    rw [not_not.mp hret] at h
    refine ⟨_, [(.assign, settled x.cInfo.mem)],
      h.replied_done (fun _ => ⟨wr, rfl⟩) ?_ ?_ ?_ ?_ ?_⟩
    · rw [settled, hcleared, ← h.mem]
      rfl
    · simp [ServerAct.Silent]
    · rw [settled, hcleared, ← h.mem]
      rfl
    · apply List.subset_cons_self
    · rw [hcleared]
      apply List.Subset.refl

/-- The messages of a reply, and what `write_msg_to_client` does after them. -/
theorem reply_replied (env : ServerEnv) (x : Exec) :
  ∃ ps rest, Replied env x (reply env x) ps rest
  := by
  by_cases hchunked : Chunked x.cInfo.mem
  · apply reply_chunked env x hchunked
  · apply reply_single env x hchunked

/-! ### Around the reply -/

/-- The memory after the branch of the request cleared its buffer. -/
def branchCleared (m : ByteMem) : Option RdmaReq → ByteMem
  | some .write => m.memset reqData 0 reqSize
  | some .select => m.memset rtnData 0 rtnSize
  | _ => m

/-- In the state `y` the reply to the request is filled in, and nothing was posted yet. -/
structure Prepared (env : ServerEnv) (c : ClientRInfo) (req : Option RdmaReq) (y : Exec) :
    Prop where
  fills : Fills c.mem y.cInfo.mem (replyValue env.outcome c.mem req)
    (replyErrno env.outcome c.mem req)
  readData : req = some .read →
    ∀ j < env.outcome.ret.toInt.toNat, y.cInfo.mem (rtnData + j) = env.outcome.buf j
  selectFlag : req = some .select → 0 < env.outcome.int.toInt → y.cInfo.mem (rtnData + 4) = 87
  silent : ∀ e ∈ y.trace, ¬ e.1.IsPost
  posts : y.posts = 0

/-- After the reply of `y` the branch of the request does `rest`. -/
structure Followed (env : ServerEnv) (c : ClientRInfo) (req : Option RdmaReq) (y : Exec)
    (rest : List Event) : Prop where
  trace : (serve env (.start c) req).trace = (reply env y).trace ++ rest
  silent : ∀ e ∈ rest, e.1.Silent
  mems : rest.map Prod.snd ⊆
    [(reply env y).cInfo.mem, branchCleared (reply env y).cInfo.mem req]
  cleared : branchCleared (reply env y).cInfo.mem req ∈
    (reply env y).cInfo.mem :: rest.map Prod.snd

/-- A handler posts nothing itself. -/
theorem Exec.handled_start (c : ClientRInfo) (h : Handled) :
  ∃ tr, (Exec.start c).handled h = ⟨{ c with mem := h.mem }, 0, tr⟩ ∧ ∀ e ∈ tr, ¬ e.1.IsPost
  := by
  have hcalls : ∀ (calls : List Syscall) (tr : List Event), (∀ e ∈ tr, ¬ e.1.IsPost) →
      ∃ tr', calls.foldl (fun (x : Exec) call => x.act (.syscall call)) ⟨c, 0, tr⟩ = ⟨c, 0, tr'⟩ ∧
        ∀ e ∈ tr', ¬ e.1.IsPost := by
    intro calls
    induction calls with
    | nil => exact fun tr htr => ⟨tr, rfl, htr⟩
    | cons call calls ih =>
        intro tr htr
        apply ih
        intro e he
        obtain he | he := List.mem_append.mp he
        · apply htr e he
        · obtain rfl := List.mem_singleton.mp he
          exact id
  obtain ⟨tr, heq, htr⟩ := hcalls h.syscalls [] (by simp)
  use tr ++ [(.assign, h.mem)]
  constructor
  · rw [Exec.handled, Exec.start, heq]
    rfl
  · intro e he
    obtain he | he := List.mem_append.mp he
    · apply htr e he
    · obtain rfl := List.mem_singleton.mp he
      exact id

/-- A handler that fills the reply prepares it. -/
theorem prepared_handled {env : ServerEnv} {c : ClientRInfo} {req : RdmaReq} {e : BitVec 32}
    {h : Handled} (hfills : Fills c.mem h.mem (replyValue env.outcome c.mem (some req)) e)
    (he : e = replyErrno env.outcome c.mem (some req) := by simp [replyErrno, Outcome.fails])
    (hread : req = .read → ∀ j < env.outcome.ret.toInt.toNat,
      h.mem (rtnData + j) = env.outcome.buf j := by nofun)
    (hselect : req = .select → 0 < env.outcome.int.toInt → h.mem (rtnData + 4) = 87 := by nofun) :
  Prepared env c (some req) ((Exec.start c).handled h)
  := by
  subst he
  obtain ⟨tr, heq, htr⟩ := Exec.handled_start c h
  rw [heq]
  constructor
  · apply hfills
  · exact fun h => hread (Option.some.inj h)
  · exact fun h => hselect (Option.some.inj h)
  · apply htr
  · rfl

/-- A branch that sets the value of the reply itself. -/
theorem prepared_assign {env : ServerEnv} {c : ClientRInfo} {req : Option RdmaReq}
    {v : BitVec 64} (hv : v = replyValue env.outcome c.mem req := by rfl)
    (he : errno c.mem = replyErrno env.outcome c.mem req := by simp [replyErrno, Outcome.fails])
    (hread : req ≠ some .read := by nofun) (hselect : req ≠ some .select := by nofun) :
  Prepared env c req ((Exec.start c).assign (setValue c.mem v))
  := by
  subst hv
  constructor
  · rw [← he]
    apply (Fills.refl c.mem).setValue
  · intro h
    contradiction
  · intro h
    contradiction
  · simp [Exec.start, Exec.assign, Exec.act, ServerAct.IsPost]
  · rfl

/-- A branch that ends with its reply. -/
theorem followed_nil {env : ServerEnv} {c : ClientRInfo} {req : Option RdmaReq} {y : Exec}
    (hserve : serve env (.start c) req = reply env y)
    (hclear : ∀ m, branchCleared m req = m) :
  Followed env c req y []
  := by
  constructor
  · rw [hserve, List.append_nil]
  · simp
  · apply List.nil_subset
  · rw [hclear]
    apply List.mem_cons_self

/-- A branch that goes on with actions that leave its messages alone. -/
theorem followed_acts {env : ServerEnv} {c : ClientRInfo} {req : Option RdmaReq} {y : Exec}
    (acts : List ServerAct)
    (hserve : (serve env (.start c) req).trace =
      (reply env y).trace ++ acts.map fun a => (a, (reply env y).cInfo.mem))
    (hacts : ∀ a ∈ acts, a.Silent) (hclear : ∀ m, branchCleared m req = m) :
  Followed env c req y (acts.map fun a => (a, (reply env y).cInfo.mem))
  := by
  constructor
  · apply hserve
  · intro e he
    obtain ⟨a, ha, rfl⟩ := List.mem_map.mp he
    apply hacts a ha
  · intro m hm
    simp only [List.map_map, List.mem_map, Function.comp] at hm
    obtain ⟨a, _, rfl⟩ := hm
    apply List.mem_cons_self
  · rw [hclear]
    apply List.mem_cons_self

/-- A branch that clears a buffer after its reply. -/
theorem followed_cleared {env : ServerEnv} {c : ClientRInfo} {req : Option RdmaReq} {y : Exec}
    (hserve : serve env (.start c) req =
      (reply env y).assign (branchCleared (reply env y).cInfo.mem req)) :
  Followed env c req y [(.assign, branchCleared (reply env y).cInfo.mem req)]
  := by
  constructor
  · rw [hserve, Exec.assign_trace]
  · simp [ServerAct.Silent]
  · apply List.subset_cons_self
  · apply List.mem_cons_of_mem _ (List.mem_singleton_self _)

/-- A branch that executes a handler and replies. -/
theorem served_handled {env : ServerEnv} {c : ClientRInfo} {req : RdmaReq} (h : Handled)
    (hprep : Prepared env c (some req) ((Exec.start c).handled h))
    (hserve : serve env (.start c) (some req) = reply env ((Exec.start c).handled h) := by rfl)
    (hclear : ∀ m, branchCleared m (some req) = m := by exact fun _ => rfl) :
  ∃ y rest, Prepared env c (some req) y ∧ Followed env c (some req) y rest
  := ⟨_, [], hprep, followed_nil hserve hclear⟩

/-- The bytes read are in the data area. -/
theorem sockReadMessage_data (env : HandlerEnv) (m : ByteMem) (sockfd : BitVec 32) (j : ℕ)
    (hj : j < env.outcome.ret.toInt.toNat) :
  (sockReadMessage env m sockfd).mem (rtnData + j) = env.outcome.buf j
  := by
  have herrno := setErrno_agreeOn
    (setValue (m.store rtnData (env.outcome.buf.load 0 env.outcome.ret.toInt.toNat))
      env.outcome.ret)
    (if env.outcome.ret.toInt ≤ 0 then env.outcome.errno else 0)
    (q := rtnData) (k := j + 1) (Or.inr (by decide))
  have hvalue := setValue_agreeOn
    (m.store rtnData (env.outcome.buf.load 0 env.outcome.ret.toInt.toNat)) env.outcome.ret
    (q := rtnData) (k := j + 1) (Or.inr (by decide))
  simp only [sockReadMessage]
  rw [herrno _ (by omega) (by omega), hvalue _ (by omega) (by omega)]
  simp [ByteMem.store, ByteMem.load, hj]

/-- A result of `select` has its flag in the data area. -/
theorem sockSelect_flag (env : HandlerEnv) (m : ByteMem) (h : 0 < env.outcome.int.toInt) :
  (sockSelect env m).mem (rtnData + 4) = 87
  := by
  simp only [sockSelect, if_pos h]
  apply serializeSelectFdSet_flag

theorem served_epollCreate1 (env : ServerEnv) (c : ClientRInfo) :
  ∃ y rest, Prepared env c (some .epollCreate1) y ∧ Followed env c (some .epollCreate1) y rest
  := by
  have hprep : Prepared env c (some .epollCreate1)
      ((Exec.start c).handled (sockEpollCreate1 env.toHandlerEnv c.mem)) :=
    prepared_handled (fills_fillRtn ..)
  by_cases hret : (sockEpollCreate1 env.toHandlerEnv c.mem).ret.toInt < 0
  · exact ⟨_, [], hprep, followed_nil (if_pos hret) fun _ => rfl⟩
  · have hserve := congrArg Exec.trace (if_neg hret : serve env (.start c) (some .epollCreate1) = _)
    have hprep' : Prepared env c (some .epollCreate1)
        (((Exec.start c).handled (sockEpollCreate1 env.toHandlerEnv c.mem)).setSockfd
          (sockEpollCreate1 env.toHandlerEnv c.mem).ret) :=
      ⟨hprep.fills, hprep.readData, hprep.selectFlag, hprep.silent, hprep.posts⟩
    exact ⟨_, _, hprep', followed_acts [.socketInsertByValue _] hserve
      (by simp [ServerAct.Silent]) fun _ => rfl⟩

theorem served_newRdmaConn (env : ServerEnv) (c : ClientRInfo) :
  ∃ y rest, Prepared env c (some .newRdmaConn) y ∧ Followed env c (some .newRdmaConn) y rest
  := by
  by_cases hconnect : env.connect = 0
  · have hserve := congrArg Exec.trace
      (if_neg (not_not.mpr hconnect) : serve env (.start c) (some .newRdmaConn) = _)
    exact ⟨_, _, prepared_assign,
      followed_acts [.connectClientRInfo env.connect, .pthreadCreate env.pthreadCreate]
        (hserve.trans (List.append_assoc ..)) (by simp [ServerAct.Silent]) fun _ => rfl⟩
  · have hserve := congrArg Exec.trace
      (if_pos hconnect : serve env (.start c) (some .newRdmaConn) = _)
    exact ⟨_, _, prepared_assign, followed_acts [.connectClientRInfo env.connect] hserve
      (by simp [ServerAct.Silent]) fun _ => rfl⟩

theorem served_delRdmaConn (env : ServerEnv) (c : ClientRInfo) :
  ∃ y rest, Prepared env c (some .delRdmaConn) y ∧ Followed env c (some .delRdmaConn) y rest
  := by
  by_cases hgone : env.disconnected
  · have hserve := congrArg Exec.trace
      (if_pos hgone : serve env (.start c) (some .delRdmaConn) = _)
    exact ⟨_, _, prepared_assign, followed_acts [.cleanup, .deleteByKey c.sockfd]
      (hserve.trans (List.append_assoc ..)) (by simp [ServerAct.Silent]) fun _ => rfl⟩
  · exact ⟨_, [], prepared_assign, followed_nil (if_neg hgone) fun _ => rfl⟩

theorem served_some (env : ServerEnv) (c : ClientRInfo) (req : RdmaReq) :
  ∃ y rest, Prepared env c (some req) y ∧ Followed env c (some req) y rest
  := by
  cases req with
  | socket =>
      exact served_handled (sockSocket env.toHandlerEnv c.mem) (prepared_handled (fills_fillRtn ..))
  | close =>
      exact served_handled (sockClose env.toHandlerEnv c.mem c.sockfd)
        (prepared_handled (fills_intReply ..))
  | bind =>
      exact served_handled (sockBind env.toHandlerEnv c.mem c.sockfd)
        (prepared_handled (fills_intReply ..))
  | listen =>
      exact served_handled (sockListen env.toHandlerEnv c.mem c.sockfd)
        (prepared_handled (fills_intReply ..))
  | accept =>
      exact served_handled (sockAccept env.toHandlerEnv c.mem c.sockfd)
        (prepared_handled (fills_intReply ..))
  | connect =>
      exact served_handled (sockConnect env.toHandlerEnv c.mem c.sockfd)
        (prepared_handled (fills_intReply ..))
  | epollCtl =>
      exact served_handled (sockEpollCtl env.toHandlerEnv c.mem)
        (prepared_handled (fills_fillRtn ..))
  | epollWait =>
      exact served_handled (sockEpollWait env.toHandlerEnv c.mem)
        (prepared_handled (fills_sockEpollWait ..))
  | poll =>
      exact served_handled (sockPoll env.toHandlerEnv c.mem) (prepared_handled (fills_sockPoll ..))
  | fcntl =>
      exact served_handled (sockFcntl env.toHandlerEnv c.mem c.sockfd)
        (prepared_handled (fills_intReply ..))
  | setsockopt =>
      exact served_handled (sockSetsockopt env.toHandlerEnv c.mem c.sockfd)
        (prepared_handled (fills_sockSetsockopt ..))
  | getsockopt =>
      exact served_handled (sockGetsockopt env.toHandlerEnv c.mem c.sockfd)
        (prepared_handled (fills_sockGetsockopt ..))
  | getpeername =>
      exact served_handled (sockGetpeername env.toHandlerEnv c.mem c.sockfd)
        (prepared_handled (fills_addrReply ..))
  | getsockname =>
      exact served_handled (sockGetsockname env.toHandlerEnv c.mem c.sockfd)
        (prepared_handled (fills_addrReply ..))
  | read =>
      exact served_handled (sockReadMessage env.toHandlerEnv c.mem c.sockfd)
        (prepared_handled (fills_sockReadMessage ..) (by simp [replyErrno, Outcome.fails])
          (fun _ => sockReadMessage_data env.toHandlerEnv c.mem c.sockfd))
  | write =>
      exact ⟨_, _, prepared_handled (h := sockSendMessage env.toHandlerEnv c.mem c.sockfd)
        (fills_fillRtn ..), followed_cleared rfl⟩
  | select =>
      exact ⟨_, _, prepared_handled (h := sockSelect env.toHandlerEnv c.mem)
        (fills_sockSelect ..) (by simp [replyErrno, Outcome.fails]) nofun
        (fun _ => sockSelect_flag env.toHandlerEnv c.mem), followed_cleared rfl⟩
  | epollCreate1 => apply served_epollCreate1
  | newRdmaConn => apply served_newRdmaConn
  | delRdmaConn => apply served_delRdmaConn

/-- Every request, known or unknown, gets a reply: its branch prepares one, and goes on without
posting anything else. -/
theorem served (env : ServerEnv) (c : ClientRInfo) (req : Option RdmaReq) :
  ∃ y rest, Prepared env c req y ∧ Followed env c req y rest
  := by
  cases req with
  | some req => apply served_some
  | none => exact ⟨_, [], prepared_assign, followed_nil rfl fun _ => rfl⟩

/-! ### What a reply adds to the trace -/

/-- A reply posts messages and writes the memory, and does nothing else. -/
theorem reply_trace (env : ServerEnv) (x : Exec) :
  ∃ rest, (reply env x).trace = x.trace ++ rest ∧ ∀ e ∈ rest, e.1.IsPost ∨ e.1 = .assign
  := by
  rw [reply, writeMsgToClient]
  simp only []
  split
  case isTrue =>
    obtain ⟨ps, hposted⟩ := postChunks_posted env (headerSz + (value x.cInfo.mem).toNat) 0 x
    have hps : ∀ e ∈ ps, e.1.IsPost ∨ e.1 = .assign := fun e he => Or.inl (hposted.posts e he).1
    split
    case isTrue => exact ⟨ps, hposted.trace, hps⟩
    case isFalse =>
      simp only [Exec.assign_trace, hposted.trace, List.append_assoc]
      refine ⟨_, rfl, ?_⟩
      intro e he
      obtain he | he := List.mem_append.mp he
      · apply hps e he
      · right
        obtain he | he := List.mem_append.mp he
        · rw [List.mem_singleton.mp he]
        · rw [List.mem_singleton.mp he]
  case isFalse =>
    obtain ⟨wr, hposted⟩ := postWriteRtn_posted env x
    split
    case isTrue => exact ⟨_, hposted.trace, fun e he => Or.inl (hposted.posts e he).1⟩
    case isFalse =>
      rw [Exec.assign_trace, hposted.trace, List.append_assoc]
      refine ⟨_, rfl, ?_⟩
      simp [ServerAct.IsPost]

/-- What is picked from a trace other than messages and writes is not changed by a reply. -/
theorem filterMap_reply {α : Type*} {pick : Event → Option α}
    (hpick : ∀ e : Event, e.1.IsPost ∨ e.1 = .assign → pick e = none) (env : ServerEnv)
    (x : Exec) :
  (reply env x).trace.filterMap pick = x.trace.filterMap pick
  := by
  obtain ⟨rest, htrace, hrest⟩ := reply_trace env x
  rw [htrace, List.filterMap_append,
    List.filterMap_eq_nil_iff.mpr fun e he => hpick e (hrest e he), List.append_nil]

/-- Replying executes no system call. -/
@[simp]
theorem calls_reply (env : ServerEnv) (x : Exec) :
  calls (reply env x).trace = calls x.trace
  := by
  apply filterMap_reply
  rintro ⟨a, m⟩ (hpost | rfl)
  · cases a with
    | postSend => rfl
    | _ => contradiction
  · rfl

@[simp]
theorem calls_assign (x : Exec) (m : ByteMem) :
  calls (x.assign m).trace = calls x.trace
  := by
  rw [Exec.assign_trace, calls, List.filterMap_append]
  apply List.append_nil

/-- The trace of a handler: its system calls, and the write of the memory. -/
theorem handled_trace (c : ClientRInfo) (hd : Handled) :
  ((Exec.start c).handled hd).trace =
    (hd.syscalls.map fun call => (.syscall call, c.mem)) ++ [(.assign, hd.mem)]
  := by
  have hfold : ∀ (l : List Syscall) (x : Exec),
      l.foldl (fun x call => x.act (.syscall call)) x =
        { x with trace := x.trace ++ l.map fun call => (.syscall call, x.cInfo.mem) } := by
    intro l
    induction l with
    | nil =>
        intro x
        rw [List.map_nil, List.append_nil]
        rfl
    | cons call l ih =>
        intro x
        rw [List.foldl_cons, ih, Exec.act, List.append_assoc]
        rfl
  rw [Exec.handled, hfold]
  rfl

/-- A handler executes its system calls. -/
@[simp]
theorem calls_handled (c : ClientRInfo) (hd : Handled) :
  calls ((Exec.start c).handled hd).trace = hd.syscalls
  := by
  rw [handled_trace, calls, List.filterMap_append, List.filterMap_map]
  exact (List.append_nil _).trans List.filterMap_some

end SocketToRdma
