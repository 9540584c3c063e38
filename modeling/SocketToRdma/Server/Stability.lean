import SocketToRdma.Server.Contract

/-!
# The reply while it is in flight

The network card copies a posted reply at some moment before the completion, and it copies its
bytes one by one: each byte of the message the host receives is the one in memory at some
moment after the posting. Meanwhile the server thread goes on with the rest of the branch: it
clears the start of the data and `errno_`, and after a `write` and a `select` it clears a
buffer with the size of a whole message, which for a `write` reaches over the request into the
reply. The host receives the reply that was posted exactly when all these bytes were zero
already.
-/

namespace SocketToRdma

/-- The number of bytes of the data area that the reply carries. -/
def dataSize (m : ByteMem) : Option RdmaReq → ℕ
  | some .read => (value m).toInt.toNat
  | some .select => if 0 < (value m).toInt then selectSize else 0
  | some .write => 0
  | _ => bufferSize

/-- The message in `m'` has the header and the data of the reply in `m`. -/
structure SameReply (req : Option RdmaReq) (m m' : ByteMem) : Prop where
  errno : errno m' = errno m
  value : value m' = value m
  data : m'.AgreeOn m rtnData (dataSize m req)

/-- The bytes of `copy` are taken one by one while the memory is in one of the states `ms`. -/
def CopiedFrom (ms : List ByteMem) (copy : ByteMem) : Prop :=
  ∀ a, ∃ m ∈ ms, copy a = m a

/-- Whatever the moments at which the bytes of a posted reply are copied, the host receives the
reply as it was when it was posted. -/
def Stable (env : ServerEnv) (c : ClientRInfo) : Prop :=
  ∀ before wr m after,
    (rdmaReqEvent env (.start c)).trace = before ++ (.postSend wr 0, m) :: after →
    ∀ copy, CopiedFrom (m :: after.map Prod.snd) copy → SameReply c.request m copy

/-- What the branch of the request clears after its reply was posted is zero already. -/
structure Undisturbed (env : ServerEnv) (c : ClientRInfo) : Prop where
  failure : ∀ req, c.request = some req → env.outcome.fails req → env.outcome.errno = 0
  success : (∀ req, c.request = some req → ¬ env.outcome.fails req ∧ req ≠ .read) →
    errno c.mem = 0
  write : c.request = some .write → env.outcome.ret = 0
  read : c.request = some .read →
    ∀ j < 8, j < env.outcome.ret.toInt.toNat → env.outcome.buf j = 0
  select : c.request = some .select → env.outcome.int.toInt ≤ 0

/-! ### Copies -/

theorem SameReply.refl (req : Option RdmaReq) (m : ByteMem) :
  SameReply req m m
  := ⟨rfl, rfl, .refl _ _ _⟩

/-- A reply that is the same at all moments is received as such. -/
theorem sameReply_of_copiedFrom {req : Option RdmaReq} {m copy : ByteMem} {ms : List ByteMem}
    (h : ∀ m' ∈ ms, SameReply req m m') (hcopy : CopiedFrom ms copy) :
  SameReply req m copy
  := by
  constructor
  · apply (ByteMem.agreeOn_iff_loadBits (by decide)).mp
    intro a hp hn
    obtain ⟨m', hm', ha⟩ := hcopy a
    rw [ha]
    apply (ByteMem.agreeOn_iff_loadBits (by decide)).mpr (h m' hm').errno a hp hn
  · apply (ByteMem.agreeOn_iff_loadBits (by decide)).mp
    intro a hp hn
    obtain ⟨m', hm', ha⟩ := hcopy a
    rw [ha]
    apply (ByteMem.agreeOn_iff_loadBits (by decide)).mpr (h m' hm').value a hp hn
  · intro a hp hn
    obtain ⟨m', hm', ha⟩ := hcopy a
    rw [ha]
    apply (h m' hm').data a hp hn

/-- All the bytes may be copied at one moment. -/
theorem copiedFrom_of_mem {m : ByteMem} {ms : List ByteMem} (h : m ∈ ms) :
  CopiedFrom ms m
  := fun _ => ⟨m, h, rfl⟩

/-! ### The moments after a posting -/

/-- The memories of the branch from the posting of the reply in `m` on. -/
def moments (req : Option RdmaReq) (m : ByteMem) : List ByteMem :=
  [m, dataCleared m, settled m, branchCleared (settled m) req]

/-- Splitting a list at an element that is not in its first part. -/
theorem exists_append_of_notMem {α : Type*} {l l' before after : List α} {e : α}
    (h : l ++ l' = before ++ e :: after) (he : e ∉ l) :
  ∃ before', l' = before' ++ e :: after
  := by
  obtain ⟨k, _, hl'⟩ | ⟨k, hl, hafter⟩ := List.append_eq_append_iff.mp h
  · exact ⟨k, hl'⟩
  · cases k with
    | nil => exact ⟨[], hafter.symm⟩
    | cons e' k =>
        obtain ⟨rfl, _⟩ := List.cons.inj hafter
        apply absurd _ he
        rw [hl]
        simp

theorem replyCount_pos (m : ByteMem) :
  0 < replyCount m
  := by
  unfold replyCount
  split
  · apply chunkCount_pos
    unfold headerSz
    omega
  · decide

/-- What comes after the posting of a message are further messages, and the rest of the
branch. -/
theorem after_posted {env : ServerEnv} {c : ClientRInfo} {y : Exec}
    {ps rest rest' before after : List Event} {wr : SendWr} {m : ByteMem}
    (hprep : Prepared env c c.request y) (hreply : Replied env y (reply env y) ps rest)
    (hfollow : Followed env c c.request y rest')
    (htrace : (rdmaReqEvent env (.start c)).trace = y.trace ++ ps ++ rest ++ rest')
    (h : (rdmaReqEvent env (.start c)).trace = before ++ (.postSend wr 0, m) :: after) :
  (.postSend wr 0, m) ∈ ps ∧ ∀ e ∈ after, e ∈ ps ∨ e ∈ rest ∨ e ∈ rest'
  := by
  rw [htrace, List.append_assoc, List.append_assoc] at h
  obtain ⟨before', h⟩ := exists_append_of_notMem h fun he => hprep.silent _ he trivial
  have hin : ∀ e ∈ (.postSend wr 0, m) :: after, e ∈ ps ∨ e ∈ rest ∨ e ∈ rest' := by
    intro e he
    have he' := List.mem_append_right before' he
    rw [← h, List.mem_append, List.mem_append] at he'
    apply he'
  constructor
  · obtain he | he | he := hin _ List.mem_cons_self
    · apply he
    · exact absurd trivial (hreply.silent _ he).not_isPost
    · exact absurd trivial (hfollow.silent _ he).not_isPost
  · intro e he
    apply hin e (List.mem_cons_of_mem _ he)

/-- When the posts succeed, a copy of a reply is made while the memory is in one of the states
of the branch, and any of them may be the one copied. -/
theorem posted_moments {env : ServerEnv} {c : ClientRInfo}
    (hpost : ∀ i < messageCount env c, env.post i = 0) :
  ∃ y, Prepared env c c.request y ∧
    (∀ before wr m after,
      (rdmaReqEvent env (.start c)).trace = before ++ (.postSend wr 0, m) :: after →
      m = y.cInfo.mem ∧ m :: after.map Prod.snd ⊆ moments c.request y.cInfo.mem) ∧
    ∃ before wr after,
      (rdmaReqEvent env (.start c)).trace = before ++ (.postSend wr 0, y.cInfo.mem) :: after ∧
      moments c.request y.cInfo.mem ⊆ y.cInfo.mem :: after.map Prod.snd
  := by
  obtain ⟨y, ps, rest, rest', hprep, hreply, hfollow, htrace⟩ := rdmaReqEvent_trace env c
  have hall : ∀ i < replyCount y.cInfo.mem, env.post (y.posts + i) = 0 := by
    rw [hprep.replyCount_eq, hprep.posts]
    simpa using hpost
  obtain ⟨hlen, hmem, hsub, hsup⟩ := hreply.done hall
  have hsent := hreply.sent hall
  have hmems := hfollow.mems
  have hcleared := hfollow.cleared
  rw [hmem] at hmems hcleared
  use y, hprep
  constructor
  · intro before wr m after h
    obtain ⟨hin, hafter⟩ := after_posted hprep hreply hfollow htrace h
    obtain rfl : m = y.cInfo.mem := (hreply.posts _ hin).2
    use rfl
    intro m' hm'
    obtain rfl | hm' := List.mem_cons.mp hm'
    · apply List.mem_cons_self
    · obtain ⟨e, he, rfl⟩ := List.mem_map.mp hm'
      obtain he | he | he := hafter e he
      · rw [(hreply.posts e he).2]
        apply List.mem_cons_self
      · apply List.mem_cons_of_mem
        have hmem' := hsub (List.mem_map_of_mem he)
        simp only [List.mem_cons, List.not_mem_nil, or_false] at hmem' ⊢
        rw [← or_assoc]
        left
        apply hmem'
      · apply List.mem_cons_of_mem
        apply List.mem_cons_of_mem
        apply hmems (List.mem_map_of_mem he)
  · cases ps with
    | nil => exact absurd hlen.symm (replyCount_pos _).ne'
    | cons e ps =>
        obtain ⟨a, m⟩ := e
        obtain ⟨wr, rfl⟩ := hsent _ List.mem_cons_self
        obtain rfl : m = y.cInfo.mem := (hreply.posts _ List.mem_cons_self).2
        use y.trace, wr, ps ++ (rest ++ rest')
        constructor
        · rw [htrace]
          simp only [List.append_assoc, List.cons_append]
        · have hrest : y.cInfo.mem :: rest.map Prod.snd ⊆
              y.cInfo.mem :: (ps ++ (rest ++ rest')).map Prod.snd := by
            apply List.cons_subset_cons
            apply List.map_subset
            intro e he
            apply List.mem_append_right _ (List.mem_append_left _ he)
          have hsettled := hrest (hsup (List.mem_cons_of_mem _ List.mem_cons_self))
          intro m' hm'
          simp only [moments, List.mem_cons, List.not_mem_nil, or_false] at hm'
          obtain rfl | rfl | rfl | rfl := hm'
          · apply List.mem_cons_self
          · apply hrest (hsup List.mem_cons_self)
          · apply hsettled
          · obtain heq | hmem' := List.mem_cons.mp hcleared
            · rw [heq]
              apply hsettled
            · obtain ⟨e, he, heq⟩ := List.mem_map.mp hmem'
              rw [← heq]
              apply List.mem_cons_of_mem
              apply List.mem_map_of_mem
              apply List.mem_append_right _ (List.mem_append_right _ he)

/-! ### What the clearings change -/

theorem replyErrno_some {o : Outcome} {m : ByteMem} {req : RdmaReq} (h : req ≠ .read) :
  replyErrno o m (some req) = if o.fails req then o.errno else errno m
  := by
  cases req with
  | read => contradiction
  | _ => rfl

/-- The posted `errno_` is zero when a call that failed left no error and, where the reply keeps
the `errno_` it finds, that one is zero. -/
theorem replyErrno_eq_zero_iff (env : ServerEnv) (c : ClientRInfo) :
  replyErrno env.outcome c.mem c.request = 0 ↔
    (∀ req, c.request = some req → env.outcome.fails req → env.outcome.errno = 0) ∧
      ((∀ req, c.request = some req → ¬ env.outcome.fails req ∧ req ≠ .read) → errno c.mem = 0)
  := by
  cases c.request with
  | none => simp [replyErrno]
  | some req =>
      simp only [Option.some.injEq, forall_eq']
      by_cases hread : req = .read
      · subst hread
        simp [replyErrno]
      · rw [replyErrno_some hread]
        split
        case isTrue h => simp [h]
        case isFalse h => simp [h, hread]

/-- Clearing the data area keeps the header. -/
theorem memset_data_header (m : ByteMem) (n : ℕ) :
  errno (m.memset rtnData 0 n) = errno m ∧ value (m.memset rtnData 0 n) = value m
  := by
  constructor
  · apply ByteMem.loadBits_store_of_disjoint _ _ _ (Or.inl (by decide))
  · apply ByteMem.loadBits_store_of_disjoint _ _ _ (Or.inl (by decide))

/-- The chunk loop changes the reply exactly when one of the first bytes it sent is not zero. -/
theorem sameReply_dataCleared_iff {req : Option RdmaReq} {m : ByteMem}
    (hreq : Chunked m → req = some .read) :
  SameReply req m (dataCleared m) ↔
    (Chunked m → ∀ j < 8, j < (value m).toInt.toNat → m (rtnData + j) = 0)
  := by
  unfold dataCleared
  split
  case isTrue hchunked =>
    obtain ⟨herrno, hvalue⟩ := memset_data_header m 8
    constructor
    · intro h _ j hj hsize
      have hdata := h.data
      rw [hreq hchunked, dataSize, ByteMem.memset_agreeOn_iff] at hdata
      apply hdata <;> omega
    · intro h
      use herrno, hvalue
      rw [hreq hchunked, dataSize, ByteMem.memset_agreeOn_iff]
      intro a hp hn _ hk
      have := h hchunked (a - rtnData) (by omega) (by omega)
      rwa [Nat.add_sub_cancel' hp] at this
  case isFalse hchunked =>
    exact ⟨fun _ h => absurd h hchunked, fun _ => .refl _ _⟩

/-- Resetting `errno_` changes the reply exactly when it reports an error. -/
theorem sameReply_settled_iff {req : Option RdmaReq} {m : ByteMem} :
  SameReply req m (settled m) ↔ SameReply req m (dataCleared m) ∧ errno m = 0
  := by
  have herrno : errno (dataCleared m) = errno m := by
    unfold dataCleared
    split
    · apply (memset_data_header m 8).1
    · rfl
  constructor
  · intro h
    have hzero : errno m = 0 := by
      rw [← h.errno]
      apply errno_setErrno
    refine ⟨⟨herrno, ?_, ?_⟩, hzero⟩
    · rw [← h.value, settled, value_setErrno]
    · apply (setErrno_agreeOn _ 0 (Or.inr (by decide))).symm.trans h.data
  · rintro ⟨h, hzero⟩
    constructor
    · rw [hzero]
      apply errno_setErrno
    · rw [settled, value_setErrno, h.value]
    · apply (setErrno_agreeOn _ 0 (Or.inr (by decide))).trans h.data

/-- The clearing after a `write` reaches over the header of the reply. -/
theorem sameReply_write_iff {m m' : ByteMem} (hm : errno m = 0) :
  SameReply (some .write) m (branchCleared m' (some .write)) ↔ value m = 0
  := by
  have herrno : errno (m'.memset reqData 0 reqSize) = 0 :=
    ByteMem.loadBits_memset_zero _ _ _ _ (by decide) (by decide)
  have hvalue : value (m'.memset reqData 0 reqSize) = 0 :=
    ByteMem.loadBits_memset_zero _ _ _ _ (by decide) (by decide)
  constructor
  · intro h
    rw [← h.value]
    apply hvalue
  · intro h
    constructor
    · rw [hm]
      apply herrno
    · rw [h]
      apply hvalue
    · intro a hp hn
      simp only [dataSize, Nat.add_zero] at hn
      omega

/-- The clearing after a `select` changes the reply exactly when it carries a result. -/
theorem sameReply_select_iff {m m' : ByteMem} (hm : SameReply (some .select) m m')
    (hflag : 0 < (value m).toInt → m (rtnData + 4) = 87) :
  SameReply (some .select) m (branchCleared m' (some .select)) ↔ (value m).toInt ≤ 0
  := by
  obtain ⟨herrno, hvalue⟩ := memset_data_header m' rtnSize
  constructor
  · intro h
    by_contra hpos
    have hdata := h.data (rtnData + 4) (by omega)
    rw [dataSize, if_pos (by omega), hflag (by omega)] at hdata
    have hcontra := hdata (by decide)
    simp only [branchCleared, ByteMem.memset, ByteMem.store] at hcontra
    rw [dif_pos (by decide)] at hcontra
    contradiction
  · intro h
    use herrno.trans hm.errno, hvalue.trans hm.value
    intro a hp hn
    rw [dataSize, if_neg (by omega)] at hn
    omega

theorem Prepared.select_iff {env : ServerEnv} {c : ClientRInfo} {y : Exec} {m : ByteMem}
    (h : Prepared env c c.request y) (hreq : c.request = some .select)
    (hm : SameReply (some .select) y.cInfo.mem m) :
  SameReply (some .select) y.cInfo.mem (branchCleared m (some .select)) ↔
    env.outcome.int.toInt ≤ 0
  := by
  have hvalue : (value y.cInfo.mem).toInt = env.outcome.int.toInt := by
    rw [h.fills.value, hreq]
    apply BitVec.toInt_signExtend_of_le (by decide)
  rw [sameReply_select_iff hm, hvalue]
  rw [hvalue]
  apply h.selectFlag hreq

theorem branchCleared_of_ne {req : Option RdmaReq} {m : ByteMem} (hwrite : req ≠ some .write)
    (hselect : req ≠ some .select) :
  branchCleared m req = m
  := by
  unfold branchCleared
  split
  · contradiction
  · contradiction
  · rfl

/-- The reply is the same at all moments exactly when nothing of it is disturbed. -/
theorem sameReply_moments_iff {env : ServerEnv} {c : ClientRInfo} {y : Exec}
    (hprep : Prepared env c c.request y) :
  (∀ m ∈ moments c.request y.cInfo.mem, SameReply c.request y.cInfo.mem m) ↔ Undisturbed env c
  := by
  have hchunked : Chunked y.cInfo.mem → c.request = some .read :=
    fun h => (hprep.chunked_iff.mp h).1
  have herrno := hprep.fills.errno
  have hvalue := hprep.fills.value
  have hzero := replyErrno_eq_zero_iff env c
  rw [← herrno] at hzero
  simp only [moments, List.forall_mem_cons, sameReply_settled_iff,
    sameReply_dataCleared_iff hchunked]
  constructor
  · rintro ⟨_, hdata, ⟨_, herr⟩, hbranch, _⟩
    constructor
    · apply (hzero.mp herr).1
    · apply (hzero.mp herr).2
    · intro hreq
      rw [hreq, sameReply_write_iff herr, hvalue, hreq] at hbranch
      apply hbranch
    · intro hreq j hj hsize
      rw [← hprep.readData hreq j hsize]
      have hpos : 0 < env.outcome.ret.toInt := by omega
      apply hdata (hprep.chunked_iff.mpr ⟨hreq, hpos⟩) j hj
      rw [hvalue, hreq]
      apply hsize
    · intro hreq
      have hsame : SameReply c.request y.cInfo.mem (settled y.cInfo.mem) :=
        sameReply_settled_iff.mpr ⟨(sameReply_dataCleared_iff hchunked).mpr hdata, herr⟩
      rw [hreq] at hsame hbranch
      have hret := (hprep.select_iff hreq hsame).mp hbranch
      apply hret
  · intro h
    have herr : errno y.cInfo.mem = 0 := hzero.mpr ⟨h.failure, h.success⟩
    have hdata : Chunked y.cInfo.mem →
        ∀ j < 8, j < (value y.cInfo.mem).toInt.toNat → y.cInfo.mem (rtnData + j) = 0 := by
      intro hread j hj hsize
      have hreq := hchunked hread
      rw [hvalue, hreq] at hsize
      rw [hprep.readData hreq j hsize]
      apply h.read hreq j hj hsize
    have hcleared := (sameReply_dataCleared_iff hchunked).mpr hdata
    have hsame := sameReply_settled_iff.mpr ⟨hcleared, herr⟩
    refine ⟨.refl _ _, hdata, ⟨hdata, herr⟩, ?_, by simp⟩
    by_cases hwrite : c.request = some .write
    · rw [hwrite, sameReply_write_iff herr, hvalue, hwrite]
      apply h.write hwrite
    · by_cases hselect : c.request = some .select
      · rw [hselect] at hsame ⊢
        apply (hprep.select_iff hselect hsame).mpr (h.select hselect)
      · rw [branchCleared_of_ne hwrite hselect]
        apply hsame

/-! ### The reply in flight -/

/-- When a post fails, nothing is cleared after the messages that were posted before. -/
theorem stable_of_failed {env : ServerEnv} {c : ClientRInfo}
    (h : ∃ i < messageCount env c, env.post i ≠ 0) :
  Stable env c
  := by
  obtain ⟨y, ps, rest, rest', hprep, hreply, hfollow, htrace⟩ := rdmaReqEvent_trace env c
  have hfail : ∃ i < replyCount y.cInfo.mem, env.post (y.posts + i) ≠ 0 := by
    rw [hprep.replyCount_eq, hprep.posts]
    simpa using h
  obtain ⟨hmem, rfl⟩ := hreply.failed hfail
  intro before wr m after hsplit copy hcopy
  obtain ⟨hin, hafter⟩ := after_posted hprep hreply hfollow htrace hsplit
  obtain rfl : m = y.cInfo.mem := (hreply.posts _ hin).2
  by_cases hchunked : Chunked y.cInfo.mem
  · have hread := (hprep.chunked_iff.mp hchunked).1
    have hmems := hfollow.mems
    rw [hmem, hread, branchCleared_of_ne (by nofun) (by nofun)] at hmems
    apply sameReply_of_copiedFrom _ hcopy
    intro m' hm'
    have heq : m' = y.cInfo.mem := by
      obtain heq | hm' := List.mem_cons.mp hm'
      · apply heq
      · obtain ⟨e, he, rfl⟩ := List.mem_map.mp hm'
        obtain he | he | he := hafter e he
        · apply (hreply.posts e he).2
        · contradiction
        · simpa using hmems (List.mem_map_of_mem he)
    rw [heq]
    apply SameReply.refl
  · obtain ⟨wr', rfl⟩ := hreply.single hchunked
    obtain ⟨i, hi, hpost⟩ := hfail
    rw [replyCount, if_neg hchunked, Nat.lt_one_iff] at hi
    subst hi
    simp only [List.mem_singleton, Prod.mk.injEq, ServerAct.postSend.injEq] at hin
    exact absurd hin.1.2.symm hpost

/-- When the posts succeed, the host receives the reply as it was posted exactly when nothing
that is cleared after the posting was set. -/
theorem stable_iff_of_posted {env : ServerEnv} {c : ClientRInfo}
    (h : ∀ i < messageCount env c, env.post i = 0) :
  Stable env c ↔ Undisturbed env c
  := by
  obtain ⟨y, hprep, hall, before, wr, after, htrace, hsup⟩ := posted_moments h
  rw [← sameReply_moments_iff hprep]
  constructor
  · intro h m hm
    apply h before wr _ after htrace m (copiedFrom_of_mem (hsup hm))
  · intro h before wr m after hsplit copy hcopy
    obtain ⟨rfl, hsub⟩ := hall before wr m after hsplit
    apply sameReply_of_copiedFrom _ hcopy
    exact fun m' hm' => h m' (hsub hm')

/-- The host receives the reply as it was posted, whatever the moments at which it is copied,
exactly when a post fails or nothing that is cleared after the posting was set. -/
theorem stable_iff (env : ServerEnv) (c : ClientRInfo) :
  Stable env c ↔ (∃ i < messageCount env c, env.post i ≠ 0) ∨ Undisturbed env c
  := by
  by_cases hfail : ∃ i < messageCount env c, env.post i ≠ 0
  · exact ⟨fun _ => Or.inl hfail, fun _ => stable_of_failed hfail⟩
  · rw [or_iff_right hfail]
    simp only [not_exists, not_and, not_not] at hfail
    apply stable_iff_of_posted hfail

/-- The reply to a `write` of five bytes may be received with another value. -/
theorem write_reply_unstable :
  (ClientRInfo.received .write 5).request = some .write ∧
    (∀ i, (ServerEnv.ofOutcome (.ofRet 5 0)).post i = 0) ∧
    ¬ Stable (.ofOutcome (.ofRet 5 0)) (.received .write 5)
  := by
  have hreq := ClientRInfo.request_received .write 5
  use hreq, fun _ => rfl
  rw [stable_iff_of_posted fun _ _ => rfl]
  intro h
  have hret := h.write hreq
  contradiction

end SocketToRdma
