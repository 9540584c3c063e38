import SocketToRdma.Host.Routing

/-!
# The exit of a thread

A thread that exits is to lose its entries in `fd_ht`, whatever their descriptors are, and no
other thread is to lose any. `fd_deleteByValue` stops at the first entry with the id of the thread,
so all of them are gone exactly when there was at most one.
-/

namespace SocketToRdma

open Run

/-- The number of entries of the thread in the table. -/
def ownedEntries (fdHt : FDHashTable) (tid : BitVec 32) : ℕ :=
  fdHt.count fun node => node.value == tid

/-- The exit of a thread takes its entries out of the table, and leaves those of the others in their
order. -/
def ExitRemovesAll (fdHt : FDHashTable) (a : HookAct) : Prop :=
  a.1 = .pthreadExit → ∀ fdHt', hookStep fdHt a = some fdHt' →
    (∀ i, ∀ node ∈ fdHt'.bucket i, node.value ≠ a.2.tid) ∧
      ∀ i, (fdHt'.bucket i).filter (fun node => node.value != a.2.tid) =
        (fdHt.bucket i).filter fun node => node.value != a.2.tid

/-- A thread that exits has at most one entry. -/
def OneEntryAtExit (fdHt : FDHashTable) (a : HookAct) : Prop :=
  a.1 = .pthreadExit → a.2.rInfo → ownedEntries fdHt a.2.tid ≤ 1

/-! ### The deletion -/

/-- The entries of a thread are its live nodes. -/
theorem Routes.ownedEntries_eq {fdHt : FDHashTable} {live : List (Node 32)} (h : Routes fdHt live)
    (tid : BitVec 32) :
  ownedEntries fdHt tid = live.countP fun node => node.value == tid
  := h.represents.count_eq _

/-- A deletion by value changes nothing if there is no such node, and else removes one of them. -/
theorem Live.deleteByValue_cases {w : ℕ} (live : List (Node w)) (value : BitVec w) :
  ((∀ node ∈ live, node.value ≠ value) ∧
      Live.deleteByValue live value (List.range htSz) = live) ∨
    ∃ before node after, node.value = value ∧ live = before ++ node :: after ∧
      Live.deleteByValue live value (List.range htSz) = before ++ after
  := by
  rw [Live.deleteByValue]
  cases hfirst : Live.firstBucket live value (List.range htSz) with
  | none =>
      left
      refine ⟨?_, rfl⟩
      intro node hnode hvalue
      have hnone := List.find?_eq_none.mp hfirst (hashFunction node.key)
        (List.mem_range.mpr (hashFunction_lt _))
      apply hnone
      rw [List.any_eq_true]
      use node, List.mem_filter.mpr ⟨hnode, by simp⟩
      rw [hvalue, beq_self_eq_true]
  | some i =>
      right
      have hany : (Live.bucket live i).any (fun node => node.value == value) = true :=
        List.find?_some (p := fun i => (Live.bucket live i).any fun node => node.value == value)
          hfirst
      obtain ⟨node, hnode, hvalue⟩ := List.any_eq_true.mp hany
      obtain ⟨hlive, hhash⟩ := List.mem_filter.mp hnode
      have hfound : (hashFunction node.key == i && node.value == value) = true :=
        Bool.and_eq_true_iff.mpr ⟨hhash, hvalue⟩
      obtain ⟨node', before, after, -, htest, hsplit, herase⟩ :=
        List.exists_of_eraseP
          (p := fun node : Node w => hashFunction node.key == i && node.value == value) hlive hfound
      use before, node', after
      refine ⟨?_, hsplit, herase⟩
      rw [Bool.and_eq_true] at htest
      apply eq_of_beq htest.2

/-- A deletion by value leaves the nodes with other values in their order. -/
theorem Live.filter_deleteByValue {w : ℕ} (live : List (Node w)) (value : BitVec w) :
  (Live.deleteByValue live value (List.range htSz)).filter (fun node => node.value != value) =
    live.filter fun node => node.value != value
  := by
  obtain ⟨-, heq⟩ | ⟨before, node, after, hvalue, hsplit, heq⟩ := Live.deleteByValue_cases live value
  · rw [heq]
  · rw [heq, hsplit, List.filter_append, List.filter_append,
      List.filter_cons_of_neg (by simp [hvalue])]

/-- A deletion by value leaves none of them exactly when there was at most one. -/
theorem Live.absent_deleteByValue_iff {w : ℕ} (live : List (Node w)) (value : BitVec w) :
  (∀ node ∈ Live.deleteByValue live value (List.range htSz), node.value ≠ value) ↔
    live.countP (fun node => node.value == value) ≤ 1
  := by
  have hcount : ∀ l : List (Node w), (∀ node ∈ l, node.value ≠ value) ↔
      l.countP (fun node => node.value == value) = 0 := by
    intro l
    rw [List.countP_eq_zero]
    simp
  rw [hcount]
  obtain ⟨hnone, heq⟩ | ⟨before, node, after, hvalue, hsplit, heq⟩ :=
    Live.deleteByValue_cases live value
  · rw [heq, (hcount live).mp hnone]
    simp
  · rw [heq, hsplit, List.countP_append, List.countP_append,
      List.countP_cons_of_pos (by simp [hvalue])]
    omega

/-! ### The exit -/

/-- The exit of a connected thread is a deletion by its id. -/
theorem hookStep_pthreadExit {fdHt fdHt' : FDHashTable} {env : HookEnv}
    (h : hookStep fdHt (.pthreadExit, env) = some fdHt') :
  env.rInfo ∧ fdHt' = fdDeleteByValue fdHt env.tid
  := by
  obtain ⟨r, hr, rfl⟩ := Option.map_eq_some_iff.mp h
  simp only [HookCall.run, reqPthreadExit] at hr
  split_ifs at hr with hinfo
  obtain rfl := Option.some.inj hr
  exact ⟨hinfo, rfl⟩

/-- In a routing table, the exit of a thread takes out all of its entries exactly when there is at
most one. -/
theorem Routes.exitRemovesAll_iff {fdHt : FDHashTable} {live : List (Node 32)}
    (h : Routes fdHt live) (a : HookAct) :
  ExitRemovesAll fdHt a ↔ OneEntryAtExit fdHt a
  := by
  obtain ⟨call, env⟩ := a
  by_cases hcall : call = .pthreadExit
  · subst hcall
    have hbucket : ∀ i, (SocketToRdma.fdDeleteByValue fdHt env.tid).bucket i =
        Live.bucket (Live.deleteByValue live env.tid (List.range htSz)) i :=
      (h.fdDeleteByValue env.tid).represents.bucket_eq
    constructor
    · intro hexit _ hinfo
      have hstep : hookStep fdHt (.pthreadExit, env) =
          some (SocketToRdma.fdDeleteByValue fdHt env.tid) := by
        simp only [hookStep, HookCall.run, reqPthreadExit]
        rw [if_pos hinfo]
        rfl
      rw [h.ownedEntries_eq, ← Live.absent_deleteByValue_iff]
      intro node hnode
      have habsent := (hexit rfl _ hstep).1 (hashFunction node.key)
      rw [hbucket] at habsent
      apply habsent node (List.mem_filter.mpr ⟨hnode, beq_self_eq_true _⟩)
    · intro hone _ fdHt' hstep
      obtain ⟨hinfo, rfl⟩ := hookStep_pthreadExit hstep
      have habsent := hone rfl hinfo
      rw [h.ownedEntries_eq, ← Live.absent_deleteByValue_iff] at habsent
      constructor
      · intro i node hnode
        rw [hbucket] at hnode
        apply habsent node (Live.mem_of_mem_bucket hnode)
      · intro i
        rw [hbucket, h.represents.bucket_eq, Live.bucket, List.filter_comm,
          Live.filter_deleteByValue, List.filter_comm, Live.bucket]
  · constructor
    · intro _ heq
      cases hcall heq
    · intro _ heq
      cases hcall heq

/-- In a run of hooked calls, every exit takes the entries of its thread out of the table, and no
others, exactly when every thread that exits has at most one entry. -/
theorem exits_remove_all_iff (acts : List HookAct) (hok : ∀ a ∈ acts, a.2.Ok) :
  Along hookStep ExitRemovesAll createFDHashTable acts ↔
    Along hookStep OneEntryAtExit createFDHashTable acts
  := by
  have hstep : ∀ t a t', (∃ live, Routes t live) → a.2.Ok → hookStep t a = some t' →
      ∃ live, Routes t' live := by
    rintro t ⟨call, env⟩ t' ⟨live, h⟩ henv hrun
    obtain ⟨r, hr, rfl⟩ := Option.map_eq_some_iff.mp hrun
    obtain ⟨live', h', -⟩ := h.step henv hr
    use live'
  constructor
  · intro hexits
    apply along_of_invariant (I := fun t => ∃ live, Routes t live)
      (C := fun t a => a.2.Ok ∧ ExitRemovesAll t a) (fun t a t' hI hC => hstep t a t' hI hC.1) _
      ⟨[], Routes.create⟩ ((along_of_mem hok).and hexits)
    rintro t a ⟨live, h⟩ ⟨-, hexit⟩
    apply (h.exitRemovesAll_iff a).mp hexit
  · intro hone
    apply along_of_invariant (I := fun t => ∃ live, Routes t live)
      (C := fun t a => a.2.Ok ∧ OneEntryAtExit t a) (fun t a t' hI hC => hstep t a t' hI hC.1) _
      ⟨[], Routes.create⟩ ((along_of_mem hok).and hone)
    rintro t a ⟨live, h⟩ ⟨-, hexit⟩
    apply (h.exitRemovesAll_iff a).mpr hexit

/-- A thread that opens one socket and exits. -/
theorem exits_remove_all_iff_one :
  Along hookStep ExitRemovesAll createFDHashTable
    [(.socket, replyFive), (.pthreadExit, replyFive)]
  := by
  apply (exits_remove_all_iff _ _).mpr
  · refine ⟨nofun, fun s hs => ⟨?_, fun _ _ => trivial⟩⟩
    rw [hookStep_socket] at hs
    obtain rfl := Option.some.inj hs
    intro _ _
    rw [routes_afterSocket.ownedEntries_eq]
    decide
  · simp [replyFive_ok]

/-- The thread with the id `100` opens two sockets, and exits with one of them in the table. -/
theorem second_entry_kept :
  ¬ Along hookStep ExitRemovesAll createFDHashTable
    [(.socket, replyFive), (.socket, { replyFive with reply := 6#32 }), (.pthreadExit, replyFive)]
  := by
  intro hexits
  have hroutes : Routes (fdInsertByValue (.bump 32) afterSocket 6#32 100).1
      [⟨5#32, 100, hashFunction 5#32⟩, ⟨6#32, 100, hashFunction 6#32⟩] :=
    routes_afterSocket.fdInsertByValue (by simp [Malloc.bump]) (by decide)
  have hexit := (hexits.2 afterSocket hookStep_socket).2 _ rfl
  have hone := (hroutes.exitRemovesAll_iff _).mp hexit.1 rfl rfl
  rw [hroutes.ownedEntries_eq] at hone
  revert hone
  decide

end SocketToRdma
