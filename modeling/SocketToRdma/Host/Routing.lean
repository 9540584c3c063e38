import SocketToRdma.Host.Hooks
import SocketToRdma.Lib.Run

/-!
# Routing over the life of a descriptor

`fd_ht` may hold several entries for one descriptor: `connect` enters the descriptor once
more, and the server may return a number that is still in the table. A `close` removes one
entry. So after a forwarded `close` the later calls on the descriptor stay on the host
exactly when the table held a single entry for it; any other entry is found again, at the
latest when the entries in front of it in its bucket are closed.
-/

namespace SocketToRdma

open Run

/-- A hooked call together with what it meets. -/
abbrev HookAct : Type := HookCall × HookEnv

/-- The table after a hooked call. -/
def hookStep (fdHt : FDHashTable) (a : HookAct) : Option FDHashTable :=
  (a.1.run fdHt a.2).map HookResult.fdHt

/-- The call is forwarded to the server. -/
def Forwarded (fdHt : FDHashTable) (a : HookAct) : Prop :=
  ∃ r, a.1.run fdHt a.2 = some r ∧ r.forward ≠ none

/-- The call is one of `socket`, `accept` and `epoll_create1` and returns the descriptor. -/
def Returns (fdHt : FDHashTable) (a : HookAct) (d : BitVec 32) : Prop :=
  a.1.Opens ∧ ∃ r, a.1.run fdHt a.2 = some r ∧ r.ret = d.toInt

/-- Allocations succeed, and the thread id is not zero. -/
structure HookEnv.Ok (env : HookEnv) : Prop where
  malloc : ∀ h, env.malloc.pick h ≠ none
  tid : env.tid ≠ 0

/-- The number of entries of the descriptor in the table. -/
def entries (fdHt : FDHashTable) (d : BitVec 32) : ℕ :=
  (fdHt.bucket (hashFunction d)).countP (fun node => node.key == d)

/-- In the run of the calls, no call on a descriptor is forwarded after a forwarded `close`
of it has completed, until the descriptor is returned again. -/
def StaysClosed (fdHt : FDHashTable) (acts : List HookAct) : Prop :=
  ∀ pre d env mid a post, acts = pre ++ (.close d, env) :: (mid ++ a :: post) →
    ∀ s s' t, run hookStep fdHt pre = some s → Forwarded s (.close d, env) →
      hookStep s (.close d, env) = some s' → Along hookStep (fun u b => ¬ Returns u b d) s' mid →
      run hookStep s' mid = some t → a.1.fd = some d → ¬ Forwarded t a

/-- When a `close` is forwarded, the table holds a single entry of its descriptor. -/
def SingleEntryAtClose (fdHt : FDHashTable) (a : HookAct) : Prop :=
  ∀ d, a.1 = .close d → Forwarded fdHt a → entries fdHt d = 1

/-! ### The table under the hooks -/

/-- The table represents the live nodes, none of which has the value zero. -/
structure Routes (fdHt : FDHashTable) (live : List (Node 32)) : Prop where
  represents : fdHt.Represents live
  value_ne : ∀ node ∈ live, node.value ≠ 0

namespace Routes

variable {fdHt : FDHashTable} {live : List (Node 32)}

theorem create :
  Routes createFDHashTable []
  := ⟨ChainTable.Represents.create, by simp⟩

/-- The entries of a descriptor are its live nodes. -/
theorem entries_eq (h : Routes fdHt live) (d : BitVec 32) :
  entries fdHt d = live.countP (fun node => node.key == d)
  := by
  rw [entries, h.represents.bucket_eq, Live.bucket, List.countP_filter]
  congr 1
  funext node
  by_cases hkey : node.key = d <;> simp [hkey]

/-- A descriptor that one of the lookups finds is the key of the first node of its bucket. -/
theorem exists_head_of_lookup (h : Routes fdHt live) {d : BitVec 32}
    (hlookup : tidBySearchByKey fdHt d ≠ 0 ∨ fdSearchByKey fdHt d ≠ 0) :
  ∃ first, (Live.bucket live (hashFunction d)).head? = some first ∧ first.key = d
  := by
  rcases hlookup with htid | htid
  · rw [Ne, h.represents.tidBySearchByKey_eq_zero_iff, not_or, not_not] at htid
    apply htid.2
  · rw [Ne, h.represents.fdSearchByKey_eq_zero_iff h.value_ne, not_not] at htid
    apply htid

/-- A descriptor that one of the lookups finds has a live node. -/
theorem exists_mem_of_lookup (h : Routes fdHt live) {d : BitVec 32}
    (hlookup : tidBySearchByKey fdHt d ≠ 0 ∨ fdSearchByKey fdHt d ≠ 0) :
  ∃ node ∈ live, node.key = d
  := by
  obtain ⟨first, hfirst, hkey⟩ := h.exists_head_of_lookup hlookup
  exact ⟨first, Live.mem_of_mem_bucket (List.mem_of_head? hfirst), hkey⟩

/-- An insertion of a value that is not zero keeps the table a routing table. -/
theorem fdInsertByValue (h : Routes fdHt live) {malloc : Malloc 32} {key value : BitVec 32}
    (hmalloc : malloc.pick fdHt.heap ≠ none) (hvalue : value ≠ 0) :
  Routes (fdInsertByValue malloc fdHt key value).1 (live ++ [⟨key, value, hashFunction key⟩])
  := by
  constructor
  · apply h.represents.insertByValue malloc key value hmalloc
  · intro node hnode
    rcases List.mem_append.mp hnode with hnode | hnode
    · apply h.value_ne node hnode
    · rw [List.mem_singleton.mp hnode]
      apply hvalue

theorem fdDeleteByKey (h : Routes fdHt live) (d : BitVec 32) :
  Routes (fdDeleteByKey fdHt d) (Live.deleteByKey live d)
  := by
  constructor
  · apply h.represents.deleteByKey
  · intro node hnode
    apply h.value_ne node (List.mem_of_mem_eraseP hnode)

theorem fdDeleteByValue (h : Routes fdHt live) (value : BitVec 32) :
  Routes (fdDeleteByValue fdHt value) (Live.deleteByValue live value (List.range htSz))
  := by
  constructor
  · apply h.represents.deleteByValue
  · intro node hnode
    apply h.value_ne node (Live.mem_of_mem_deleteByValue hnode)

/-- A node of the table after a call was in it before, up to its value, or is the one of the
positive number that a forwarded opening call returned. -/
theorem step (h : Routes fdHt live) {call : HookCall} {env : HookEnv} (hok : env.Ok)
    {r : HookResult} (hrun : call.run fdHt env = some r) :
  ∃ live', Routes r.fdHt live' ∧
    ∀ node ∈ live', (∃ node' ∈ live, node'.key = node.key) ∨
      (call.Opens ∧ r.forward ≠ none ∧ 0 < r.ret ∧ r.ret = node.key.toInt)
  := by
  cases HookCall.run_effect hrun with
  | keep hr =>
      use live
      rw [hr]
      exact ⟨h, fun node hnode => Or.inl ⟨node, hnode, rfl⟩⟩
  | enter hopens hreply =>
      obtain ⟨a, ha⟩ := Option.ne_none_iff_exists'.mp (hok.malloc fdHt.heap)
      use live ++ [⟨env.reply, env.tid, hashFunction env.reply⟩]
      constructor
      · apply h.fdInsertByValue (hok.malloc _) hok.tid
      · intro node hnode
        rcases List.mem_append.mp hnode with hnode | hnode
        · left
          use node
        · right
          rw [List.mem_singleton.mp hnode]
          simp [enter, SocketToRdma.fdInsertByValue, ChainTable.insertByValue, ha, hopens, hreply]
  | connect htid hr =>
      rename_i d addr
      use live ++ [⟨d, tidBySearchByKey fdHt d, hashFunction d⟩]
      rw [hr]
      constructor
      · apply h.fdInsertByValue (hok.malloc _) htid
      · intro node hnode
        left
        rcases List.mem_append.mp hnode with hnode | hnode
        · use node
        · rw [List.mem_singleton.mp hnode]
          apply h.exists_mem_of_lookup (Or.inl htid)
  | close htid hr =>
      rename_i d
      use Live.deleteByKey live d
      rw [hr]
      exact ⟨h.fdDeleteByKey d, fun node hnode =>
        Or.inl ⟨node, List.mem_of_mem_eraseP hnode, rfl⟩⟩
  | exit hr =>
      use Live.deleteByValue live env.tid (List.range htSz)
      rw [hr]
      exact ⟨h.fdDeleteByValue env.tid, fun node hnode =>
        Or.inl ⟨node, Live.mem_of_mem_deleteByValue hnode, rfl⟩⟩

end Routes

/-! ### A single entry -/

/-- A `close` of a descriptor that `searchByKey` finds is forwarded and removes an entry. -/
theorem run_close {fdHt : FDHashTable} {d : BitVec 32} {env : HookEnv}
    (htid : tidBySearchByKey fdHt d ≠ 0) (hinfo : env.rInfo = true) :
  (HookCall.close d).run fdHt env
    = some { callServer fdHt env d .close 0 0 with fdHt := fdDeleteByKey fdHt d }
  := HookCall.route_of_ne htid hinfo _ _

/-- A forwarded `close` removes an entry of its descriptor. -/
theorem close_of_forwarded {fdHt : FDHashTable} {d : BitVec 32} {env : HookEnv}
    (h : Forwarded fdHt (.close d, env)) :
  tidBySearchByKey fdHt d ≠ 0 ∧ env.rInfo = true ∧
    hookStep fdHt (.close d, env) = some (fdDeleteByKey fdHt d)
  := by
  obtain ⟨r, hr, hfwd⟩ := h
  have htid : tidBySearchByKey fdHt d ≠ 0 := by
    rcases HookCall.route_cases hr with rfl | ⟨htid, -⟩
    · cases hfwd rfl
    · apply htid
  have hinfo : env.rInfo = true := by
    by_contra hinfo
    simp only [HookCall.run, reqClose, route, if_neg htid, if_neg hinfo] at hr
    cases hr
  use htid, hinfo
  rw [hookStep, run_close htid hinfo]
  rfl

/-- A `close` of a descriptor that `searchByKey` finds is forwarded. -/
theorem forwarded_close {fdHt : FDHashTable} {d : BitVec 32} {env : HookEnv}
    (htid : tidBySearchByKey fdHt d ≠ 0) (hinfo : env.rInfo = true) :
  Forwarded fdHt (.close d, env)
  := ⟨_, run_close htid hinfo, by simp [callServer]⟩

/-- A `recv` on a descriptor that `searchByKey` finds is forwarded. -/
theorem forwarded_recv {fdHt : FDHashTable} {d : BitVec 32} {env : HookEnv}
    (htid : tidBySearchByKey fdHt d ≠ 0) (hinfo : env.rInfo = true) (length : BitVec 64) :
  Forwarded fdHt (.recv d length, env)
  := ⟨_, HookCall.route_of_ne htid hinfo _ _, by simp [callServer]⟩

/-- A `write` on a descriptor that `fd_searchByKey` finds is forwarded. -/
theorem forwarded_write {fdHt : FDHashTable} {d : BitVec 32} {env : HookEnv}
    (htid : fdSearchByKey fdHt d ≠ 0) (hinfo : env.rInfo = true) (n : BitVec 64) :
  Forwarded fdHt (.write d n, env)
  := ⟨_, HookCall.route_of_ne htid hinfo _ _, by simp [callServer]⟩

/-- The call of the original function is not forwarded. -/
theorem not_forwarded_of_original {fdHt : FDHashTable} {a : HookAct}
    (h : a.1.run fdHt a.2 = some (callOriginal fdHt a.2)) :
  ¬ Forwarded fdHt a
  := by
  rintro ⟨r, hr, hfwd⟩
  obtain rfl := Option.some.inj (h.symm.trans hr)
  cases hfwd rfl

/-- The table is a routing table after every run. -/
theorem routes_run {fdHt : FDHashTable} {acts : List HookAct} (hok : ∀ a ∈ acts, a.2.Ok)
    (hrun : run hookStep createFDHashTable acts = some fdHt) :
  ∃ live, Routes fdHt live
  := by
  apply run_invariant (I := fun t => ∃ live, Routes t live) _ ⟨[], Routes.create⟩
    (along_of_mem hok) hrun
  rintro t ⟨call, env⟩ t' ⟨live, h⟩ henv hstep
  obtain ⟨r, hr, rfl⟩ := Option.map_eq_some_iff.mp hstep
  obtain ⟨live', h', -⟩ := h.step henv hr
  use live'

/-- A descriptor without entries stays without entries until it is returned. -/
theorem absent_run {s t : FDHashTable} {acts : List HookAct} {d : BitVec 32}
    (hs : ∃ live, Routes s live ∧ ∀ node ∈ live, node.key ≠ d) (hok : ∀ a ∈ acts, a.2.Ok)
    (hret : Along hookStep (fun u b => ¬ Returns u b d) s acts)
    (hrun : run hookStep s acts = some t) :
  ∃ live, Routes t live ∧ ∀ node ∈ live, node.key ≠ d
  := by
  apply run_invariant (I := fun t => ∃ live, Routes t live ∧ ∀ node ∈ live, node.key ≠ d) _ hs
    ((along_of_mem hok).and hret) hrun
  rintro u ⟨call, env⟩ u' ⟨live, h, hd⟩ ⟨henv, hnot⟩ hstep
  obtain ⟨r, hr, rfl⟩ := Option.map_eq_some_iff.mp hstep
  obtain ⟨live', h', hkeys⟩ := h.step henv hr
  use live', h'
  rintro node hnode rfl
  rcases hkeys node hnode with ⟨node', hnode', hkey⟩ | ⟨hopens, -, -, hret'⟩
  · apply hd node' hnode' hkey
  · apply hnot
    exact ⟨hopens, r, hr, hret'⟩

/-- No call on a descriptor without entries is forwarded. -/
theorem not_forwarded_of_absent {s : FDHashTable} {d : BitVec 32}
    (hs : ∃ live, Routes s live ∧ ∀ node ∈ live, node.key ≠ d) {a : HookAct}
    (ha : a.1.fd = some d) :
  ¬ Forwarded s a
  := by
  rintro ⟨r, hr, hfwd⟩
  obtain ⟨live, h, hd⟩ := hs
  obtain ⟨node, hnode, hkey⟩ :=
    h.exists_mem_of_lookup (HookCall.lookup_of_forward hr hfwd ha)
  apply hd node hnode hkey

/-- A deletion leaves no entry of its descriptor exactly when there was at most one. -/
theorem absent_deleteByKey_iff (live : List (Node 32)) (d : BitVec 32) :
  (∀ node ∈ Live.deleteByKey live d, node.key ≠ d) ↔
    live.countP (fun node => node.key == d) ≤ 1
  := by
  induction live with
  | nil => simp [Live.deleteByKey]
  | cons first live ih =>
      by_cases hfirst : first.key = d
      · rw [List.countP_cons_of_pos (by simpa using hfirst), Live.deleteByKey,
          List.eraseP_cons_of_pos (by simpa using hfirst), Nat.add_one_le_iff, Nat.lt_one_iff,
          List.countP_eq_zero]
        simp
      · rw [List.countP_cons_of_neg (by simpa using hfirst), Live.deleteByKey,
          List.eraseP_cons_of_neg (by simpa using hfirst), List.forall_mem_cons, ← ih]
        simp [hfirst, Live.deleteByKey]

/-- A run each of whose forwarded `close`s finds a single entry keeps closed descriptors
closed. -/
theorem staysClosed_of_along {acts : List HookAct} (hok : ∀ a ∈ acts, a.2.Ok)
    (hsingle : Along hookStep SingleEntryAtClose createFDHashTable acts) :
  StaysClosed createFDHashTable acts
  := by
  rintro pre d env mid a post rfl s s' t hpre hfwd hclose hret hmid ha
  simp only [List.mem_append, List.mem_cons] at hok
  obtain ⟨live, h⟩ := routes_run (fun b hb => hok b (Or.inl hb)) hpre
  have hentries : entries s d = 1 := (hsingle.right hpre).1 d rfl hfwd
  have hs' : ∃ live, Routes s' live ∧ ∀ node ∈ live, node.key ≠ d := by
    rw [(close_of_forwarded hfwd).2.2] at hclose
    obtain rfl := Option.some.inj hclose
    use Live.deleteByKey live d, h.fdDeleteByKey d
    rw [absent_deleteByKey_iff, ← h.entries_eq, hentries]
  apply not_forwarded_of_absent _ ha
  apply absent_run hs' _ hret hmid
  intro b hb
  apply hok b
  tauto

/-! ### More than one entry -/

/-- Deleting the first node of a bucket by its key leaves the rest of the bucket. -/
theorem bucket_deleteByKey_head {live : List (Node 32)} {i : ℕ} {first : Node 32}
    {rest : List (Node 32)} (hbucket : Live.bucket live i = first :: rest) :
  Live.bucket (Live.deleteByKey live first.key) i = rest
  := by
  have hfirst : hashFunction first.key = i := by
    have hmem : first ∈ Live.bucket live i := by simp [hbucket]
    simpa using (List.mem_filter.mp hmem).2
  rw [Live.deleteByKey, Live.bucket_eraseP, hbucket, List.eraseP_cons_of_pos (by simp)]
  intro node hnode
  rw [beq_iff_eq.mp hnode, hfirst]

/-- The first node of a bucket other than `0` is found by `searchByKey`. -/
theorem Routes.tid_head_ne_zero {s : FDHashTable} {live : List (Node 32)} (h : Routes s live)
    {i : ℕ} (hi : i ≠ 0) {first : Node 32} {rest : List (Node 32)}
    (hbucket : Live.bucket live i = first :: rest) :
  tidBySearchByKey s first.key ≠ 0
  := by
  have hfirst : hashFunction first.key = i := by
    have hmem : first ∈ Live.bucket live i := by simp [hbucket]
    simpa using (List.mem_filter.mp hmem).2
  rw [Ne, h.represents.tidBySearchByKey_eq_zero_iff, hfirst, hbucket]
  simp [hi]

/-- An entry behind others in its bucket is brought to the front by closing those. -/
theorem exists_run_exposing {s : FDHashTable} {live : List (Node 32)} (h : Routes s live)
    {d : BitVec 32} (hhash : hashFunction d ≠ 0) {env : HookEnv} (hinfo : env.rInfo = true)
    {before after : List (Node 32)} {node : Node 32}
    (hbucket : Live.bucket live (hashFunction d) = before ++ node :: after)
    (hnode : node.key = d) :
  ∃ mid t, (∀ b ∈ mid, b.2 = env ∧ ¬ b.1.Opens) ∧ run hookStep s mid = some t ∧
    tidBySearchByKey t d ≠ 0
  := by
  induction before generalizing s live with
  | nil =>
      use [], s
      simp only [List.not_mem_nil, false_imp_iff, implies_true, run_nil, true_and]
      rw [← hnode]
      apply h.tid_head_ne_zero hhash hbucket
  | cons first before ih =>
      have htid := h.tid_head_ne_zero hhash hbucket
      obtain ⟨mid, t, hmid, hrun, ht⟩ :=
        ih (h.fdDeleteByKey first.key) (bucket_deleteByKey_head hbucket)
      use (.close first.key, env) :: mid, t
      refine ⟨?_, ?_, ht⟩
      · intro b hb
        rcases List.mem_cons.mp hb with rfl | hb
        · exact ⟨rfl, id⟩
        · apply hmid b hb
      · rw [run_cons_eq_some]
        use fdDeleteByKey s first.key, (close_of_forwarded (forwarded_close htid hinfo)).2.2

/-- After a forwarded `close` that found more than one entry, some calls lead to a call on
the descriptor that is forwarded. -/
theorem exists_not_staysClosed {pre : List HookAct} {s : FDHashTable} {d : BitVec 32}
    {env : HookEnv} (hok : ∀ a ∈ pre, a.2.Ok)
    (hpre : run hookStep createFDHashTable pre = some s) (hfwd : Forwarded s (.close d, env))
    (hentries : entries s d ≠ 1) :
  ∃ mid a, (∀ b ∈ mid ++ [a], b.2 = env) ∧
    ¬ StaysClosed createFDHashTable (pre ++ (.close d, env) :: (mid ++ [a]))
  := by
  obtain ⟨live, h⟩ := routes_run hok hpre
  obtain ⟨htid, hinfo, hclose⟩ := close_of_forwarded hfwd
  obtain ⟨first, hfirst, hkey⟩ := h.exists_mem_of_lookup (Or.inl htid)
  have htwo : ¬ live.countP (fun node => node.key == d) ≤ 1 := by
    have hpos : 0 < live.countP (fun node => node.key == d) :=
      List.countP_pos_iff.mpr ⟨first, hfirst, by simpa using hkey⟩
    rw [h.entries_eq] at hentries
    omega
  rw [← absent_deleteByKey_iff] at htwo
  push Not at htwo
  obtain ⟨node, hnode, hnodekey⟩ := htwo
  have hmem : node ∈ Live.bucket (Live.deleteByKey live d) (hashFunction d) :=
    List.mem_filter.mpr ⟨hnode, by simp [hnodekey]⟩
  obtain ⟨before, after, hbucket⟩ := List.append_of_mem hmem
  have hhash : hashFunction d ≠ 0 := by
    rw [Ne, h.represents.tidBySearchByKey_eq_zero_iff, not_or] at htid
    apply htid.1
  obtain ⟨mid, t, hmid, hrun, ht⟩ :=
    exists_run_exposing (h.fdDeleteByKey d) hhash hinfo hbucket hnodekey
  use mid, (.recv d 0, env)
  constructor
  · intro b hb
    rcases List.mem_append.mp hb with hb | hb
    · apply (hmid b hb).1
    · rw [List.mem_singleton.mp hb]
  · intro hstays
    apply hstays pre d env mid (.recv d 0, env) [] rfl s _ t hpre hfwd hclose _ hrun rfl
    · apply forwarded_recv ht hinfo
    · apply along_of_mem (P := fun b => ¬ b.1.Opens) (fun b hb => (hmid b hb).2) |>.mono
      intro u b hb hret
      apply hb hret.1

/-- If every forwarded `close` of a run finds a single entry of its descriptor, then no call
on a closed descriptor is forwarded until the descriptor is returned again; and whenever a
forwarded `close` of the run finds more than one entry, its thread can go on from there to a
call on the closed descriptor that is forwarded. -/
theorem closed_not_forwarded (acts : List HookAct) (hok : ∀ a ∈ acts, a.2.Ok) :
  (Along hookStep SingleEntryAtClose createFDHashTable acts →
      StaysClosed createFDHashTable acts) ∧
    ∀ (pre post : List HookAct) (s : FDHashTable) (d : BitVec 32) (env : HookEnv),
      acts = pre ++ (.close d, env) :: post → run hookStep createFDHashTable pre = some s →
        Forwarded s (.close d, env) → entries s d ≠ 1 →
          ∃ mid a, (∀ b ∈ mid ++ [a], b.2 = env) ∧
            ¬ StaysClosed createFDHashTable (pre ++ (.close d, env) :: (mid ++ [a]))
  := by
  constructor
  · apply staysClosed_of_along hok
  · rintro pre post s d env rfl hpre hfwd hentries
    apply exists_not_staysClosed _ hpre hfwd hentries
    intro a ha
    apply hok a (List.mem_append_left _ ha)

/-! ### A descriptor that is connected -/

/-- A server that replies `5` to a thread with the id `100`. -/
def replyFive : HookEnv where
  tid := 100
  rInfo := true
  fromRdmaClient := false
  reply := 5#32
  original := 0
  malloc := .bump 32

theorem replyFive_ok :
  replyFive.Ok
  := ⟨by simp [replyFive, Malloc.bump], by decide⟩

/-- The table after `socket` returned `5`. -/
def afterSocket : FDHashTable :=
  (fdInsertByValue (.bump 32) createFDHashTable 5#32 100).1

theorem hookStep_socket :
  hookStep createFDHashTable (.socket, replyFive) = some afterSocket
  := rfl

theorem routes_afterSocket :
  Routes afterSocket [⟨5#32, 100, hashFunction 5#32⟩]
  := Routes.create.fdInsertByValue (by simp [Malloc.bump]) (by decide)

theorem tid_afterSocket :
  tidBySearchByKey afterSocket 5#32 ≠ 0
  := by
  have hhash : hashFunction 5#32 ≠ 0 := by
    rw [hashFunction_eq]
    decide
  rw [Ne, routes_afterSocket.represents.tidBySearchByKey_eq_zero_iff]
  simp [hhash, Live.bucket]

theorem fd_afterSocket :
  fdSearchByKey afterSocket 5#32 ≠ 0
  := by
  rw [Ne, routes_afterSocket.represents.fdSearchByKey_eq_zero_iff routes_afterSocket.value_ne]
  simp [Live.bucket]

/-- A socket that is opened, written to and closed stays closed. -/
theorem closed_not_forwarded_unconnected :
  StaysClosed createFDHashTable
    [(.socket, replyFive), (.close 5#32, replyFive), (.recv 5#32 0, replyFive)]
  := by
  apply (closed_not_forwarded _ _).1
  · refine ⟨by simp [SingleEntryAtClose], fun s hs => ⟨?_, fun s' _ => ⟨?_, fun _ _ => trivial⟩⟩⟩
    · rw [hookStep_socket] at hs
      obtain rfl := Option.some.inj hs
      rintro d ⟨⟩ -
      rw [routes_afterSocket.entries_eq]
      rfl
    · simp [SingleEntryAtClose]
  · simp [replyFive_ok]

/-- A socket that is opened, connected and closed is still routed to the server. -/
theorem closed_forwarded_connected :
  ¬ StaysClosed createFDHashTable
    [(.socket, replyFive), (.connect 5#32 ⟨2, 0⟩, replyFive), (.close 5#32, replyFive),
      (.recv 5#32 0, replyFive)]
  := by
  intro hstays
  let afterConnect :=
    (fdInsertByValue (.bump 32) afterSocket 5#32 (tidBySearchByKey afterSocket 5#32)).1
  have hconnect : hookStep afterSocket (.connect 5#32 ⟨2, 0⟩, replyFive) = some afterConnect := by
    simp only [hookStep, HookCall.run, reqConnect,
      HookCall.route_of_ne tid_afterSocket (show replyFive.rInfo = true from rfl)]
    rfl
  have hroutes : Routes afterConnect
      [⟨5#32, 100, hashFunction 5#32⟩,
        ⟨5#32, tidBySearchByKey afterSocket 5#32, hashFunction 5#32⟩] :=
    routes_afterSocket.fdInsertByValue (by simp [Malloc.bump]) tid_afterSocket
  have hhash : hashFunction 5#32 ≠ 0 := by
    rw [hashFunction_eq]
    decide
  have htid : tidBySearchByKey afterConnect 5#32 ≠ 0 := by
    rw [Ne, hroutes.represents.tidBySearchByKey_eq_zero_iff]
    simp [hhash, Live.bucket]
  have htid' : tidBySearchByKey (fdDeleteByKey afterConnect 5#32) 5#32 ≠ 0 := by
    rw [Ne, (hroutes.fdDeleteByKey 5#32).represents.tidBySearchByKey_eq_zero_iff]
    simp [hhash, Live.bucket, Live.deleteByKey]
  have hclose : Forwarded afterConnect (.close 5#32, replyFive) := forwarded_close htid rfl
  apply hstays [(.socket, replyFive), (.connect 5#32 ⟨2, 0⟩, replyFive)] 5#32 replyFive []
    (.recv 5#32 0, replyFive) [] rfl afterConnect _ _ _ hclose (close_of_forwarded hclose).2.2
    trivial rfl rfl
  · apply forwarded_recv htid' rfl
  · rw [run_cons_eq_some]
    use afterSocket, hookStep_socket
    rw [run_cons_eq_some]
    use afterConnect, hconnect
    rfl

end SocketToRdma
