import Mathlib.Logic.Equiv.Basic
import SocketToRdma.Host.Routing

/-!
# How `select` and `poll` are routed

`req_poll` looks the descriptor of the first entry of its array up, and `req_select` the number
`nfds - 1`. One descriptor stands for all: the route does not depend on how the descriptors are
written down exactly when every descriptor that can come to stand for the others is found in
`fd_ht`, or none is.
-/

namespace SocketToRdma

/-! ### The route of a call -/

/-- The descriptor is found in `fd_ht`. -/
def Remote (fdHt : FDHashTable) (d : BitVec 32) : Prop :=
  fdSearchByKey fdHt d ≠ 0

/-- The call is the call of the original function. -/
def CallsOriginal (fdHt : FDHashTable) (a : HookAct) : Prop :=
  a.1.run fdHt a.2 = some (callOriginal fdHt a.2)

/-- The descriptors of a set are all found, or none of them is. -/
def Uniform (fdHt : FDHashTable) (ds : Set (BitVec 32)) : Prop :=
  (∀ d ∈ ds, Remote fdHt d) ∨ (∀ d ∈ ds, ¬ Remote fdHt d)

theorem uniform_iff {fdHt : FDHashTable} {ds : Set (BitVec 32)} :
  Uniform fdHt ds ↔ ∀ d ∈ ds, ∀ d' ∈ ds, (Remote fdHt d ↔ Remote fdHt d')
  := by
  constructor
  · rintro (hall | hnone) d hd d' hd'
    · exact ⟨fun _ => hall d' hd', fun _ => hall d hd⟩
    · exact ⟨fun h => absurd h (hnone d hd), fun h => absurd h (hnone d' hd')⟩
  · intro h
    by_cases hsome : ∃ d ∈ ds, Remote fdHt d
    · obtain ⟨d, hd, hremote⟩ := hsome
      left
      intro d' hd'
      exact (h d hd d' hd').mp hremote
    · right
      intro d hd hremote
      exact hsome ⟨d, hd, hremote⟩

/-- A call whose hook has the routing of all hooks is the call of the original function when its
descriptor is not found. -/
theorem route_eq_callOriginal_iff {tid : BitVec 32} {fdHt : FDHashTable} {env : HookEnv}
    {forwarded : HookResult} (hforward : forwarded.forward ≠ none) :
  route tid fdHt env forwarded = some (callOriginal fdHt env) ↔ tid = 0
  := by
  constructor
  · intro h
    unfold route at h
    split_ifs at h with htid hinfo
    · exact htid
    · rw [Option.some.inj h] at hforward
      cases hforward rfl
  · intro htid
    rw [route, if_pos htid]

theorem callsOriginal_poll (fdHt : FDHashTable) (env : HookEnv) (fd : BitVec 32) :
  CallsOriginal fdHt (.poll fd, env) ↔ ¬ Remote fdHt fd
  := (route_eq_callOriginal_iff (by simp [callServer])).trans not_not.symm

theorem callsOriginal_select (fdHt : FDHashTable) (env : HookEnv) (nfds : BitVec 32) :
  CallsOriginal fdHt (.select nfds, env) ↔ ¬ Remote fdHt (nfds - 1)
  := (route_eq_callOriginal_iff (by simp [callServer])).trans not_not.symm

theorem forwarded_poll {fdHt : FDHashTable} {env : HookEnv} {fd : BitVec 32}
    (hfd : Remote fdHt fd) (hinfo : env.rInfo = true) :
  Forwarded fdHt (.poll fd, env)
  := ⟨_, HookCall.route_of_ne hfd hinfo fdHt _, by simp [callServer]⟩

theorem forwarded_select {fdHt : FDHashTable} {env : HookEnv} {nfds : BitVec 32}
    (hfd : Remote fdHt (nfds - 1)) (hinfo : env.rInfo = true) :
  Forwarded fdHt (.select nfds, env)
  := ⟨_, HookCall.route_of_ne hfd hinfo fdHt _, by simp [callServer]⟩

/-! ### The entries of a `poll` -/

/-- The descriptor of the entry `i` of the array that starts a memory. -/
def pollFd (fds : ByteMem) (i : ℕ) : BitVec 32 :=
  fds.loadBits 32 (8 * i)

/-- The descriptors of the first `n` entries of the array. -/
def pollFds (fds : ByteMem) (n : ℕ) : Set (BitVec 32) :=
  {d | ∃ i < n, pollFd fds i = d}

/-- The call of `poll` on an array. -/
def pollCall (fds : ByteMem) : HookCall :=
  .poll (pollFd fds 0)

/-- The first `n` entries of the second array are those of the first one, in another order. -/
def Permuted (fds fds' : ByteMem) (n : ℕ) : Prop :=
  (∃ σ : Equiv.Perm (Fin n), ∀ i : Fin n, fds'.load (8 * i) 8 = fds.load (8 * σ i) 8) ∧
    ∀ j, 8 * n ≤ j → fds' j = fds j

/-- A `poll` of `n` entries is routed by the set of its descriptors: the order of the entries does
not matter, and when there are descriptors and all are remote, the call is forwarded. -/
structure PollRouted (fdHt : FDHashTable) (fds : ByteMem) (n : ℕ) : Prop where
  order : ∀ env fds', Permuted fds fds' n →
    (CallsOriginal fdHt (pollCall fds', env) ↔ CallsOriginal fdHt (pollCall fds, env))
  forwarded : (∃ d ∈ pollFds fds n, 0 ≤ d.toInt) →
    (∀ d ∈ pollFds fds n, 0 ≤ d.toInt → Remote fdHt d) →
    ∀ env : HookEnv, env.rInfo = true → Forwarded fdHt (pollCall fds, env)

theorem pollFd_of_load {fds fds' : ByteMem} {i j : ℕ}
    (h : fds'.load (8 * i) 8 = fds.load (8 * j) 8) :
  pollFd fds' i = pollFd fds j
  := by
  have hcopy : ∀ (m : ByteMem) (k : ℕ), pollFd m k = (fds.store 0 (m.load (8 * k) 8)).loadBits 32 0
      := by
    intro m k
    exact (ByteMem.loadBits_store_load fds m 0 (8 * k) (by decide)).symm
  rw [hcopy fds' i, hcopy fds j, h]

/-- The array with its first entry and the entry `i` in each other's place. -/
def swapEntries (fds : ByteMem) (i : ℕ) : ByteMem :=
  (fds.store 0 (fds.load (8 * i) 8)).store (8 * i) (fds.load 0 8)

theorem load_swapEntries_self (fds : ByteMem) (i : ℕ) :
  (swapEntries fds i).load (8 * i) 8 = fds.load 0 8
  := ByteMem.load_store _ _ _

theorem load_swapEntries_zero (fds : ByteMem) (i : ℕ) :
  (swapEntries fds i).load 0 8 = fds.load (8 * i) 8
  := by
  by_cases hi : i = 0
  · rw [hi]
    apply load_swapEntries_self fds 0
  · rw [swapEntries, ByteMem.load_store_of_disjoint _ _ _ (by omega), ByteMem.load_store]

theorem load_swapEntries_of_ne (fds : ByteMem) {i k : ℕ} (hi : k ≠ i) (hzero : k ≠ 0) :
  (swapEntries fds i).load (8 * k) 8 = fds.load (8 * k) 8
  := by
  rw [swapEntries, ByteMem.load_store_of_disjoint _ _ _ (by omega),
    ByteMem.load_store_of_disjoint _ _ _ (by omega)]

theorem permuted_swapEntries (fds : ByteMem) {i n : ℕ} (hi : i < n) :
  Permuted fds (swapEntries fds i) n
  := by
  constructor
  · use Equiv.swap ⟨0, by omega⟩ ⟨i, hi⟩
    intro k
    by_cases hki : k = ⟨i, hi⟩
    · rw [hki, Equiv.swap_apply_right]
      apply load_swapEntries_self
    · by_cases hk0 : k = ⟨0, by omega⟩
      · rw [hk0, Equiv.swap_apply_left]
        apply load_swapEntries_zero
      · rw [Equiv.swap_apply_of_ne_of_ne hk0 hki]
        apply load_swapEntries_of_ne fds
        · exact fun h => hki (Fin.ext h)
        · exact fun h => hk0 (Fin.ext h)
  · intro j hj
    rw [swapEntries, ByteMem.store, dif_neg (by omega), ByteMem.store, dif_neg (by omega)]

/-- Each descriptor of the array can come to be the first. -/
theorem pollFd_permuted {fds fds' : ByteMem} {n : ℕ} (h : Permuted fds fds' n) (hn : 0 < n) :
  pollFd fds' 0 ∈ pollFds fds n
  := by
  obtain ⟨σ, hσ⟩ := h.1
  use σ ⟨0, hn⟩, (σ ⟨0, hn⟩).isLt
  exact (pollFd_of_load (hσ ⟨0, hn⟩)).symm

/-- A `poll` is routed by the set of its descriptors exactly when they are all remote or none of
them is. -/
theorem pollRouted_iff (fdHt : FDHashTable) (fds : ByteMem) (n : ℕ) :
  PollRouted fdHt fds n ↔ Uniform fdHt (pollFds fds n)
  := by
  have hfirst : 0 < n → pollFd fds 0 ∈ pollFds fds n := fun hn => ⟨0, hn, rfl⟩
  constructor
  · rintro ⟨horder, -⟩
    have hsame : ∀ d ∈ pollFds fds n, (Remote fdHt d ↔ Remote fdHt (pollFd fds 0)) := by
      rintro d ⟨i, hi, rfl⟩
      have h := horder replyFive (swapEntries fds i) (permuted_swapEntries fds hi)
      have hfd : pollFd (swapEntries fds i) 0 = pollFd fds i :=
        pollFd_of_load (load_swapEntries_zero fds i)
      rw [pollCall, pollCall, callsOriginal_poll, callsOriginal_poll, hfd, not_iff_not] at h
      exact h
    apply uniform_iff.mpr
    intro d hd d' hd'
    exact (hsame d hd).trans (hsame d' hd').symm
  · intro huniform
    constructor
    · intro env fds' hperm
      rw [pollCall, pollCall, callsOriginal_poll, callsOriginal_poll, not_iff_not]
      obtain rfl | hn := Nat.eq_zero_or_pos n
      · -- no entry: nothing was changed
        have hfds : fds' = fds := funext fun j => hperm.2 j (Nat.zero_le j)
        rw [hfds]
      · exact uniform_iff.mp huniform _ (pollFd_permuted hperm hn) _ (hfirst hn)
    · rintro ⟨d, hd, hpos⟩ hremote env hinfo
      obtain ⟨i, hi, -⟩ := id hd
      apply forwarded_poll _ hinfo
      exact (uniform_iff.mp huniform d hd _ (hfirst (by omega))).mp (hremote d hd hpos)

/-! ### The sets of a `select` -/

/-- `FD_SETSIZE` -/
def fdSetsize : ℕ := 1024

/-- `FD_ISSET`: the descriptor `d` is a bit of the byte `d / 8`. -/
def fdIsset (d : ℕ) (set : Block 128) : Bool :=
  if h : d / 8 < 128 then (set ⟨d / 8, h⟩).toBitVec.getLsbD (d % 8) else false

/-- The three sets of a `select`, each of them or `NULL`. -/
structure FdSets where
  readfds : Option (Block 128)
  writefds : Option (Block 128)
  exceptfds : Option (Block 128)

theorem fdIsset_lt {d : ℕ} {set : Block 128} (h : fdIsset d set = true) :
  d < fdSetsize
  := by
  unfold fdIsset at h
  split at h
  · unfold fdSetsize
    omega
  · cases h

namespace FdSets

/-- The descriptor is in one of the sets. -/
def has (sets : FdSets) (d : ℕ) : Bool :=
  sets.readfds.any (fdIsset d) || sets.writefds.any (fdIsset d) || sets.exceptfds.any (fdIsset d)

/-- The number is greater than every descriptor of the sets, and at most `FD_SETSIZE`. -/
def Covers (sets : FdSets) (nfds : ℕ) : Prop :=
  nfds ≤ fdSetsize ∧ ∀ d, sets.has d = true → d < nfds

/-- One more than the highest descriptor of the sets, `0` if they are empty. -/
def leastNfds (sets : FdSets) : ℕ :=
  Nat.findGreatest (fun n => 0 < n ∧ sets.has (n - 1) = true) fdSetsize

/-- The highest descriptor of the sets, `-1` if they are empty. -/
def highest (sets : FdSets) : ℤ :=
  sets.leastNfds - 1

/-- The numbers from the highest descriptor of the sets up to the last one that a set can have. -/
def upwards (sets : FdSets) : Set (BitVec 32) :=
  {d | ∃ z : ℤ, sets.highest ≤ z ∧ z < fdSetsize ∧ BitVec.ofInt 32 z = d}

theorem has_lt {sets : FdSets} {d : ℕ} (h : sets.has d = true) :
  d < fdSetsize
  := by
  have hany : ∀ set : Option (Block 128), set.any (fdIsset d) = true → d < fdSetsize := by
    intro set hset
    cases set with
    | none => cases hset
    | some set => exact fdIsset_lt hset
  simp only [has, Bool.or_eq_true] at h
  obtain (h | h) | h := h
  · exact hany _ h
  · exact hany _ h
  · exact hany _ h

theorem lt_leastNfds {sets : FdSets} {d : ℕ} (h : sets.has d = true) :
  d < sets.leastNfds
  := by
  apply Nat.le_findGreatest (has_lt h)
  exact ⟨Nat.succ_pos d, h⟩

theorem has_of_leastNfds {sets : FdSets} (h : sets.leastNfds ≠ 0) :
  sets.has (sets.leastNfds - 1) = true
  := (Nat.findGreatest_of_ne_zero rfl h).2

theorem leastNfds_le (sets : FdSets) :
  sets.leastNfds ≤ fdSetsize
  := Nat.findGreatest_le _

theorem covers_iff (sets : FdSets) (nfds : ℕ) :
  sets.Covers nfds ↔ sets.leastNfds ≤ nfds ∧ nfds ≤ fdSetsize
  := by
  constructor
  · rintro ⟨hsize, hcovers⟩
    constructor
    · obtain hzero | hpos := Nat.eq_zero_or_pos sets.leastNfds
      · omega
      · have := hcovers _ (has_of_leastNfds (by omega))
        omega
    · exact hsize
  · rintro ⟨hleast, hsize⟩
    use hsize
    intro d hd
    have := lt_leastNfds hd
    omega

theorem ofNat_succ_sub_one (n : ℕ) :
  BitVec.ofNat 32 (n + 1) - 1 = BitVec.ofNat 32 n
  := by
  rw [BitVec.ofNat_add]
  apply BitVec.add_sub_cancel

theorem ofNat_sub_one (n : ℕ) :
  BitVec.ofNat 32 n - 1 = BitVec.ofInt 32 ((n : ℤ) - 1)
  := by
  cases n with
  | zero => rfl
  | succ n =>
      rw [ofNat_succ_sub_one, Int.natCast_succ, Int.add_sub_cancel]
      exact (BitVec.ofInt_natCast 32 n).symm

/-- The numbers that are looked up are those from the highest descriptor upwards. -/
theorem mem_upwards_iff (sets : FdSets) (d : BitVec 32) :
  d ∈ sets.upwards ↔ ∃ nfds, sets.Covers nfds ∧ d = BitVec.ofNat 32 nfds - 1
  := by
  constructor
  · rintro ⟨z, hlow, hhigh, rfl⟩
    rw [highest] at hlow
    refine ⟨(z + 1).toNat, (covers_iff _ _).mpr (by omega), ?_⟩
    rw [ofNat_sub_one, Int.toNat_of_nonneg (by omega), Int.add_sub_cancel]
  · rintro ⟨nfds, hcovers, rfl⟩
    obtain ⟨hleast, hsize⟩ := (covers_iff _ _).mp hcovers
    refine ⟨(nfds : ℤ) - 1, ?_, by omega, (ofNat_sub_one nfds).symm⟩
    rw [highest]
    omega

end FdSets

/-- The call of `select` with the number `nfds`. -/
def selectCall (nfds : ℕ) : HookCall :=
  .select (BitVec.ofNat 32 nfds)

/-- A `select` on some sets is routed by the set of its descriptors: every `nfds` that covers the
sets gives the same route, and when there are descriptors and all are remote, the call is
forwarded. -/
structure SelectRouted (fdHt : FDHashTable) (sets : FdSets) : Prop where
  number : ∀ env nfds nfds', sets.Covers nfds → sets.Covers nfds' →
    (CallsOriginal fdHt (selectCall nfds', env) ↔ CallsOriginal fdHt (selectCall nfds, env))
  forwarded : (∃ d, sets.has d = true) →
    (∀ d, sets.has d = true → Remote fdHt (BitVec.ofNat 32 d)) →
    ∀ (env : HookEnv) (nfds : ℕ), env.rInfo = true → sets.Covers nfds →
      Forwarded fdHt (selectCall nfds, env)

/-- A `select` is routed by the set of its descriptors exactly when the numbers from the highest
one upwards are all remote or none of them is. -/
theorem selectRouted_iff (fdHt : FDHashTable) (sets : FdSets) :
  SelectRouted fdHt sets ↔ Uniform fdHt sets.upwards
  := by
  constructor
  · rintro ⟨hnumber, -⟩
    apply uniform_iff.mpr
    intro d hd d' hd'
    obtain ⟨nfds, hcovers, rfl⟩ := (sets.mem_upwards_iff d).mp hd
    obtain ⟨nfds', hcovers', rfl⟩ := (sets.mem_upwards_iff d').mp hd'
    have h := hnumber replyFive nfds' nfds hcovers' hcovers
    rw [selectCall, selectCall, callsOriginal_select, callsOriginal_select, not_iff_not] at h
    exact h
  · intro huniform
    have hsame : ∀ nfds nfds', sets.Covers nfds → sets.Covers nfds' →
        (Remote fdHt (BitVec.ofNat 32 nfds - 1) ↔ Remote fdHt (BitVec.ofNat 32 nfds' - 1)) := by
      intro nfds nfds' hcovers hcovers'
      apply uniform_iff.mp huniform
      · exact (sets.mem_upwards_iff _).mpr ⟨nfds, hcovers, rfl⟩
      · exact (sets.mem_upwards_iff _).mpr ⟨nfds', hcovers', rfl⟩
    constructor
    · intro env nfds nfds' hcovers hcovers'
      rw [selectCall, selectCall, callsOriginal_select, callsOriginal_select, not_iff_not]
      exact hsame nfds' nfds hcovers' hcovers
    · rintro ⟨d, hd⟩ hremote env nfds hinfo hcovers
      apply forwarded_select _ hinfo
      -- the least number that covers the sets is one more than a descriptor of theirs
      have hpos : sets.leastNfds ≠ 0 := by
        have := FdSets.lt_leastNfds hd
        omega
      have hleast : sets.Covers sets.leastNfds := by
        apply (sets.covers_iff _).mpr
        exact ⟨le_refl _, sets.leastNfds_le⟩
      apply (hsame _ nfds hleast hcovers).mp
      have hpred : BitVec.ofNat 32 sets.leastNfds - 1 = BitVec.ofNat 32 (sets.leastNfds - 1) := by
        obtain ⟨n, hn⟩ := Nat.exists_eq_succ_of_ne_zero hpos
        rw [hn, Nat.succ_sub_one]
        apply FdSets.ofNat_succ_sub_one
      rw [hpred]
      apply hremote
      apply FdSets.has_of_leastNfds hpos

/-- The `poll` and the `select` of an application are routed by the sets of their descriptors
exactly when the descriptors of the array, and the numbers from the highest descriptor of the
sets upwards, are all remote or none of them is. -/
theorem multiplexed_routed_iff (fdHt : FDHashTable) (fds : ByteMem) (n : ℕ) (sets : FdSets) :
  PollRouted fdHt fds n ∧ SelectRouted fdHt sets ↔
    Uniform fdHt (pollFds fds n) ∧ Uniform fdHt sets.upwards
  := by
  rw [pollRouted_iff, selectRouted_iff]

/-! ### A remote descriptor among local ones -/

/-- After `socket` returned `5`, only the descriptor `5` is remote. -/
theorem remote_afterSocket (d : BitVec 32) :
  Remote afterSocket d ↔ d = 5#32
  := by
  constructor
  · intro h
    rw [Remote, Ne, routes_afterSocket.represents.fdSearchByKey_eq_zero_iff
      routes_afterSocket.value_ne, not_not] at h
    obtain ⟨first, hfirst, rfl⟩ := h
    have hmem := Live.mem_of_mem_bucket (List.mem_of_head? hfirst)
    rw [List.mem_singleton.mp hmem]
  · rintro rfl
    exact fd_afterSocket

/-- The entries of a `poll` on the descriptors `5` and `4`. -/
def fiveAndFour : ByteMem :=
  (ByteMem.storeBits (fun _ => 0) 0 5#32).storeBits 8 4#32

/-- The sets of a `select` that reads from the descriptor `5`. -/
def readFive : FdSets where
  readfds := some fun i => if i.val = 0 then 32 else 0
  writefds := none
  exceptfds := none

theorem has_readFive {d : ℕ} :
  readFive.has d = true ↔ d = 5
  := by
  constructor
  · intro h
    have hlt := FdSets.has_lt h
    simp only [FdSets.has, readFive, Option.any_some, Option.any_none, Bool.or_false,
      fdIsset] at h
    split at h
    case isTrue hbyte =>
      by_cases hzero : d / 8 = 0
      · have hbits : ∀ k < 8, (32 : UInt8).toBitVec.getLsbD k = true → k = 5 := by decide
        have hd := hbits (d % 8) (by omega)
        rw [if_pos hzero] at h
        have := hd h
        omega
      · rw [if_neg hzero] at h
        simp at h
    case isFalse => cases h
  · rintro rfl
    rfl

/-- With the remote descriptor first a `poll` is forwarded, with the local one first it is not; a
`select` on the remote descriptor is forwarded with `nfds` one more than it, and not with
`FD_SETSIZE`. -/
theorem multiplexed_not_routed :
  Forwarded afterSocket (pollCall fiveAndFour, replyFive) ∧
    CallsOriginal afterSocket (pollCall (swapEntries fiveAndFour 1), replyFive) ∧
    Forwarded afterSocket (selectCall 6, replyFive) ∧
    CallsOriginal afterSocket (selectCall 1024, replyFive) ∧
    readFive.Covers 6 ∧ readFive.Covers 1024 ∧
    ¬ PollRouted afterSocket fiveAndFour 2 ∧ ¬ SelectRouted afterSocket readFive
  := by
  have hfive : pollFd fiveAndFour 0 = 5#32 := by
    rw [pollFd, fiveAndFour, ByteMem.loadBits_storeBits_of_disjoint _ _ _ (Or.inl (by decide))]
    exact ByteMem.loadBits_storeBits _ 0 _ (by decide)
  have hfour : pollFd fiveAndFour 1 = 4#32 := ByteMem.loadBits_storeBits _ _ _ (by decide)
  have hswapped : pollFd (swapEntries fiveAndFour 1) 0 = 4#32 := by
    rw [← hfour]
    exact pollFd_of_load (load_swapEntries_zero fiveAndFour 1)
  have hpoll : Forwarded afterSocket (pollCall fiveAndFour, replyFive) := by
    apply forwarded_poll _ rfl
    rw [hfive]
    exact fd_afterSocket
  have hpoll' : CallsOriginal afterSocket (pollCall (swapEntries fiveAndFour 1), replyFive) := by
    rw [pollCall, callsOriginal_poll, remote_afterSocket, hswapped]
    decide
  have hselect : Forwarded afterSocket (selectCall 6, replyFive) :=
    forwarded_select fd_afterSocket rfl
  have hselect' : CallsOriginal afterSocket (selectCall 1024, replyFive) := by
    rw [selectCall, callsOriginal_select, remote_afterSocket]
    decide
  have hcovers : ∀ nfds, 5 < nfds → nfds ≤ 1024 → readFive.Covers nfds := by
    intro nfds hlow hhigh
    use hhigh
    intro d hd
    rw [has_readFive.mp hd]
    exact hlow
  have hsix := hcovers 6 (by decide) (by decide)
  have hsize := hcovers 1024 (by decide) (by decide)
  refine ⟨hpoll, hpoll', hselect, hselect', hsix, hsize, ?_, ?_⟩
  · rintro ⟨horder, -⟩
    have h := horder replyFive _ (permuted_swapEntries fiveAndFour (i := 1) (by decide))
    have horiginal := h.mp hpoll'
    rw [pollCall, callsOriginal_poll, hfive] at horiginal
    exact horiginal fd_afterSocket
  · rintro ⟨hnumber, -⟩
    have horiginal := (hnumber replyFive 6 1024 hsix hsize).mp hselect'
    rw [selectCall, callsOriginal_select] at horiginal
    exact horiginal fd_afterSocket

end SocketToRdma
