import SocketToRdma.Table.Live

/-!
# What the lookups find

A table is meant to be a map from keys to values: a lookup by key should give the value of
the oldest live node with the key, and a lookup by value the key of a live node with the
value. The searches look at the first node of a bucket only, so they do so exactly when the
node looked for is not behind another one in its bucket. The searches of the C++ version of
the table walk the chains and find every live node.
-/

namespace SocketToRdma

variable {w : ℕ}

/-! ### The intended lookups -/

namespace Live

/-- What a lookup by key should return: the value of the oldest live node with the key, which
is not null, and null if no live node has the key. -/
def IsLookupByKey (live : List (Node w)) (key : BitVec 32) (value : BitVec w) : Prop :=
  match live.find? (fun node => node.key == key) with
  | some node => value = node.value ∧ value ≠ 0
  | none => value = 0

/-- What a lookup by value should return: the key of a live node with the value, which is
not `-1`, and `-1` if no live node has the value. -/
def IsLookupByValue (live : List (Node w)) (value : BitVec w) (key : BitVec 32) : Prop :=
  (∃ node ∈ live, node.value = value ∧ node.key = key ∧ key ≠ -1) ∨
    (key = -1 ∧ ∀ node ∈ live, node.value ≠ value)

/-- The oldest live node of each bucket that has one, in the order of the buckets. -/
def heads (live : List (Node w)) : List (Node w) :=
  (List.range htSz).filterMap (fun i => (bucket live i).head?)

/-- If there is a live node with the key, then the oldest live node of its bucket has the
key, and its value is not null. -/
def KeyExposed (live : List (Node w)) (key : BitVec 32) : Prop :=
  (∃ node ∈ live, node.key = key) →
    ∃ first, (bucket live (hashFunction key)).head? = some first ∧ first.key = key ∧
      first.value ≠ 0

/-- If there is a live node with the value, then in some bucket the oldest live node has the
value, and in the first such bucket the key of that node is not `-1`. -/
def ValueExposed (live : List (Node w)) (value : BitVec w) : Prop :=
  (∃ node ∈ live, node.value = value) →
    ∃ first, (heads live).find? (fun node => node.value == value) = some first ∧ first.key ≠ -1

theorem mem_of_mem_bucket {live : List (Node w)} {i : ℕ} {node : Node w}
    (hnode : node ∈ bucket live i) :
  node ∈ live
  := (List.mem_filter.mp hnode).1

/-- The oldest node of a bucket is live. -/
theorem mem_of_mem_heads {live : List (Node w)} {node : Node w} (hnode : node ∈ heads live) :
  node ∈ live
  := by
  obtain ⟨i, -, hi⟩ := List.mem_filterMap.mp hnode
  apply mem_of_mem_bucket (List.mem_of_head? hi)

/-- The oldest live node with a key is the oldest one in the bucket of the key. -/
theorem find?_key (live : List (Node w)) (key : BitVec 32) :
  (bucket live (hashFunction key)).find? (fun node => node.key == key)
    = live.find? (fun node => node.key == key)
  := by
  apply find?_bucket
  intro node hnode
  rw [beq_iff_eq.mp hnode]

end Live

/-! ### The searches -/

namespace ChainTable.Represents

variable {t : ChainTable w} {live : List (Node w)}

/-- A search by key looks at the oldest live node of the bucket. -/
theorem searchByKey_eq (h : t.Represents live) (key : BitVec 32) :
  t.searchByKey key =
    match (Live.bucket live (hashFunction key)).head? with
    | some node => if node.key = key then node.value else 0
    | none => 0
  := by
  rw [← h.head_eq]
  rfl

/-- A search by key finds the oldest live node with the key exactly when it is exposed. -/
theorem searchByKey_iff (h : t.Represents live) (key : BitVec 32) :
  Live.IsLookupByKey live key (t.searchByKey key) ↔ Live.KeyExposed live key
  := by
  have hfind := Live.find?_key live key
  rw [h.searchByKey_eq, Live.KeyExposed, Live.IsLookupByKey, ← hfind]
  cases hbucket : Live.bucket live (hashFunction key) with
  | nil =>
      rw [hbucket, List.find?_nil] at hfind
      have hnone : ¬ ∃ node ∈ live, node.key = key := by
        simpa using List.find?_eq_none.mp hfind.symm
      simp [hnone]
  | cons first rest =>
      have hfirst : first ∈ live := by
        apply Live.mem_of_mem_bucket (i := hashFunction key)
        simp [hbucket]
      by_cases hkey : first.key = key
      · have hex : ∃ node ∈ live, node.key = key := ⟨first, hfirst, hkey⟩
        simp [hkey, hex]
      · cases hrest : rest.find? (fun node => node.key == key) with
        | none =>
            rw [hbucket, List.find?_cons_of_neg (by simpa using hkey), hrest] at hfind
            have hnone : ¬ ∃ node ∈ live, node.key = key := by
              simpa using List.find?_eq_none.mp hfind.symm
            simp [hkey, hrest, hnone]
        | some node =>
            rw [hbucket, List.find?_cons_of_neg (by simpa using hkey), hrest] at hfind
            have hex : ∃ node ∈ live, node.key = key :=
              ⟨node, List.mem_of_find?_eq_some hfind.symm,
                by simpa using List.find?_some hfind.symm⟩
            simp [hkey, hrest, hex]

/-- The loop of a search by value looks at the oldest live nodes of the buckets left. -/
theorem searchByValueFrom_eq (h : t.Represents live) (value : BitVec w) (i n : ℕ) :
  t.searchByValueFrom value i n =
    match ((List.range' i n).filterMap (fun i => (Live.bucket live i).head?)).find?
        (fun node => node.value == value) with
    | some node => node.key
    | none => -1
  := by
  induction n generalizing i with
  | zero => rfl
  | succ n ih =>
      rw [List.range'_succ, List.filterMap_cons, ChainTable.searchByValueFrom, h.head_eq]
      cases hhead : (Live.bucket live i).head? with
      | none => apply ih
      | some node =>
          simp only [List.find?_cons]
          by_cases hvalue : node.value = value
          · simp [hvalue]
          · rw [if_neg hvalue, beq_eq_false_iff_ne.mpr hvalue]
            apply ih

/-- A search by value looks at the oldest live node of each bucket. -/
theorem searchByValue_eq (h : t.Represents live) (value : BitVec w) :
  t.searchByValue value =
    match (Live.heads live).find? (fun node => node.value == value) with
    | some node => node.key
    | none => -1
  := by
  rw [ChainTable.searchByValue, h.size_eq, h.searchByValueFrom_eq, Live.heads,
    List.range_eq_range']

/-- A search by value finds a live node with the value exactly when one is exposed. -/
theorem searchByValue_iff (h : t.Represents live) (value : BitVec w) :
  Live.IsLookupByValue live value (t.searchByValue value) ↔ Live.ValueExposed live value
  := by
  rw [h.searchByValue_eq, Live.ValueExposed, Live.IsLookupByValue]
  cases hfind : (Live.heads live).find? (fun node => node.value == value) with
  | none =>
      simp only [ne_eq, not_true_eq_false, and_false, exists_false, false_or, true_and,
        reduceCtorEq, false_and, imp_false, not_exists, not_and]
  | some first =>
      have hfirst := Live.mem_of_mem_heads (List.mem_of_find?_eq_some hfind)
      have hvalue : first.value = value := by
        simpa using List.find?_some hfind
      constructor
      · rintro (⟨-, -, -, -, hkey⟩ | ⟨-, hnone⟩)
        · intro _
          exact ⟨first, rfl, hkey⟩
        · cases hnone first hfirst hvalue
      · intro hexposed
        left
        obtain ⟨_, ⟨⟩, hkey⟩ := hexposed ⟨first, hfirst, hvalue⟩
        exact ⟨first, hfirst, hvalue, rfl, hkey⟩

end ChainTable.Represents

/-! ### The searches of the C++ version -/

namespace ChainTable

/-- `HashTable::searchByKey`: the value of the first node of the bucket with the key, else
`nullptr`. -/
def cppSearchByKey (t : ChainTable w) (key : BitVec 32) : BitVec w :=
  match (t.bucket (hashFunction key)).find? (fun node => node.key == key) with
  | some node => node.value
  | none => 0

/-- `HashTable::searchByValue`: the key of the first node with the value in the first bucket
that has one, else `-1`. -/
def cppSearchByValue (t : ChainTable w) (value : BitVec w) : BitVec 32 :=
  match ((List.range t.size).flatMap t.bucket).find? (fun node => node.value == value) with
  | some node => node.key
  | none => -1

namespace Represents

variable {t : ChainTable w} {live : List (Node w)}

/-- Walking the chain finds the oldest live node with the key wherever it is. -/
theorem cppSearchByKey (h : t.Represents live) (hvalue : ∀ node ∈ live, node.value ≠ 0)
    (key : BitVec 32) :
  Live.IsLookupByKey live key (t.cppSearchByKey key)
  := by
  rw [ChainTable.cppSearchByKey, h.bucket_eq, Live.find?_key, Live.IsLookupByKey]
  cases hfind : live.find? (fun node => node.key == key) with
  | none => rfl
  | some node => exact ⟨rfl, hvalue node (List.mem_of_find?_eq_some hfind)⟩

/-- A live node is in one of the buckets. -/
theorem mem_flatMap_bucket (h : t.Represents live) (node : Node w) :
  node ∈ (List.range t.size).flatMap t.bucket ↔ node ∈ live
  := by
  simp only [List.mem_flatMap, List.mem_range, h.size_eq, h.bucket_eq]
  constructor
  · rintro ⟨i, -, hnode⟩
    apply Live.mem_of_mem_bucket hnode
  · intro hnode
    use hashFunction node.key, hashFunction_lt node.key
    apply List.mem_filter.mpr
    simp [hnode]

/-- Walking the chains finds a live node with the value wherever it is. -/
theorem cppSearchByValue (h : t.Represents live) (hkey : ∀ node ∈ live, node.key ≠ -1)
    (value : BitVec w) :
  Live.IsLookupByValue live value (t.cppSearchByValue value)
  := by
  rw [ChainTable.cppSearchByValue]
  cases hfind : ((List.range t.size).flatMap t.bucket).find? (fun node => node.value == value) with
  | none =>
      right
      refine ⟨rfl, fun node hnode => ?_⟩
      simpa using List.find?_eq_none.mp hfind node ((h.mem_flatMap_bucket node).mpr hnode)
  | some node =>
      left
      have hnode := (h.mem_flatMap_bucket node).mp (List.mem_of_find?_eq_some hfind)
      exact ⟨node, hnode, by simpa using List.find?_some hfind, rfl, hkey node hnode⟩

end Represents

end ChainTable

/-! ### After a sequence of operations -/

/-- The table after the operations, from a freshly created one. -/
def tableAfter (ops : List (TableOp w)) : ChainTable w :=
  ops.foldl TableOp.apply (ChainTable.createHashTable w)

/-- The live nodes after the operations. -/
def liveAfter (ops : List (TableOp w)) : List (Node w) :=
  ops.foldl Live.apply []

theorem represents_tableAfter {ops : List (TableOp w)} (hops : ∀ op ∈ ops, op.Succeeds) :
  (tableAfter ops).Represents (liveAfter ops)
  := ChainTable.Represents.create.foldl hops

/-- After any operations, a search by key returns what it should exactly for the keys that
are exposed, and a search by value exactly for the values that are. -/
theorem lookups_iff_exposed (ops : List (TableOp w)) (hops : ∀ op ∈ ops, op.Succeeds)
    (key : BitVec 32) (value : BitVec w) :
  (Live.IsLookupByKey (liveAfter ops) key ((tableAfter ops).searchByKey key) ↔
      Live.KeyExposed (liveAfter ops) key) ∧
    (Live.IsLookupByValue (liveAfter ops) value ((tableAfter ops).searchByValue value) ↔
      Live.ValueExposed (liveAfter ops) value)
  := by
  have h := represents_tableAfter hops
  constructor
  · apply h.searchByKey_iff
  · apply h.searchByValue_iff

/-- Two insertions whose keys share a bucket. -/
def collidingOps : List (TableOp 32) :=
  [.insertByValue (.bump 32) 19#32 1, .insertByValue (.bump 32) 45#32 2]

theorem collidingOps_succeeds :
  ∀ op ∈ collidingOps, op.Succeeds
  := by
  simp [collidingOps, TableOp.Succeeds, Malloc.bump]

/-- Both nodes are in one bucket, the one with the key `19` first. -/
theorem bucket_collidingOps :
  Live.bucket (liveAfter collidingOps) (hashFunction 45#32)
    = [⟨19#32, 1, hashFunction 19#32⟩, ⟨45#32, 2, hashFunction 45#32⟩]
  := by
  simp [liveAfter, collidingOps, Live.apply, Live.bucket, hashFunction_collide]

/-- The first of two nodes in one bucket is found by its key. -/
theorem lookups_iff_exposed_colliding :
  Live.IsLookupByKey (liveAfter collidingOps) 19#32 ((tableAfter collidingOps).searchByKey 19#32)
  := by
  apply (lookups_iff_exposed collidingOps collidingOps_succeeds 19#32 1).1.mpr
  intro _
  use ⟨19#32, 1, hashFunction 19#32⟩
  rw [hashFunction_collide, bucket_collidingOps, hashFunction_collide]
  simp

/-- The second of two nodes in one bucket is not found by its key. -/
theorem lookup_colliding_fails :
  ¬ Live.IsLookupByKey (liveAfter collidingOps) 45#32
      (fdSearchByKey (tableAfter collidingOps) 45#32)
  := by
  have h := represents_tableAfter collidingOps_succeeds
  rw [fdSearchByKey, h.searchByKey_iff, Live.KeyExposed, bucket_collidingOps]
  simp [liveAfter, collidingOps, Live.apply]

end SocketToRdma
