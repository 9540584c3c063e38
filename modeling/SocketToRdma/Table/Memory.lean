import SocketToRdma.Table.Live

/-!
# The memory of the tables

The nodes of a table are allocated one by one by its insertions and freed one by one by its
deletions. After every sequence of operations every bucket heads a chain, and the nodes that are
allocated are those in the chains of the buckets, each in one place: no operation loses a node, and
none leaves a pointer to a node that it freed. This is so for allocators that fail at times, too.

`freeHashTable` frees the first node of each bucket only, and so loses the nodes behind it when keys
share a bucket; the older version of `hash_delee.cpp` walks the chains and loses none.
-/

namespace SocketToRdma

open LinkedList

variable {w : ℕ}

namespace ChainTable

/-- The address is that of a node in the chain of the bucket `i`. -/
def NodeOf (t : ChainTable w) (i a : ℕ) : Prop :=
  ∃ l, Chain t.heap (t.table i) l ∧ a ∈ l.map Prod.fst

/-- The table represents some live nodes, and every node that is allocated is in a chain. -/
structure Owns (t : ChainTable w) : Prop where
  sound : ∃ live, t.Represents live
  owned : ∀ a, t.heap.Has a → ∃ i, t.NodeOf i a

/-- A node in a chain is allocated. -/
theorem NodeOf.has {t : ChainTable w} {i a : ℕ} (h : t.NodeOf i a) :
  t.heap.Has a
  := by
  obtain ⟨l, hl, ha⟩ := h
  obtain ⟨c, hc, rfl⟩ := List.mem_map.mp ha
  apply hl.has hc

theorem nodeOf_iff {t : ChainTable w} {i a : ℕ} {l : List (ℕ × Node w)}
    (hl : Chain t.heap (t.table i) l) :
  t.NodeOf i a ↔ a ∈ l.map Prod.fst
  := by
  constructor
  · rintro ⟨l', hl', ha⟩
    rw [hl.unique hl']
    apply ha
  · intro ha
    exact ⟨l, hl, ha⟩

namespace Represents

variable {t t' : ChainTable w} {live : List (Node w)} {i j a : ℕ}

/-- A node is in the chain of one bucket only. -/
theorem nodeOf_unique (h : t.Represents live) (hi : t.NodeOf i a) (hj : t.NodeOf j a) :
  i = j
  := by
  by_contra hij
  obtain ⟨l, hl, hlive⟩ := h.chain i
  obtain ⟨l', hl', hlive'⟩ := h.chain j
  obtain ⟨c, hc, rfl⟩ := List.mem_map.mp ((nodeOf_iff hl).mp hi)
  obtain ⟨d, hd, hdc⟩ := List.mem_map.mp ((nodeOf_iff hl').mp hj)
  apply h.disjoint hij hl hlive hl' hlive' c hc d hd hdc

/-- What touches the nodes of one bucket only leaves those of the others where they are. -/
theorem nodeOf_frame (h : t.Represents live) {l : List (ℕ × Node w)}
    (hl : Chain t.heap (t.table i) l)
    (hcells : ∀ b, t.heap.Has b → (∀ c ∈ l, c.1 ≠ b) → t'.heap.cells b = t.heap.cells b)
    (htable : ∀ k ≠ i, t'.table k = t.table k) (hji : j ≠ i) (ha : t.NodeOf j a) :
  t'.NodeOf j a
  := by
  obtain ⟨l', hl', ha⟩ := ha
  use l'
  constructor
  · rw [htable j hji]
    apply hl'.frame
    intro d hd
    apply hcells d.1 (hl'.has hd)
    intro c hc hcd
    apply hji
    apply h.nodeOf_unique (a := d.1)
    · exact ⟨l', hl', List.mem_map_of_mem hd⟩
    · exact ⟨l, hl, List.mem_map.mpr ⟨c, hc, hcd⟩⟩
  · apply ha

/-- A bucket with a node is one of the table. -/
theorem lt_of_nodeOf (h : t.Represents live) (ha : t.NodeOf i a) :
  i < htSz
  := by
  obtain ⟨l, hl, hlive⟩ := h.chain i
  obtain ⟨c, hc, -⟩ := List.mem_map.mp ((nodeOf_iff hl).mp ha)
  rw [← h.hash_of_mem hlive hc]
  apply hashFunction_lt

end Represents

/-- A new table has no node. -/
theorem Owns.create :
  (createHashTable w).Owns
  := by
  constructor
  · exact ⟨[], Represents.create⟩
  · intro a ha
    exact absurd ha (Heap.not_has_empty a)

variable {t : ChainTable w}

/-- An insertion allocates the new node, or nothing. -/
theorem Owns.insertByValue (h : t.Owns) (malloc : Malloc w) (key : BitVec 32) (value : BitVec w) :
  (t.insertByValue malloc key value).1.Owns
  := by
  obtain ⟨live, hlive⟩ := h.sound
  cases hpick : malloc.pick t.heap with
  | none =>
      have hsame : (t.insertByValue malloc key value).1 = t := by
        simp only [ChainTable.insertByValue, hpick]
      rw [hsame]
      apply h
  | some b =>
      have hb := malloc.free_of_pick _ _ hpick
      obtain ⟨l, hl, -⟩ := hlive.chain (hashFunction key)
      have hrep := hlive.insertByValue malloc key value (by rw [hpick]; simp)
      simp only [ChainTable.insertByValue, hpick] at hrep ⊢
      have hnew := hl.pushBack hb ⟨key, value, hashFunction key⟩
      constructor
      · exact ⟨_, hrep⟩
      · intro a ha
        have hbucket : ∀ a, a ∈ l.map Prod.fst ∨ a = b →
            (t.setBucket (hashFunction key) (pushBack t.heap (t.table (hashFunction key)) b
              ⟨key, value, hashFunction key⟩)).NodeOf (hashFunction key) a := by
          intro a ha
          refine ⟨l ++ [(b, ⟨key, value, hashFunction key⟩)], ?_, ?_⟩
          · simp only [setBucket, Function.update_self]
            apply hnew
          · simpa using ha
        obtain rfl | ha := (has_pushBack _ _ _ _).mp ha
        · use hashFunction key
          apply hbucket
          exact Or.inr rfl
        · obtain ⟨j, hj⟩ := h.owned a ha
          use j
          by_cases hji : j = hashFunction key
          · subst hji
            apply hbucket
            exact Or.inl ((nodeOf_iff hl).mp hj)
          · apply hlive.nodeOf_frame hl _ _ hji hj
            · intro d hd hne
              apply hl.pushBack_cells hb _ _ hne
              intro hdb
              obtain ⟨c, hc⟩ := hd
              rw [hdb, hb] at hc
              cases hc
            · intro k hk
              apply Function.update_of_ne hk

/-- Taking a node out of a bucket frees it and no other. -/
theorem Owns.setBucket_removeFirst (h : t.Owns) {i : ℕ} {f : Node w → Bool}
    {r : Heap (Node w) × Option ℕ} (hr : removeFirst t.heap f (t.table i) = some r)
    (hsound : ∃ live, (t.setBucket i r).Represents live) :
  (t.setBucket i r).Owns
  := by
  obtain ⟨live, hlive⟩ := h.sound
  obtain ⟨l, hl, -⟩ := hlive.chain i
  obtain ⟨l₁, c, l₂, rfl, hchain, hcells, hhas⟩ := hl.removeFirst_has hr
  constructor
  · apply hsound
  · intro a ha
    obtain ⟨hac, ha⟩ := (hhas a).mp ha
    obtain ⟨j, hj⟩ := h.owned a ha
    use j
    by_cases hji : j = i
    · subst hji
      refine ⟨l₁ ++ l₂, ?_, ?_⟩
      · simp only [setBucket, Function.update_self]
        apply hchain
      · have hmem := (nodeOf_iff hl).mp hj
        simp only [List.map_append, List.map_cons, List.mem_append, List.mem_cons, hac,
          false_or] at hmem ⊢
        apply hmem
    · apply hlive.nodeOf_frame hl _ _ hji hj
      · intro b _ hne
        apply hcells b hne
      · intro k hk
        apply Function.update_of_ne hk

theorem Owns.deleteByKey (h : t.Owns) (key : BitVec 32) :
  (t.deleteByKey key).Owns
  := by
  obtain ⟨live, hlive⟩ := h.sound
  have hsound := hlive.deleteByKey key
  simp only [ChainTable.deleteByKey] at hsound ⊢
  split
  · rename_i r hr
    rw [hr] at hsound
    apply h.setBucket_removeFirst hr ⟨_, hsound⟩
  · apply h

theorem Owns.deleteByValueFrom (h : t.Owns) (value : BitVec w) (i n : ℕ) :
  (t.deleteByValueFrom value i n).Owns
  := by
  obtain ⟨live, hlive⟩ := h.sound
  induction n generalizing i with
  | zero => apply h
  | succ n ih =>
      have hsound := hlive.deleteByValueFrom value i (n + 1)
      simp only [ChainTable.deleteByValueFrom] at hsound ⊢
      split
      · rename_i r hr
        rw [hr] at hsound
        apply h.setBucket_removeFirst hr ⟨_, hsound⟩
      · apply ih

/-- Every operation keeps the nodes that are allocated in the chains. -/
theorem Owns.apply (h : t.Owns) (op : TableOp w) :
  (op.apply t).Owns
  := by
  cases op with
  | insertByValue malloc key value => apply h.insertByValue
  | deleteByKey key => apply h.deleteByKey
  | deleteByValue value => apply h.deleteByValueFrom

theorem Owns.foldl (h : t.Owns) (ops : List (TableOp w)) :
  (ops.foldl TableOp.apply t).Owns
  := by
  induction ops generalizing t with
  | nil => apply h
  | cons op ops ih => apply ih (h.apply op)

/-! ### Freeing a table -/

/-- The loop of `freeHashTable` from the bucket `i` on, with `n` buckets left; `h` are the nodes that
are still allocated. -/
def freeHashTableFrom (t : ChainTable w) (h : Heap (Node w)) (i : ℕ) : ℕ → Heap (Node w)
  | 0 => h
  | n + 1 =>
      match t.table i with
      | some a => t.freeHashTableFrom (h.free a) (i + 1) n
      | none => t.freeHashTableFrom h (i + 1) n

/-- `freeHashTable`: the nodes that are still allocated when the table is gone. -/
def freeHashTable (t : ChainTable w) : Heap (Node w) :=
  t.freeHashTableFrom t.heap 0 t.size

/-- The loop of the older `freeHashTable`. -/
def cppFreeHashTableFrom (t : ChainTable w) (h : Heap (Node w)) (i : ℕ) : ℕ → Heap (Node w)
  | 0 => h
  | n + 1 => t.cppFreeHashTableFrom (freeAll h h.bound (t.table i)) (i + 1) n

/-- The older `freeHashTable`. -/
def cppFreeHashTable (t : ChainTable w) : Heap (Node w) :=
  t.cppFreeHashTableFrom t.heap 0 t.size

/-- The loop frees what the buckets point to. -/
theorem has_freeHashTableFrom (t : ChainTable w) (h : Heap (Node w)) (i n : ℕ) {a : ℕ} :
  (t.freeHashTableFrom h i n).Has a ↔ h.Has a ∧ ∀ j, i ≤ j → j < i + n → t.table j ≠ some a
  := by
  induction n generalizing h i with
  | zero =>
      rw [freeHashTableFrom]
      constructor
      · intro ha
        exact ⟨ha, fun j hij hj => absurd hj (not_lt.mpr hij)⟩
      · exact And.left
  | succ n ih =>
      have hsplit : (∀ j, i ≤ j → j < i + (n + 1) → t.table j ≠ some a) ↔
          t.table i ≠ some a ∧ ∀ j, i + 1 ≤ j → j < i + 1 + n → t.table j ≠ some a := by
        constructor
        · intro hall
          exact ⟨hall i (le_refl i) (by omega), fun j hij hj => hall j (by omega) (by omega)⟩
        · rintro ⟨hi, hall⟩ j hij hj
          obtain rfl | hlt := Nat.eq_or_lt_of_le hij
          · apply hi
          · apply hall j hlt (by omega)
      rw [freeHashTableFrom, hsplit]
      cases hi : t.table i with
      | none =>
          rw [ih]
          simp
      | some b =>
          rw [ih, Heap.has_free, and_right_comm, and_comm (a := h.Has a), and_assoc]
          simp only [ne_eq, Option.some.injEq, eq_comm (a := b)]
          tauto

variable {live : List (Node w)}

/-- The loop that walks the chains frees the nodes of the buckets. -/
theorem cells_cppFreeHashTableFrom (hlive : t.Represents live) {h : Heap (Node w)} {i : ℕ} (n : ℕ)
    (hrest : ∀ j a, i ≤ j → t.NodeOf j a → h.cells a = t.heap.cells a)
    (hdone : ∀ a, h.Has a → t.heap.Has a ∧ ∀ j < i, ¬ t.NodeOf j a) (a : ℕ) :
  (t.cppFreeHashTableFrom h i n).Has a → t.heap.Has a ∧ ∀ j < i + n, ¬ t.NodeOf j a
  := by
  induction n generalizing h i with
  | zero => apply hdone
  | succ n ih =>
      obtain ⟨l, hl, -⟩ := hlive.chain i
      have hchain : Chain h (t.table i) l := by
        apply hl.frame
        intro c hc
        apply hrest i c.1 (le_refl i) ⟨l, hl, List.mem_map_of_mem hc⟩
      have hcells := hchain.freeAll hchain.length_le
      rw [cppFreeHashTableFrom, show i + (n + 1) = i + 1 + n by omega]
      apply ih
      · intro j b hij hb
        rw [hcells b, if_neg, hrest j b (by omega) hb]
        intro hmem
        have hji := hlive.nodeOf_unique hb ((nodeOf_iff hl).mpr hmem)
        omega
      · rintro b ⟨c, hc⟩
        rw [hcells b] at hc
        split at hc
        · cases hc
        · rename_i hmem
          obtain ⟨hhas, hnot⟩ := hdone b ⟨c, hc⟩
          refine ⟨hhas, ?_⟩
          intro j hj hnode
          obtain hlt | rfl := Nat.lt_succ_iff_lt_or_eq.mp hj
          · apply hnot j hlt hnode
          · apply hmem ((nodeOf_iff hl).mp hnode)

end ChainTable

/-- `freeHashTable` on a `HashTable` -/
def freeHashTable (hashTable : HashTable) : Heap (Node 64) :=
  hashTable.freeHashTable

/-- `socket_freeHashTable` -/
def socketFreeHashTable (hashTable : SocketHashTable) : Heap (Node 64) :=
  hashTable.freeHashTable

/-- `fd_freeHashTable` -/
def fdFreeHashTable (hashTable : FDHashTable) : Heap (Node 32) :=
  hashTable.freeHashTable

/-! ### The nodes after some operations -/

/-- After every sequence of operations, with any allocators, every bucket heads a chain of nodes
that ends, and an address is allocated exactly when it is that of a node in the chain of some
bucket, and then of one bucket. -/
theorem allocated_iff_in_one_bucket (ops : List (TableOp w)) :
  let t := ops.foldl TableOp.apply (ChainTable.createHashTable w)
  (∀ i, ∃ l, Chain t.heap (t.table i) l) ∧ ∀ a, t.heap.Has a ↔ ∃! i, t.NodeOf i a
  := by
  intro t
  have howns : t.Owns := ChainTable.Owns.create.foldl ops
  obtain ⟨live, hlive⟩ := howns.sound
  constructor
  · intro i
    obtain ⟨l, hl, -⟩ := hlive.chain i
    exact ⟨l, hl⟩
  · intro a
    constructor
    · intro ha
      obtain ⟨i, hi⟩ := howns.owned a ha
      exact ⟨i, hi, fun j hj => hlive.nodeOf_unique hj hi⟩
    · rintro ⟨i, hi, -⟩
      apply hi.has

namespace ChainTable

variable {t : ChainTable w}

/-- `freeHashTable` leaves the nodes that are not the first of their bucket. -/
theorem Owns.has_freeHashTable_iff (h : t.Owns) (a : ℕ) :
  t.freeHashTable.Has a ↔ ∃ i, t.NodeOf i a ∧ t.table i ≠ some a
  := by
  obtain ⟨live, hlive⟩ := h.sound
  rw [freeHashTable, has_freeHashTableFrom, hlive.size_eq]
  constructor
  · rintro ⟨ha, hnot⟩
    obtain ⟨i, hi⟩ := h.owned a ha
    have hlt := hlive.lt_of_nodeOf hi
    exact ⟨i, hi, hnot i (Nat.zero_le i) (by omega)⟩
  · rintro ⟨i, hi, hnot⟩
    refine ⟨hi.has, ?_⟩
    intro j _ _ hj
    obtain ⟨l, hl, -⟩ := hlive.chain j
    have hnode : t.NodeOf j a := by
      apply (nodeOf_iff hl).mpr
      rw [hj] at hl
      cases l with
      | nil => cases hl
      | cons c l =>
          obtain rfl := Option.some.inj hl.1
          simp
    rw [hlive.nodeOf_unique hi hnode] at hnot
    apply hnot hj

/-- A bucket has a node that is not its first one exactly when it has two. -/
theorem one_lt_length_bucket_iff {i : ℕ} {l : List (ℕ × Node w)}
    (hl : Chain t.heap (t.table i) l) :
  1 < (t.bucket i).length ↔ ∃ a, t.NodeOf i a ∧ t.table i ≠ some a
  := by
  rw [bucket, hl.toList, List.length_map]
  simp only [nodeOf_iff hl]
  cases l with
  | nil => simp
  | cons c l =>
      rw [hl.1]
      cases l with
      | nil => simp
      | cons d l =>
          have hnodup := hl.nodup
          simp only [List.map_cons, List.nodup_cons, List.mem_cons, not_or] at hnodup
          simp only [List.length_cons]
          apply iff_of_true (by omega)
          refine ⟨d.1, by simp, ?_⟩
          intro hcd
          apply hnodup.1.1 (Option.some.inj hcd)

/-- The older version leaves no node. -/
theorem Owns.not_has_cppFreeHashTable (h : t.Owns) (a : ℕ) :
  ¬ t.cppFreeHashTable.Has a
  := by
  intro ha
  obtain ⟨live, hlive⟩ := h.sound
  have hcells := cells_cppFreeHashTableFrom hlive (i := 0) t.size
    (fun _ _ _ _ => rfl) (fun a ha => ⟨ha, fun j hj => absurd hj (Nat.not_lt_zero j)⟩) a ha
  obtain ⟨i, hi⟩ := h.owned a hcells.1
  apply hcells.2 i _ hi
  rw [hlive.size_eq, Nat.zero_add]
  apply hlive.lt_of_nodeOf hi

end ChainTable

/-- `freeHashTable` leaves the nodes that are not the first of their bucket, and so none exactly when
no bucket has two; the older version leaves none. -/
theorem freeHashTable_leaves (ops : List (TableOp w)) :
  let t := ops.foldl TableOp.apply (ChainTable.createHashTable w)
  (∀ a, t.freeHashTable.Has a ↔ ∃ i, t.NodeOf i a ∧ t.table i ≠ some a) ∧
    ((∀ a, ¬ t.freeHashTable.Has a) ↔ ∀ i, (t.bucket i).length ≤ 1) ∧
    ∀ a, ¬ t.cppFreeHashTable.Has a
  := by
  intro t
  have howns : t.Owns := ChainTable.Owns.create.foldl ops
  obtain ⟨live, hlive⟩ := howns.sound
  refine ⟨howns.has_freeHashTable_iff, ?_, howns.not_has_cppFreeHashTable⟩
  constructor
  · intro hnone i
    obtain ⟨l, hl, -⟩ := hlive.chain i
    by_contra hlt
    obtain ⟨a, ha⟩ := (ChainTable.one_lt_length_bucket_iff hl).mp (not_le.mp hlt)
    apply hnone a
    apply (howns.has_freeHashTable_iff a).mpr ⟨i, ha⟩
  · intro hle a ha
    obtain ⟨i, hi⟩ := (howns.has_freeHashTable_iff a).mp ha
    obtain ⟨l, hl, -⟩ := hlive.chain i
    have hlt := (ChainTable.one_lt_length_bucket_iff hl).mpr ⟨a, hi⟩
    exact absurd (hle i) hlt.not_ge

end SocketToRdma
