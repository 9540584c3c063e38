import Mathlib.Algebra.BigOperators.Group.Finset.Piecewise
import SocketToRdma.Table.ChainTable

/-!
# The tables as lists of live nodes

What a table is for is to hold a list of live nodes, oldest first: an insertion adds a node
at the end, a deletion by key removes the oldest node with the key, and a deletion by value
removes the oldest node with the value in the first bucket that has one. A table represents
such a list when the chain of each bucket holds, in order, the live nodes whose key hashes
to the bucket. Every operation of `ChainTable` preserves this, so a table represents the
list of its live nodes after every sequence of operations.
-/

namespace SocketToRdma

open LinkedList

variable {w : ℕ}

/-! ### Operations on the live nodes -/

/-- A table operation that changes the table; an insertion carries its allocator. -/
inductive TableOp (w : ℕ) where
  | insertByValue (malloc : Malloc w) (key : BitVec 32) (value : BitVec w)
  | deleteByKey (key : BitVec 32)
  | deleteByValue (value : BitVec w)

/-- The table after an operation. -/
def TableOp.apply (t : ChainTable w) : TableOp w → ChainTable w
  | .insertByValue malloc key value => (t.insertByValue malloc key value).1
  | .deleteByKey key => t.deleteByKey key
  | .deleteByValue value => t.deleteByValue value

/-- The allocation the operation makes, if any, succeeds on every heap. -/
def TableOp.Succeeds : TableOp w → Prop
  | .insertByValue malloc _ _ => ∀ h, malloc.pick h ≠ none
  | .deleteByKey _ => True
  | .deleteByValue _ => True

namespace Live

/-- The nodes of the bucket `i` among the live nodes. -/
def bucket (live : List (Node w)) (i : ℕ) : List (Node w) :=
  live.filter (fun node => hashFunction node.key == i)

/-- The first of the buckets `is` with a node that has the value. -/
def firstBucket (live : List (Node w)) (value : BitVec w) (is : List ℕ) : Option ℕ :=
  is.find? (fun i => (bucket live i).any (fun node => node.value == value))

/-- The live nodes after the oldest node with the key is removed. -/
def deleteByKey (live : List (Node w)) (key : BitVec 32) : List (Node w) :=
  live.eraseP (fun node => node.key == key)

/-- The live nodes after the oldest node with the value in the bucket `i` is removed. -/
def deleteIn (live : List (Node w)) (i : ℕ) (value : BitVec w) : List (Node w) :=
  live.eraseP (fun node => hashFunction node.key == i && node.value == value)

/-- The live nodes after the oldest node with the value is removed from the first of the
buckets `is` that has one. -/
def deleteByValue (live : List (Node w)) (value : BitVec w) (is : List ℕ) : List (Node w) :=
  match firstBucket live value is with
  | some i => deleteIn live i value
  | none => live

/-- The live nodes after an operation. -/
def apply (live : List (Node w)) : TableOp w → List (Node w)
  | .insertByValue _ key value => live ++ [⟨key, value, hashFunction key⟩]
  | .deleteByKey key => deleteByKey live key
  | .deleteByValue value => deleteByValue live value (List.range htSz)

/-- A deletion by value adds no node. -/
theorem mem_of_mem_deleteByValue {live : List (Node w)} {value : BitVec w} {is : List ℕ}
    {node : Node w} (hnode : node ∈ deleteByValue live value is) :
  node ∈ live
  := by
  unfold deleteByValue at hnode
  split at hnode
  · apply List.mem_of_mem_eraseP hnode
  · apply hnode

/-- A node that is live after an operation was live before it, or is the one inserted. -/
theorem mem_apply {live : List (Node w)} {op : TableOp w} {node : Node w}
    (hnode : node ∈ apply live op) :
  node ∈ live ∨ ∃ malloc, op = .insertByValue malloc node.key node.value
  := by
  cases op with
  | insertByValue malloc key value =>
      rcases List.mem_append.mp hnode with hnode | hnode
      · left
        apply hnode
      · right
        use malloc
        rw [List.mem_singleton.mp hnode]
  | deleteByKey key =>
      left
      apply List.mem_of_mem_eraseP hnode
  | deleteByValue value =>
      left
      simp only [apply] at hnode
      apply mem_of_mem_deleteByValue hnode

/-- A node that is live after some operations was live before them, or was inserted by one. -/
theorem mem_foldl_apply {ops : List (TableOp w)} {live : List (Node w)} {node : Node w}
    (hnode : node ∈ ops.foldl apply live) :
  node ∈ live ∨ ∃ malloc, .insertByValue malloc node.key node.value ∈ ops
  := by
  induction ops generalizing live with
  | nil =>
      left
      apply hnode
  | cons op ops ih =>
      rcases ih hnode with hnode | ⟨malloc, hop⟩
      · rcases mem_apply hnode with hnode | ⟨malloc, hop⟩
        · left
          apply hnode
        · right
          use malloc
          rw [hop]
          apply List.mem_cons_self
      · right
        use malloc
        apply List.mem_cons_of_mem _ hop

theorem bucket_cons_self {node : Node w} {i : ℕ} (hi : hashFunction node.key = i)
    (live : List (Node w)) :
  bucket (node :: live) i = node :: bucket live i
  := by
  apply List.filter_cons_of_pos
  simp [hi]

theorem bucket_cons_of_ne {node : Node w} {i : ℕ} (hi : hashFunction node.key ≠ i)
    (live : List (Node w)) :
  bucket (node :: live) i = bucket live i
  := by
  apply List.filter_cons_of_neg
  simp [hi]

/-- Removing a node of the bucket `i` from the live nodes removes it from the bucket. -/
theorem bucket_eraseP (live : List (Node w)) (f : Node w → Bool) (i : ℕ)
    (hf : ∀ node, f node = true → hashFunction node.key = i) :
  bucket (live.eraseP f) i = (bucket live i).eraseP f
  := by
  induction live with
  | nil => rfl
  | cons node live ih =>
      by_cases hnode : f node = true
      · rw [List.eraseP_cons_of_pos hnode, bucket_cons_self (hf node hnode),
          List.eraseP_cons_of_pos hnode]
      · by_cases hi : hashFunction node.key = i
        · rw [bucket_cons_self hi, List.eraseP_cons_of_neg hnode, List.eraseP_cons_of_neg hnode,
            bucket_cons_self hi, ih]
        · rw [bucket_cons_of_ne hi, List.eraseP_cons_of_neg hnode, bucket_cons_of_ne hi, ih]

/-- Removing a node of the bucket `i` leaves the other buckets as they were. -/
theorem bucket_eraseP_of_ne (live : List (Node w)) (f : Node w → Bool) {i j : ℕ} (hij : j ≠ i)
    (hf : ∀ node, f node = true → hashFunction node.key = i) :
  bucket (live.eraseP f) j = bucket live j
  := by
  induction live with
  | nil => rfl
  | cons node live ih =>
      by_cases hnode : f node = true
      · have hi : hashFunction node.key ≠ j := by
          rw [hf node hnode]
          apply hij.symm
        rw [List.eraseP_cons_of_pos hnode, bucket_cons_of_ne hi]
      · rw [List.eraseP_cons_of_neg hnode]
        by_cases hj : hashFunction node.key = j
        · rw [bucket_cons_self hj, bucket_cons_self hj, ih]
        · rw [bucket_cons_of_ne hj, bucket_cons_of_ne hj, ih]

/-- In the bucket of a key, the oldest node with the key is the oldest live one. -/
theorem find?_bucket (live : List (Node w)) (f : Node w → Bool) (i : ℕ)
    (hf : ∀ node, f node = true → hashFunction node.key = i) :
  (bucket live i).find? f = live.find? f
  := by
  induction live with
  | nil => rfl
  | cons node live ih =>
      by_cases hnode : f node = true
      · rw [bucket_cons_self (hf node hnode), List.find?_cons_of_pos hnode,
          List.find?_cons_of_pos hnode]
      · rw [List.find?_cons_of_neg hnode]
        by_cases hi : hashFunction node.key = i
        · rw [bucket_cons_self hi, List.find?_cons_of_neg hnode, ih]
        · rw [bucket_cons_of_ne hi, ih]

end Live

/-! ### Representation -/

/-- Two tests that agree on the members of a list erase the same member. -/
theorem eraseP_congr {α : Type*} {f g : α → Bool} {l : List α} (hfg : ∀ a ∈ l, f a = g a) :
  l.eraseP f = l.eraseP g
  := by
  induction l with
  | nil => rfl
  | cons a l ih =>
      rw [List.eraseP_cons, List.eraseP_cons, hfg a (List.mem_cons_self ..),
        ih (fun b hb => hfg b (List.mem_cons_of_mem _ hb))]

/-- The chain of each bucket holds, in order, the live nodes whose key hashes to the bucket;
a node carries the bucket of its key as its index. -/
structure ChainTable.Represents (t : ChainTable w) (live : List (Node w)) : Prop where
  size_eq : t.size = htSz
  index_eq : ∀ node ∈ live, node.index = hashFunction node.key
  chain : ∀ i, ∃ l, Chain t.heap (t.table i) l ∧ l.map Prod.snd = Live.bucket live i

namespace ChainTable.Represents

variable {t : ChainTable w} {live : List (Node w)}

/-- The nodes read from a bucket are the live nodes of the bucket. -/
theorem bucket_eq (h : t.Represents live) (i : ℕ) :
  t.bucket i = Live.bucket live i
  := by
  obtain ⟨l, hl, hlive⟩ := h.chain i
  rw [ChainTable.bucket, hl.toList, hlive]

/-- The first node of a bucket is its oldest live node. -/
theorem head_eq (h : t.Represents live) (i : ℕ) :
  t.head i = (Live.bucket live i).head?
  := by
  obtain ⟨l, hl, hlive⟩ := h.chain i
  rw [← hlive]
  cases l with
  | nil =>
      have hp : t.table i = none := hl
      simp [head, hp]
  | cons c l =>
      obtain ⟨hp, q, hc, -⟩ := hl
      simp [head, hp, hc]

/-- The key of a node of the chain of a bucket hashes to the bucket. -/
theorem hash_of_mem (_h : t.Represents live) {i : ℕ} {l : List (ℕ × Node w)}
    (hlive : l.map Prod.snd = Live.bucket live i) {c : ℕ × Node w} (hc : c ∈ l) :
  hashFunction c.2.key = i
  := by
  have hmem : c.2 ∈ Live.bucket live i := by
    rw [← hlive]
    apply List.mem_map_of_mem hc
  simpa using (List.mem_filter.mp hmem).2

/-- The chains of two buckets share no cell. -/
theorem disjoint (h : t.Represents live) {i j : ℕ} (hij : i ≠ j) {l l' : List (ℕ × Node w)}
    (hl : Chain t.heap (t.table i) l) (hlive : l.map Prod.snd = Live.bucket live i)
    (hl' : Chain t.heap (t.table j) l') (hlive' : l'.map Prod.snd = Live.bucket live j) :
  ∀ c ∈ l, ∀ d ∈ l', d.1 ≠ c.1
  := by
  rintro ⟨a, node⟩ hc ⟨b, node'⟩ hd rfl
  obtain ⟨q, hq⟩ := hl.cell hc
  obtain ⟨q', hq'⟩ := hl'.cell hd
  -- one cell has one key, and a key has one bucket
  obtain ⟨rfl, -⟩ := Cell.mk.inj (Option.some.inj (hq.symm.trans hq'))
  apply hij
  rw [← h.hash_of_mem hlive hc, h.hash_of_mem hlive' hd]

theorem create :
  (createHashTable w).Represents []
  := by
  refine ⟨rfl, by simp, fun i => ?_⟩
  use []
  exact ⟨chain_nil _, rfl⟩

/-- An insertion adds the new node at the end of the live nodes. -/
theorem insertByValue (h : t.Represents live) (malloc : Malloc w) (key : BitVec 32)
    (value : BitVec w) (hmalloc : malloc.pick t.heap ≠ none) :
  (t.insertByValue malloc key value).1.Represents
    (live ++ [⟨key, value, hashFunction key⟩])
  := by
  obtain ⟨a, ha⟩ := Option.ne_none_iff_exists'.mp hmalloc
  have hfree := malloc.free_of_pick _ _ ha
  simp only [ChainTable.insertByValue, ha]
  obtain ⟨l, hl, hlive⟩ := h.chain (hashFunction key)
  refine ⟨h.size_eq, ?_, fun i => ?_⟩
  · intro node hnode
    rcases List.mem_append.mp hnode with hnode | hnode
    · apply h.index_eq node hnode
    · rw [List.mem_singleton.mp hnode]
  · by_cases hi : i = hashFunction key
    · subst hi
      use l ++ [(a, ⟨key, value, hashFunction key⟩)]
      constructor
      · simp only [setBucket, Function.update_self]
        apply hl.pushBack hfree
      · simp [hlive, Live.bucket]
    · obtain ⟨l', hl', hlive'⟩ := h.chain i
      use l'
      constructor
      · simp only [setBucket, Function.update_of_ne hi]
        apply hl'.frame
        intro c hc
        apply hl.pushBack_cells hfree
        · rintro rfl
          obtain ⟨q, hq⟩ := hl'.cell hc
          rw [hfree] at hq
          cases hq
        · intro d hd
          apply h.disjoint hi hl' hlive' hl hlive c hc d hd
      · simp [hlive', Live.bucket, Ne.symm hi]

/-- Removing the first node of a bucket that satisfies a test removes the oldest live node
that satisfies it, when only nodes of that bucket do. -/
theorem setBucket_removeFirst (h : t.Represents live) {i : ℕ} {f g : Node w → Bool}
    (hg : ∀ node, g node = true → hashFunction node.key = i)
    (hfg : ∀ node, hashFunction node.key = i → f node = g node) :
  (∀ r, removeFirst t.heap f (t.table i) = some r → (t.setBucket i r).Represents (live.eraseP g))
    ∧ (removeFirst t.heap f (t.table i) = none ↔ (Live.bucket live i).any f = false)
  := by
  obtain ⟨l, hl, hlive⟩ := h.chain i
  have hfg' : ∀ c ∈ l, f c.2 = g c.2 := fun c hc => hfg _ (h.hash_of_mem hlive hc)
  have hany : (Live.bucket live i).any f = l.any (fun c => f c.2) := by
    rw [← hlive, List.any_map]
    rfl
  by_cases hf : ∃ c ∈ l, f c.2 = true
  · obtain ⟨c, hc, hcf⟩ := hf
    obtain ⟨r, hr, hchain, hcells⟩ := hl.removeFirst_eq_some hc hcf
    rw [hr, hany]
    constructor
    · rintro _ ⟨⟩
      refine ⟨h.size_eq, fun node hnode => h.index_eq node (List.mem_of_mem_eraseP hnode), ?_⟩
      intro j
      by_cases hj : j = i
      · subst hj
        use l.eraseP (fun c => f c.2)
        constructor
        · simpa [setBucket] using hchain
        · have herase : l.eraseP (fun c => f c.2) = l.eraseP (g ∘ Prod.snd) := by
            apply eraseP_congr hfg'
          rw [Live.bucket_eraseP _ _ _ hg, ← hlive, herase, List.eraseP_map]
      · obtain ⟨l', hl', hlive'⟩ := h.chain j
        use l'
        constructor
        · simp only [setBucket, Function.update_of_ne hj]
          apply hl'.frame
          intro d hd
          apply hcells
          intro e he
          apply h.disjoint hj hl' hlive' hl hlive d hd e he
        · rw [hlive', Live.bucket_eraseP_of_ne _ _ hj hg]
    · simp only [reduceCtorEq, false_iff, Bool.not_eq_false, List.any_eq_true]
      exact ⟨c, hc, hcf⟩
  · simp only [not_exists, not_and, Bool.not_eq_true] at hf
    rw [hl.removeFirst_eq_none hf, hany]
    constructor
    · rintro _ ⟨⟩
    · simpa using hf

/-- A deletion by key removes the oldest live node with the key. -/
theorem deleteByKey (h : t.Represents live) (key : BitVec 32) :
  (t.deleteByKey key).Represents (Live.deleteByKey live key)
  := by
  have hkey : ∀ node : Node w, (node.key == key) = true → hashFunction node.key = hashFunction key
      := by
    intro node hnode
    rw [beq_iff_eq.mp hnode]
  obtain ⟨hsome, hnone⟩ := h.setBucket_removeFirst hkey (fun _ _ => rfl)
  simp only [ChainTable.deleteByKey]
  cases hr : removeFirst t.heap (fun node => node.key == key) (t.table (hashFunction key)) with
  | some r => apply hsome r hr
  | none =>
      have hfind : live.find? (fun node => node.key == key) = none := by
        rw [← Live.find?_bucket live _ _ hkey, List.find?_eq_none]
        simpa using hnone.mp hr
      rw [Live.deleteByKey, List.eraseP_of_forall_not (List.find?_eq_none.mp hfind)]
      apply h

/-- The loop of a deletion by value removes the oldest node with the value from the first
of the buckets left that has one. -/
theorem deleteByValueFrom (h : t.Represents live) (value : BitVec w) (i n : ℕ) :
  (t.deleteByValueFrom value i n).Represents
    (Live.deleteByValue live value (List.range' i n))
  := by
  induction n generalizing i with
  | zero => apply h
  | succ n ih =>
      obtain ⟨hsome, hnone⟩ := h.setBucket_removeFirst
        (i := i) (f := fun node => node.value == value)
        (g := fun node => hashFunction node.key == i && node.value == value)
        (by simp +contextual) (by simp +contextual)
      rw [List.range'_succ, Live.deleteByValue, Live.firstBucket, List.find?_cons,
        ChainTable.deleteByValueFrom]
      cases hr : removeFirst t.heap (fun node => node.value == value) (t.table i) with
      | some r =>
          have hany : (Live.bucket live i).any (fun node => node.value == value) = true := by
            rw [← Bool.not_eq_false, ← hnone, hr]
            simp
          rw [hany]
          apply hsome r hr
      | none =>
          rw [hnone.mp hr]
          apply ih

/-- A deletion by value removes the oldest node with the value from the first bucket that
has one. -/
theorem deleteByValue (h : t.Represents live) (value : BitVec w) :
  (t.deleteByValue value).Represents (Live.deleteByValue live value (List.range htSz))
  := by
  rw [ChainTable.deleteByValue, h.size_eq, List.range_eq_range']
  apply h.deleteByValueFrom

/-- Every operation acts on the live nodes as it should. -/
theorem apply (h : t.Represents live) {op : TableOp w} (hop : op.Succeeds) :
  (op.apply t).Represents (Live.apply live op)
  := by
  cases op with
  | insertByValue malloc key value => apply h.insertByValue malloc key value (hop t.heap)
  | deleteByKey key => apply h.deleteByKey key
  | deleteByValue value => apply h.deleteByValue value

/-- A table represents its live nodes after every sequence of operations. -/
theorem foldl (h : t.Represents live) {ops : List (TableOp w)} (hops : ∀ op ∈ ops, op.Succeeds) :
  (ops.foldl TableOp.apply t).Represents (ops.foldl Live.apply live)
  := by
  induction ops generalizing t live with
  | nil => apply h
  | cons op ops ih =>
      apply ih (h.apply (hops op (List.mem_cons_self ..)))
      intro op' hop'
      apply hops op' (List.mem_cons_of_mem _ hop')

end ChainTable.Represents

/-! ### Counting -/

/-- The members of a list that satisfy a test, counted by their number below `n`. -/
theorem sum_countP_filter {α : Type*} (l : List α) (hash : α → ℕ) (p : α → Bool) {n : ℕ}
    (hlt : ∀ a ∈ l, hash a < n) :
  ∑ i ∈ Finset.range n, (l.filter fun a => hash a == i).countP p = l.countP p
  := by
  induction l with
  | nil => simp
  | cons a l ih =>
      have hsplit : ∀ i, ((a :: l).filter fun a => hash a == i).countP p =
          (l.filter fun a => hash a == i).countP p + if hash a = i then [a].countP p else 0 := by
        intro i
        by_cases hi : hash a = i
        · rw [List.filter_cons_of_pos (by simpa using hi), if_pos hi, Nat.add_comm,
            ← List.countP_append, List.singleton_append]
        · rw [List.filter_cons_of_neg (by simpa using hi), if_neg hi, Nat.add_zero]
      simp only [hsplit, Finset.sum_add_distrib]
      rw [ih fun b hb => hlt b (List.mem_cons_of_mem _ hb), Finset.sum_ite_eq,
        if_pos (Finset.mem_range.mpr (hlt a (List.mem_cons_self ..))), Nat.add_comm,
        ← List.countP_append, List.singleton_append]

/-- The number of nodes of the table that satisfy a test, over all buckets. -/
def ChainTable.count (t : ChainTable w) (p : Node w → Bool) : ℕ :=
  ∑ i ∈ Finset.range htSz, (t.bucket i).countP p

/-- The nodes of a table that satisfy a test are its live ones. -/
theorem ChainTable.Represents.count_eq {t : ChainTable w} {live : List (Node w)}
    (h : t.Represents live) (p : Node w → Bool) :
  t.count p = live.countP p
  := by
  simp only [ChainTable.count, h.bucket_eq]
  apply sum_countP_filter
  intro node _
  apply hashFunction_lt

end SocketToRdma
