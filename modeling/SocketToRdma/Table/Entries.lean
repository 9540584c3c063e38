import SocketToRdma.Table.Lookup

/-!
# No entry is lost or misplaced

After any insertions and deletions, the chain of each bucket visits distinct cells and ends,
and it holds the live entries of the bucket in the order of their insertion. One more
operation does to the live entries what its name says: an insertion adds one behind the
others, a deletion by key takes out the oldest with the key, and a deletion by value takes
out the oldest with the value in the first bucket that has one. A deletion that finds no
entry to take out leaves the table as it was.
-/

namespace SocketToRdma

open LinkedList

variable {w : ℕ}

/-! ### What the operations should do -/

/-- The operation is not an insertion that fails for want of memory. -/
def TableOp.SucceedsOn (t : ChainTable w) : TableOp w → Prop
  | .insertByValue malloc key value => (t.insertByValue malloc key value).2 = true
  | .deleteByKey _ | .deleteByValue _ => True

/-- No operation fails, one after the other from a table on. -/
def ChainTable.Allocates : ChainTable w → List (TableOp w) → Prop
  | _, [] => True
  | t, op :: ops => op.SucceedsOn t ∧ (op.apply t).Allocates ops

/-- The first entry with a property is taken out of a list, and nothing else. -/
def TakesOutFirst (p : Node w → Prop) (live live' : List (Node w)) : Prop :=
  ∃ before node after, live = before ++ node :: after ∧ live' = before ++ after ∧
    p node ∧ ∀ other ∈ before, ¬ p other

/-- What an operation should do to a table and its live entries. -/
def TableOp.Effect (t t' : ChainTable w) (live live' : List (Node w)) : TableOp w → Prop
  | .insertByValue _ key value => live' = live ++ [⟨key, value, hashFunction key⟩]
  | .deleteByKey key =>
      TakesOutFirst (fun node => node.key = key) live live' ∨
        ((∀ node ∈ live, node.key ≠ key) ∧ t' = t ∧ live' = live)
  | .deleteByValue value =>
      (∃ i, (∀ node ∈ live, node.value = value → i ≤ hashFunction node.key) ∧
          TakesOutFirst (fun node => hashFunction node.key = i ∧ node.value = value) live live') ∨
        ((∀ node ∈ live, node.value ≠ value) ∧ t' = t ∧ live' = live)

/-- The chain of each bucket visits distinct cells, ends, and holds exactly the live entries
whose key hashes to the bucket, in their order, each with the bucket as its index. -/
def ChainTable.HoldsEntries (t : ChainTable w) (live : List (Node w)) : Prop :=
  ∀ i, ∃ l, Chain t.heap (t.table i) l ∧ (l.map Prod.fst).Nodup ∧
    l.map Prod.snd = live.filter (fun node => hashFunction node.key == i) ∧
    ∀ c ∈ l, c.2.index = i

/-! ### What they do to the live entries -/

/-- Erasing the first member that passes a test takes out the first with the property. -/
theorem takesOutFirst_eraseP {p : Node w → Prop} {f : Node w → Bool}
    (hf : ∀ node, f node = true ↔ p node) {live : List (Node w)} {node : Node w}
    (hnode : node ∈ live) (hp : p node) :
  TakesOutFirst p live (live.eraseP f)
  := by
  obtain ⟨first, before, after, hbefore, hfirst, hlive, herase⟩ :=
    List.exists_of_eraseP hnode ((hf node).mpr hp)
  refine ⟨before, first, after, hlive, herase, (hf first).mp hfirst, ?_⟩
  intro other hother hp'
  apply hbefore other hother
  exact (hf other).mpr hp'

namespace Live

theorem deleteByKey_of_mem {live : List (Node w)} {node : Node w} (hnode : node ∈ live) :
  TakesOutFirst (fun other => other.key = node.key) live (deleteByKey live node.key)
  := takesOutFirst_eraseP (fun _ => beq_iff_eq) hnode rfl

/-- A bucket has an entry with the value when one of the live entries does. -/
theorem any_bucket {live : List (Node w)} {value : BitVec w} {i : ℕ} :
  (bucket live i).any (fun node => node.value == value) = true ↔
    ∃ node ∈ live, hashFunction node.key = i ∧ node.value = value
  := by
  simp only [List.any_eq_true, bucket, List.mem_filter, beq_iff_eq]
  constructor
  · rintro ⟨node, ⟨hnode, hi⟩, hvalue⟩
    exact ⟨node, hnode, hi, hvalue⟩
  · rintro ⟨node, hnode, hi, hvalue⟩
    exact ⟨node, ⟨hnode, hi⟩, hvalue⟩

/-- No bucket has an entry with the value when no live entry does. -/
theorem firstBucket_eq_none {live : List (Node w)} {value : BitVec w}
    (hlive : ∀ node ∈ live, node.value ≠ value) (is : List ℕ) :
  firstBucket live value is = none
  := by
  rw [firstBucket, List.find?_eq_none]
  intro i _ hany
  obtain ⟨node, hnode, -, hvalue⟩ := any_bucket.mp hany
  apply hlive node hnode hvalue

/-- The first bucket with an entry that has the value is the least. -/
theorem firstBucket_of_mem {live : List (Node w)} {value : BitVec w} {node : Node w}
    (hnode : node ∈ live) (hvalue : node.value = value) :
  ∃ i, firstBucket live value (List.range htSz) = some i ∧
    (∃ first ∈ live, hashFunction first.key = i ∧ first.value = value) ∧
    ∀ other ∈ live, other.value = value → i ≤ hashFunction other.key
  := by
  cases hfirst : firstBucket live value (List.range htSz) with
  | none =>
      rw [firstBucket, List.find?_eq_none] at hfirst
      exfalso
      apply hfirst (hashFunction node.key) (List.mem_range.mpr (hashFunction_lt node.key))
      exact any_bucket.mpr ⟨node, hnode, rfl, hvalue⟩
  | some i =>
      rw [firstBucket, List.find?_range_eq_some] at hfirst
      obtain ⟨hany, -, hleast⟩ := hfirst
      refine ⟨i, rfl, any_bucket.mp hany, ?_⟩
      intro other hother hvalue'
      by_contra hlt
      have hno := hleast (hashFunction other.key) (by omega)
      rw [any_bucket.mpr ⟨other, hother, rfl, hvalue'⟩] at hno
      cases hno

theorem deleteByValue_of_mem {live : List (Node w)} {value : BitVec w} {node : Node w}
    (hnode : node ∈ live) (hvalue : node.value = value) :
  ∃ i, (∀ other ∈ live, other.value = value → i ≤ hashFunction other.key) ∧
    TakesOutFirst (fun other => hashFunction other.key = i ∧ other.value = value) live
      (deleteByValue live value (List.range htSz))
  := by
  obtain ⟨i, hi, ⟨first, hfirst, hp⟩, hleast⟩ := firstBucket_of_mem hnode hvalue
  use i, hleast
  rw [deleteByValue, hi]
  apply takesOutFirst_eraseP _ hfirst hp
  intro other
  rw [Bool.and_eq_true, beq_iff_eq, beq_iff_eq]

end Live

/-! ### What they do to the table -/

namespace ChainTable.Represents

variable {t : ChainTable w} {live : List (Node w)}

/-- An operation that does not fail acts on the live entries as it should. -/
theorem apply_of_succeedsOn (h : t.Represents live) {op : TableOp w} (hop : op.SucceedsOn t) :
  (op.apply t).Represents (Live.apply live op)
  := by
  cases op with
  | insertByValue malloc key value =>
      apply h.insertByValue malloc key value
      intro hnone
      simp only [TableOp.SucceedsOn, ChainTable.insertByValue, hnone] at hop
      cases hop
  | deleteByKey key => apply h.deleteByKey key
  | deleteByValue value => apply h.deleteByValue value

/-- A table that represents its live entries does so after operations that do not fail. -/
theorem of_allocates (h : t.Represents live) {ops : List (TableOp w)} (hops : t.Allocates ops) :
  (ops.foldl TableOp.apply t).Represents (ops.foldl Live.apply live)
  := by
  induction ops generalizing t live with
  | nil => apply h
  | cons op ops ih => apply ih (h.apply_of_succeedsOn hops.1) hops.2

theorem holdsEntries (h : t.Represents live) :
  t.HoldsEntries live
  := by
  intro i
  obtain ⟨l, hl, hlive⟩ := h.chain i
  refine ⟨l, hl, hl.nodup, hlive, ?_⟩
  intro c hc
  have hmem : c.2 ∈ live := by
    apply Live.mem_of_mem_bucket (i := i)
    rw [← hlive]
    apply List.mem_map_of_mem hc
  rw [h.index_eq c.2 hmem, h.hash_of_mem hlive hc]

/-- A walk that finds no cell to unlink leaves the bucket. -/
theorem removeFirst_eq_none (h : t.Represents live) {f : Node w → Bool}
    (hlive : ∀ node ∈ live, f node = false) (i : ℕ) :
  removeFirst t.heap f (t.table i) = none
  := by
  obtain ⟨l, hl, hbucket⟩ := h.chain i
  apply hl.removeFirst_eq_none
  intro c hc
  apply hlive
  apply Live.mem_of_mem_bucket (i := i)
  rw [← hbucket]
  apply List.mem_map_of_mem hc

theorem deleteByKey_eq_self (h : t.Represents live) {key : BitVec 32}
    (hlive : ∀ node ∈ live, node.key ≠ key) :
  t.deleteByKey key = t
  := by
  have hnone := h.removeFirst_eq_none (f := fun node => node.key == key)
    (fun node hnode => beq_false_of_ne (hlive node hnode)) (hashFunction key)
  simp only [ChainTable.deleteByKey, hnone]

theorem deleteByValueFrom_eq_self (h : t.Represents live) {value : BitVec w}
    (hlive : ∀ node ∈ live, node.value ≠ value) (i n : ℕ) :
  t.deleteByValueFrom value i n = t
  := by
  induction n generalizing i with
  | zero => rfl
  | succ n ih =>
      have hnone := h.removeFirst_eq_none (f := fun node => node.value == value)
        (fun node hnode => beq_false_of_ne (hlive node hnode)) i
      simp only [ChainTable.deleteByValueFrom, hnone]
      apply ih

/-- Every operation does to the table and its live entries what it should. -/
theorem effect (h : t.Represents live) (op : TableOp w) :
  op.Effect t (op.apply t) live (Live.apply live op)
  := by
  cases op with
  | insertByValue malloc key value => rfl
  | deleteByKey key =>
      by_cases hkey : ∃ node ∈ live, node.key = key
      · obtain ⟨node, hnode, rfl⟩ := hkey
        left
        exact Live.deleteByKey_of_mem hnode
      · have hlive : ∀ node ∈ live, node.key ≠ key := by
          intro node hnode hnode'
          apply hkey ⟨node, hnode, hnode'⟩
        right
        refine ⟨hlive, h.deleteByKey_eq_self hlive, ?_⟩
        apply List.eraseP_of_forall_not
        intro node hnode hbeq
        apply hlive node hnode (beq_iff_eq.mp hbeq)
  | deleteByValue value =>
      by_cases hvalue : ∃ node ∈ live, node.value = value
      · obtain ⟨node, hnode, hnode'⟩ := hvalue
        left
        exact Live.deleteByValue_of_mem hnode hnode'
      · have hlive : ∀ node ∈ live, node.value ≠ value := by
          intro node hnode hnode'
          apply hvalue ⟨node, hnode, hnode'⟩
        right
        refine ⟨hlive, h.deleteByValueFrom_eq_self hlive _ _, ?_⟩
        rw [Live.apply, Live.deleteByValue, Live.firstBucket_eq_none hlive]

end ChainTable.Represents

/-! ### After a sequence of operations -/

theorem tableAfter_concat (ops : List (TableOp w)) (op : TableOp w) :
  tableAfter (ops ++ [op]) = op.apply (tableAfter ops)
  := by
  simp only [tableAfter, List.foldl_append, List.foldl_cons, List.foldl_nil]

theorem liveAfter_concat (ops : List (TableOp w)) (op : TableOp w) :
  liveAfter (ops ++ [op]) = Live.apply (liveAfter ops) op
  := by
  simp only [liveAfter, List.foldl_append, List.foldl_cons, List.foldl_nil]

/-- After any operations whose allocations succeed, the table holds the live entries, and
one more operation does to both what it should. -/
theorem operations_keep_entries (ops : List (TableOp w))
    (hops : (ChainTable.createHashTable w).Allocates ops) (op : TableOp w) :
  (tableAfter ops).HoldsEntries (liveAfter ops) ∧
    op.Effect (tableAfter ops) (tableAfter (ops ++ [op])) (liveAfter ops)
      (liveAfter (ops ++ [op]))
  := by
  have h : (tableAfter ops).Represents (liveAfter ops) :=
    ChainTable.Represents.create.of_allocates hops
  use h.holdsEntries
  rw [tableAfter_concat, liveAfter_concat]
  exact h.effect op

/-- The deletion of the second of two entries in one bucket. -/
theorem operations_keep_entries_colliding :
  (tableAfter collidingOps).HoldsEntries (liveAfter collidingOps) ∧
    (TableOp.deleteByKey 45).Effect (tableAfter collidingOps)
      (tableAfter (collidingOps ++ [.deleteByKey 45])) (liveAfter collidingOps)
      (liveAfter (collidingOps ++ [.deleteByKey 45]))
  := operations_keep_entries collidingOps ⟨rfl, rfl, trivial⟩ (.deleteByKey 45)

end SocketToRdma
