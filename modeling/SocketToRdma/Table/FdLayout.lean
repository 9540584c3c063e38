import SocketToRdma.Table.Lookup

/-!
# Two lookups over one memory

The hooks of the host look descriptors up in `fd_ht` in two ways. Most call `fd_searchByKey`,
which reads the nodes as `FDNode`s; `connect`, `send`, `read`, `recv` and `close` call
`searchByKey`, which reads them as `HashNode`s, and keep the low 32 bits of the pointer it
returns. Here both run over the bytes of the table, with the offsets the fields have in the
two structures. Where a `HashNode` has its value, an `FDNode` has its index, so the second
kind of lookup returns the bucket of the descriptor in place of the thread id.
-/

namespace SocketToRdma

open LinkedList

/-! ### Layouts -/

/-- The offset of `key` in a `HashNode`. -/
def hashNodeKey : ℕ := 0

/-- The offset of `value` in a `HashNode`; the pointer is aligned to eight bytes. -/
def hashNodeValue : ℕ := 8

/-- The offset of `key` in an `FDNode`. -/
def fdNodeKey : ℕ := 0

/-- The offset of `value` in an `FDNode`. -/
def fdNodeValue : ℕ := 4

/-- The offset of `index` in an `FDNode`; four bytes of padding follow it. -/
def fdNodeIndex : ℕ := 8

/-- The offset of `next_node` in an `FDNode`. -/
def fdNodeNext : ℕ := 16

/-- The pointer to the cell `p`, the cell `a` being at the address `place a`. -/
def pointer (place : ℕ → ℕ) (p : Option ℕ) : BitVec 64 :=
  match p with
  | none => 0
  | some a => BitVec.ofNat 64 (place a)

/-- The memory `m` holds the table `t` at the address `fdHt`, the cell `a` of the table being
at the address `place a`. The bytes of the padding are arbitrary. -/
structure FdImage (m : ByteMem) (fdHt : ℕ) (place : ℕ → ℕ) (t : FDHashTable) : Prop where
  place_pos : ∀ a c, t.heap.cells a = some c → 0 < place a ∧ place a < 2 ^ 64
  bucket : ∀ i, i < htSz → m.loadBits 64 (fdHt + 8 * i) = pointer place (t.table i)
  key : ∀ a c, t.heap.cells a = some c → m.loadBits 32 (place a + fdNodeKey) = c.val.key
  value : ∀ a c, t.heap.cells a = some c → m.loadBits 32 (place a + fdNodeValue) = c.val.value
  index : ∀ a c, t.heap.cells a = some c →
    m.loadBits 32 (place a + fdNodeIndex) = BitVec.ofNat 32 c.val.index
  next : ∀ a c, t.heap.cells a = some c →
    m.loadBits 64 (place a + fdNodeNext) = pointer place c.next

/-! ### The lookups on bytes -/

/-- `fd_searchByKey`, on the bytes of the table. -/
def fdSearchByKeyBytes (m : ByteMem) (fdHt : ℕ) (key : BitVec 32) : BitVec 32 :=
  let node := (m.loadBits 64 (fdHt + 8 * hashFunction key)).toNat
  if node ≠ 0 ∧ m.loadBits 32 (node + fdNodeKey) = key then
    m.loadBits 32 (node + fdNodeValue)
  else
    0

/-- `searchByKey`, on the bytes of the table. -/
def searchByKeyBytes (m : ByteMem) (hashTable : ℕ) (key : BitVec 32) : BitVec 64 :=
  let node := (m.loadBits 64 (hashTable + 8 * hashFunction key)).toNat
  if node ≠ 0 ∧ m.loadBits 32 (node + hashNodeKey) = key then
    m.loadBits 64 (node + hashNodeValue)
  else
    0

/-- What `int tid = searchByKey(fd_ht, key)` leaves in `tid`. -/
def tidBySearchByKeyBytes (m : ByteMem) (fdHt : ℕ) (key : BitVec 32) : BitVec 32 :=
  (searchByKeyBytes m fdHt key).setWidth 32

/-- What `int tid = searchByKey(fd_ht, key)` leaves in `tid`, on the nodes of the table: the
index of the first node of the bucket if it has the key. -/
def tidBySearchByKey (fdHt : FDHashTable) (key : BitVec 32) : BitVec 32 :=
  match fdHt.head (hashFunction key) with
  | some node => if node.key = key then BitVec.ofNat 32 node.index else 0
  | none => 0

namespace FdImage

variable {m : ByteMem} {fdHt : ℕ} {place : ℕ → ℕ} {t : FDHashTable} {live : List (Node 32)}

theorem toNat_pointer (h : FdImage m fdHt place t) {a : ℕ} {c : Cell (Node 32)}
    (hc : t.heap.cells a = some c) :
  (pointer place (some a)).toNat = place a
  := by
  rw [pointer, BitVec.toNat_ofNat, Nat.mod_eq_of_lt (h.place_pos a c hc).2]

/-- The first node of a bucket that is not empty is a cell of the heap. -/
theorem cell_of_table (ht : t.Represents live) {i a : ℕ} (ha : t.table i = some a) :
  ∃ c, t.heap.cells a = some c
  := by
  obtain ⟨l, hl, -⟩ := ht.chain i
  rw [ha] at hl
  cases l with
  | nil => cases hl
  | cons d l =>
      obtain ⟨⟨⟩, q, hq, -⟩ := hl
      use ⟨d.2, q⟩

/-- The lookup on bytes reads the nodes as they are. -/
theorem fdSearchByKeyBytes_eq (h : FdImage m fdHt place t) (ht : t.Represents live)
    (key : BitVec 32) :
  fdSearchByKeyBytes m fdHt key = fdSearchByKey t key
  := by
  simp only [fdSearchByKeyBytes, h.bucket _ (hashFunction_lt key), fdSearchByKey,
    ChainTable.searchByKey, ChainTable.head]
  cases ha : t.table (hashFunction key) with
  | none => simp [pointer]
  | some a =>
      obtain ⟨c, hc⟩ := cell_of_table ht ha
      have hpos := (h.place_pos a c hc).1
      rw [h.toNat_pointer hc, h.key a c hc, h.value a c hc]
      simp [hc, Nat.pos_iff_ne_zero.mp hpos]

/-- The lookup that reads the nodes as `HashNode`s reads the index for the value. -/
theorem tidBySearchByKeyBytes_eq (h : FdImage m fdHt place t) (ht : t.Represents live)
    (key : BitVec 32) :
  tidBySearchByKeyBytes m fdHt key = tidBySearchByKey t key
  := by
  simp only [tidBySearchByKeyBytes, searchByKeyBytes, h.bucket _ (hashFunction_lt key),
    tidBySearchByKey, ChainTable.head]
  cases ha : t.table (hashFunction key) with
  | none => simp [pointer]
  | some a =>
      obtain ⟨c, hc⟩ := cell_of_table ht ha
      have hpos := (h.place_pos a c hc).1
      have hkey : m.loadBits 32 (place a + hashNodeKey) = c.val.key := h.key a c hc
      have hindex : (m.loadBits 64 (place a + hashNodeValue)).setWidth 32
          = BitVec.ofNat 32 c.val.index := by
        rw [ByteMem.setWidth_loadBits _ _ (by omega) (by omega)]
        apply h.index a c hc
      rw [h.toNat_pointer hc, hkey, apply_ite (BitVec.setWidth 32), hindex]
      simp [hc, Nat.pos_iff_ne_zero.mp hpos]

end FdImage

/-! ### The two answers -/

namespace ChainTable.Represents

variable {t : FDHashTable} {live : List (Node 32)}

/-- The lookup by `fd_searchByKey` answers no exactly when the oldest live node of the bucket
is not one of the descriptor. -/
theorem fdSearchByKey_eq_zero_iff (h : t.Represents live)
    (hvalue : ∀ node ∈ live, node.value ≠ 0) (d : BitVec 32) :
  fdSearchByKey t d = 0 ↔
    ¬ ∃ first, (Live.bucket live (hashFunction d)).head? = some first ∧ first.key = d
  := by
  rw [fdSearchByKey, h.searchByKey_eq]
  cases hhead : (Live.bucket live (hashFunction d)).head? with
  | none => simp
  | some first =>
      have hfirst := hvalue first (Live.mem_of_mem_bucket (List.mem_of_head? hhead))
      by_cases hkey : first.key = d
      · simpa [hkey] using hfirst
      · simp [hkey]

/-- The lookup by `searchByKey` answers no also for the descriptors of the bucket `0`. -/
theorem tidBySearchByKey_eq_zero_iff (h : t.Represents live) (d : BitVec 32) :
  tidBySearchByKey t d = 0 ↔
    hashFunction d = 0 ∨
      ¬ ∃ first, (Live.bucket live (hashFunction d)).head? = some first ∧ first.key = d
  := by
  rw [tidBySearchByKey, h.head_eq]
  cases hhead : (Live.bucket live (hashFunction d)).head? with
  | none => simp
  | some first =>
      by_cases hkey : first.key = d
      · have hindex := h.index_eq first (Live.mem_of_mem_bucket (List.mem_of_head? hhead))
        have hlt : hashFunction d < 2 ^ 32 := by
          have := hashFunction_lt d
          simp only [htSz] at this
          omega
        have hzero : BitVec.ofNat 32 (hashFunction d) = 0 ↔ hashFunction d = 0 := by
          rw [← BitVec.toNat_inj, BitVec.toNat_ofNat, Nat.mod_eq_of_lt hlt]
          rfl
        simpa [hkey, hindex] using hzero
      · simp [hkey]

end ChainTable.Represents

/-- In every memory that holds the table after some operations, the two lookups agree on a
descriptor exactly when it does not hash to the bucket `0` with the oldest live node of the
bucket being one of the descriptor. -/
theorem lookups_agree_iff (ops : List (TableOp 32)) (hops : ∀ op ∈ ops, op.Succeeds)
    (hvalue : ∀ malloc key value, .insertByValue malloc key value ∈ ops → value ≠ 0)
    {m : ByteMem} {fdHt : ℕ} {place : ℕ → ℕ} (himage : FdImage m fdHt place (tableAfter ops))
    (d : BitVec 32) :
  (tidBySearchByKeyBytes m fdHt d = 0 ↔ fdSearchByKeyBytes m fdHt d = 0) ↔
    ¬ (hashFunction d = 0 ∧
        ∃ first, (Live.bucket (liveAfter ops) 0).head? = some first ∧ first.key = d)
  := by
  have h := represents_tableAfter hops
  have hlive : ∀ node ∈ liveAfter ops, node.value ≠ 0 := by
    intro node hnode
    rcases Live.mem_foldl_apply hnode with hnil | ⟨malloc, hop⟩
    · cases hnil
    · apply hvalue malloc node.key node.value hop
  rw [himage.tidBySearchByKeyBytes_eq h, himage.fdSearchByKeyBytes_eq h,
    h.tidBySearchByKey_eq_zero_iff, h.fdSearchByKey_eq_zero_iff hlive]
  by_cases hzero : hashFunction d = 0
  · simp [hzero]
  · simp [hzero]

/-! ### A memory that holds a table -/

/-- The address of `fd_ht` in the image of a table. -/
def imageBase : ℕ := 4096

/-- The address of a cell in the image of a table, behind the buckets. -/
def imagePlace (a : ℕ) : ℕ := 16384 + 32 * a

/-- The bytes of the cell `a`, over memory left as it was. -/
def imageCell (m : ByteMem) (a : ℕ) (c : Cell (Node 32)) : ByteMem :=
  let m := m.storeBits (imagePlace a + fdNodeKey) c.val.key
  let m := m.storeBits (imagePlace a + fdNodeValue) c.val.value
  let m := m.storeBits (imagePlace a + fdNodeIndex) (BitVec.ofNat 32 c.val.index)
  m.storeBits (imagePlace a + fdNodeNext) (pointer imagePlace c.next)

/-- A memory that holds the table; the bytes outside the fields are those of `m`. -/
def fdImage (m : ByteMem) (t : FDHashTable) : ByteMem :=
  fun x =>
    if x < 16384 then
      let i := (x - imageBase) / 8
      m.storeBits (imageBase + 8 * i) (pointer imagePlace (t.table i)) x
    else
      let a := (x - 16384) / 32
      match t.heap.cells a with
      | some c => imageCell m a c x
      | none => m x

/-- The fields of a cell are read back from its bytes. -/
theorem loadBits_imageCell (m : ByteMem) (a : ℕ) (c : Cell (Node 32)) :
  (imageCell m a c).loadBits 32 (imagePlace a + fdNodeKey) = c.val.key ∧
    (imageCell m a c).loadBits 32 (imagePlace a + fdNodeValue) = c.val.value ∧
    (imageCell m a c).loadBits 32 (imagePlace a + fdNodeIndex) = BitVec.ofNat 32 c.val.index ∧
    (imageCell m a c).loadBits 64 (imagePlace a + fdNodeNext) = pointer imagePlace c.next
  := by
  simp only [imageCell, fdNodeKey, fdNodeValue, fdNodeIndex, fdNodeNext]
  refine ⟨?_, ?_, ?_, ?_⟩
  · rw [ByteMem.loadBits_storeBits_of_disjoint _ _ _ (by omega),
      ByteMem.loadBits_storeBits_of_disjoint _ _ _ (by omega),
      ByteMem.loadBits_storeBits_of_disjoint _ _ _ (by omega),
      ByteMem.loadBits_storeBits _ _ _ (by omega)]
  · rw [ByteMem.loadBits_storeBits_of_disjoint _ _ _ (by omega),
      ByteMem.loadBits_storeBits_of_disjoint _ _ _ (by omega),
      ByteMem.loadBits_storeBits _ _ _ (by omega)]
  · rw [ByteMem.loadBits_storeBits_of_disjoint _ _ _ (by omega),
      ByteMem.loadBits_storeBits _ _ _ (by omega)]
  · rw [ByteMem.loadBits_storeBits _ _ _ (by omega)]

/-- The image of a table holds the words of each of its cells. -/
theorem loadBits_fdImage_cell (m : ByteMem) (t : FDHashTable) {a : ℕ} {c : Cell (Node 32)}
    (hc : t.heap.cells a = some c) {w offset : ℕ} (hw : offset + w / 8 ≤ 32) :
  (fdImage m t).loadBits w (imagePlace a + offset)
    = (imageCell m a c).loadBits w (imagePlace a + offset)
  := by
  apply ByteMem.AgreeOn.loadBits
  intro x hx hlt
  simp only [imagePlace] at hx hlt
  have ha : (x - 16384) / 32 = a := by omega
  simp only [fdImage, if_neg (show ¬ x < 16384 by omega), ha, hc]

/-- The image of a table holds the pointer of each of its buckets. -/
theorem loadBits_fdImage_bucket (m : ByteMem) (t : FDHashTable) {i : ℕ} (hi : i < htSz) :
  (fdImage m t).loadBits 64 (imageBase + 8 * i) = pointer imagePlace (t.table i)
  := by
  have hagree : (fdImage m t).AgreeOn
      (m.storeBits (imageBase + 8 * i) (pointer imagePlace (t.table i))) (imageBase + 8 * i) 8 := by
    intro x hx hlt
    simp only [imageBase, htSz] at hx hlt hi
    have hi' : (x - 4096) / 8 = i := by omega
    simp only [fdImage, imageBase, if_pos (show x < 16384 by omega), hi']
  rw [hagree.loadBits (w := 64), ByteMem.loadBits_storeBits _ _ _ (by omega)]

/-- Every table whose cells fit below the end of the address space has an image. -/
theorem fdImage_fdImage (m : ByteMem) (t : FDHashTable)
    (hbound : imagePlace t.heap.bound ≤ 2 ^ 64) :
  FdImage (fdImage m t) imageBase imagePlace t
  where
  place_pos a c hc := by
    have hlt : a < t.heap.bound := by
      by_contra hle
      rw [t.heap.cells_of_le a (by omega)] at hc
      cases hc
    simp only [imagePlace] at hbound ⊢
    omega
  bucket i hi := loadBits_fdImage_bucket m t hi
  key a c hc := by
    rw [loadBits_fdImage_cell m t hc (by simp [fdNodeKey])]
    apply (loadBits_imageCell m a c).1
  value a c hc := by
    rw [loadBits_fdImage_cell m t hc (by simp [fdNodeValue])]
    apply (loadBits_imageCell m a c).2.1
  index a c hc := by
    rw [loadBits_fdImage_cell m t hc (by simp [fdNodeIndex])]
    apply (loadBits_imageCell m a c).2.2.1
  next a c hc := by
    rw [loadBits_fdImage_cell m t hc (by simp [fdNodeNext])]
    apply (loadBits_imageCell m a c).2.2.2

/-- The insertion of a descriptor of the bucket `0`. -/
def zeroBucketOps : List (TableOp 32) :=
  [.insertByValue (.bump 32) 2405#32 7]

theorem zeroBucketOps_succeeds :
  ∀ op ∈ zeroBucketOps, op.Succeeds
  := by
  simp [zeroBucketOps, TableOp.Succeeds, Malloc.bump]

theorem zeroBucketOps_ne_zero :
  ∀ malloc key value, .insertByValue malloc key value ∈ zeroBucketOps → value ≠ 0
  := by
  intro malloc key value hop
  simp only [zeroBucketOps, List.mem_singleton, TableOp.insertByValue.injEq] at hop
  rw [hop.2.2]
  decide

/-- The table of one node has an image. -/
theorem fdImage_zeroBucketOps :
  FdImage (fdImage (fun _ => 0) (tableAfter zeroBucketOps)) imageBase imagePlace
    (tableAfter zeroBucketOps)
  := by
  apply fdImage_fdImage
  have hbound : (tableAfter zeroBucketOps).heap.bound = 1 := rfl
  rw [hbound]
  decide

/-- The two lookups agree on a descriptor that is not in the table. -/
theorem lookups_agree_iff_absent :
  tidBySearchByKeyBytes (fdImage (fun _ => 0) (tableAfter zeroBucketOps)) imageBase 3#32 = 0 ↔
    fdSearchByKeyBytes (fdImage (fun _ => 0) (tableAfter zeroBucketOps)) imageBase 3#32 = 0
  := by
  apply (lookups_agree_iff zeroBucketOps zeroBucketOps_succeeds zeroBucketOps_ne_zero
    fdImage_zeroBucketOps 3#32).mpr
  have hhash : hashFunction 3#32 ≠ 0 := by
    rw [hashFunction_eq]
    decide
  simp [hhash]

/-- The two lookups disagree on the descriptor `2405`, whose bucket is `0`. -/
theorem lookups_disagree :
  tidBySearchByKeyBytes (fdImage (fun _ => 0) (tableAfter zeroBucketOps)) imageBase 2405#32 = 0 ∧
    fdSearchByKeyBytes (fdImage (fun _ => 0) (tableAfter zeroBucketOps)) imageBase 2405#32 = 7
  := by
  have h := represents_tableAfter zeroBucketOps_succeeds
  have hhash : hashFunction 2405#32 = 0 := by
    rw [hashFunction_eq]
    decide
  have hbucket : Live.bucket (liveAfter zeroBucketOps) 0 = [⟨2405#32, 7, 0⟩] := by
    simp [liveAfter, zeroBucketOps, Live.apply, Live.bucket, hhash]
  constructor
  · rw [fdImage_zeroBucketOps.tidBySearchByKeyBytes_eq h, h.tidBySearchByKey_eq_zero_iff]
    left
    apply hhash
  · rw [fdImage_zeroBucketOps.fdSearchByKeyBytes_eq h, fdSearchByKey, h.searchByKey_eq, hhash,
      hbucket]
    rfl

end SocketToRdma
