import SocketToRdma.Lib.Critical
import SocketToRdma.Table.Locking

/-!
# The locked tables, step by step

The threads of the server share its tables. An operation is a section under the lock of the table:
it reads or writes one pointer or one node at a time, and the steps of different threads come in any
order, as far as the lock allows.

The two searches release the lock before they read what they return. They keep a pointer to the node
that they found, and `searchByKey` returns `node->value`, `searchByValue` returns `node->key`; another
thread may have freed the node by then. If none has, then every call is applied to the table at one
moment between its start and its return. Otherwise a search may return a value that was never in the
table under its key.
-/

namespace SocketToRdma

open LinkedList Run Critical

variable {w : ℕ}

/-! ### The sections -/

/-- How an operation leaves its section: an insertion with its result, a search with the node that it
found or without one, a deletion, and a deletion by a key whose bucket is empty, with the lock. -/
inductive TableLeft where
  | inserted (ok : Bool)
  | found (node : ℕ)
  | missing
  | deleted
  | kept

/-- Where an operation is inside its section: at its start, with a new node that is not linked yet,
in the loop for the end of a chain, at a bucket of a loop over all of them, in the loop over the
nodes of a bucket, before `free`, and before the lock is released. -/
inductive TablePc where
  | start
  | link (newNode : ℕ)
  | append (newNode current : ℕ)
  | bucket (i : ℕ)
  | visit (i : ℕ) (prev node : Option ℕ)
  | unlinked (node : ℕ)
  | done (y : TableLeft)

/-- What a call returns. -/
inductive TableResult (w : ℕ) where
  | inserted (ok : Bool)
  | value (value : BitVec w)
  | key (key : BitVec 32)
  | deleted
  deriving DecidableEq

namespace ChainTable

/-- The next step of `insertByValue`. -/
def insertByValueStep (malloc : Malloc w) (key : BitVec 32) (value : BitVec w) (t : ChainTable w) :
    TablePc → ChainTable w × (TablePc ⊕ TableLeft)
  | .start =>
      match malloc.pick t.heap with
      | none => (t, .inl (.done (.inserted false)))
      | some newNode =>
          let node : Node w := ⟨key, value, hashFunction key⟩
          ({ t with heap := t.heap.put newNode ⟨node, none⟩ }, .inl (.link newNode))
  | .link newNode =>
      match t.table (hashFunction key) with
      | none =>
          ({ t with table := Function.update t.table (hashFunction key) (some newNode) },
            .inl (.done (.inserted true)))
      | some current => (t, .inl (.append newNode current))
  | .append newNode current =>
      match t.heap.cells current with
      | some ⟨_, some next⟩ => (t, .inl (.append newNode next))
      | _ =>
          ({ t with heap := t.heap.setNext current (some newNode) }, .inl (.done (.inserted true)))
  | .done y => (t, .inr y)
  | pc => (t, .inl pc)

/-- Where a search goes on from the bucket `i`: it is done if the first node satisfies the test. -/
def headStep (f : Node w → Bool) (t : ChainTable w) (i : ℕ) (next : TablePc) : TablePc :=
  match t.table i with
  | none => next
  | some node =>
      match t.heap.cells node with
      | some c => if f c.val then .done (.found node) else next
      | none => next

/-- The next step of `searchByKey`. -/
def searchByKeyStep (key : BitVec 32) (t : ChainTable w) :
    TablePc → ChainTable w × (TablePc ⊕ TableLeft)
  | .start =>
      (t, .inl (t.headStep (fun node => node.key == key) (hashFunction key) (.done .missing)))
  | .done y => (t, .inr y)
  | pc => (t, .inl pc)

/-- The next step of `searchByValue`. -/
def searchByValueStep (value : BitVec w) (t : ChainTable w) :
    TablePc → ChainTable w × (TablePc ⊕ TableLeft)
  | .start => (t, .inl (.bucket 0))
  | .bucket i =>
      if i < t.size then
        (t, .inl (t.headStep (fun node => node.value == value) i (.bucket (i + 1))))
      else (t, .inl (.done .missing))
  | .done y => (t, .inr y)
  | pc => (t, .inl pc)

/-- The pointer to a node of the bucket `i`, from the one before it or from the bucket, is set to the
one after it. -/
def unlinkNode (t : ChainTable w) (i : ℕ) (prev next : Option ℕ) : ChainTable w :=
  match prev with
  | none => { t with table := Function.update t.table i next }
  | some b => { t with heap := t.heap.setNext b next }

/-- The next step of a deletion at a node of the bucket `i`. -/
def visitStep (f : Node w → Bool) (t : ChainTable w) (i : ℕ) (prev node : Option ℕ)
    (missing : TablePc) : ChainTable w × (TablePc ⊕ TableLeft) :=
  match node with
  | none => (t, .inl missing)
  | some a =>
      match t.heap.cells a with
      | some c =>
          if f c.val then (t.unlinkNode i prev c.next, .inl (.unlinked a))
          else (t, .inl (.visit i (some a) c.next))
      | none => (t, .inl missing)

/-- The next step of `deleteByKey`. -/
def deleteByKeyStep (key : BitVec 32) (t : ChainTable w) :
    TablePc → ChainTable w × (TablePc ⊕ TableLeft)
  | .start =>
      if t.table (hashFunction key) = none then (t, .inl (.done .kept))
      else (t, .inl (.visit (hashFunction key) none (t.table (hashFunction key))))
  | .visit i prev node => t.visitStep (fun node => node.key == key) i prev node (.done .deleted)
  | .unlinked a => ({ t with heap := t.heap.free a }, .inl (.done .deleted))
  | .done y => (t, .inr y)
  | pc => (t, .inl pc)

/-- The next step of `deleteByValue`. -/
def deleteByValueStep (value : BitVec w) (t : ChainTable w) :
    TablePc → ChainTable w × (TablePc ⊕ TableLeft)
  | .start => (t, .inl (.bucket 0))
  | .bucket i =>
      if i < t.size then (t, .inl (.visit i none (t.table i)))
      else (t, .inl (.done .deleted))
  | .visit i prev node =>
      t.visitStep (fun node => node.value == value) i prev node (.bucket (i + 1))
  | .unlinked a => ({ t with heap := t.heap.free a }, .inl (.done .deleted))
  | .done y => (t, .inr y)
  | pc => (t, .inl pc)

/-- What is read from a node; memory that is freed holds anything. -/
def readNode (freed : ℕ → Node w) (t : ChainTable w) (a : ℕ) : Node w :=
  ((t.heap.cells a).map Cell.val).getD (freed a)

end ChainTable

namespace TableCall

/-- The searches take the lock for reading. -/
def writes : TableCall w → Bool
  | insertByValue _ _ _ => true
  | searchByKey _ => false
  | searchByValue _ => false
  | deleteByKey _ => true
  | deleteByValue _ => true

/-- The next step of a call. -/
def work : TableCall w → ChainTable w → TablePc → ChainTable w × (TablePc ⊕ TableLeft)
  | insertByValue malloc key value => ChainTable.insertByValueStep malloc key value
  | searchByKey key => ChainTable.searchByKeyStep key
  | searchByValue value => ChainTable.searchByValueStep value
  | deleteByKey key => ChainTable.deleteByKeyStep key
  | deleteByValue value => ChainTable.deleteByValueStep value

/-- What a call returns once it has left its section: a search reads the node it found. -/
def result (freed : ℕ → Node w) (call : TableCall w) (t : ChainTable w) (y : TableLeft) :
    TableResult w :=
  match call, y with
  | insertByValue _ _ _, .inserted ok => .inserted ok
  | insertByValue _ _ _, _ => .inserted false
  | searchByKey _, .found a => .value (t.readNode freed a).value
  | searchByKey _, _ => .value 0
  | searchByValue _, .found a => .key (t.readNode freed a).key
  | searchByValue _, _ => .key (-1)
  | deleteByKey _, _ => .deleted
  | deleteByValue _, _ => .deleted

/-- The operations of a table with its lock. -/
def sections (freed : ℕ → Node w) :
    Sections (TableCall w) (ChainTable w) TablePc TableLeft (TableResult w) where
  writes := writes
  enter := .start
  work := work
  keeps y := match y with
    | .kept => true
    | _ => false
  result := result freed

/-- The call applied to a table at once, and what it returns. -/
def execute (call : TableCall w) (t : ChainTable w) : ChainTable w × TableResult w :=
  (call.apply t, match call with
    | insertByValue malloc key value => .inserted (t.insertByValue malloc key value).2
    | searchByKey key => .value (t.searchByKey key)
    | searchByValue value => .key (t.searchByValue value)
    | deleteByKey _ => .deleted
    | deleteByValue _ => .deleted)

end TableCall

/-- Threads that call the operations of a table, and the table with its lock. -/
abbrev TableThreads (ι : Type) (w : ℕ) : Type :=
  Critical.Threads ι (TableCall w) (ChainTable w) TablePc TableLeft

/-! ### What a section has done -/

namespace ChainTable

/-- The loop of a deletion is at a node of the bucket `i`; no node before it satisfies the test. -/
def VisitAt (f : Node w → Bool) (t : ChainTable w) (i : ℕ) (prev node : Option ℕ) : Prop :=
  ∃ l₁ l₂, Chain t.heap (t.table i) (l₁ ++ l₂) ∧ Chain t.heap node l₂ ∧ prev = lastAddr none l₁ ∧
    ∀ c ∈ l₁, f c.2 = false

theorem VisitAt.start {f : Node w → Bool} {t : ChainTable w} {live : List (Node w)}
    (h : t.Represents live) (i : ℕ) :
  t.VisitAt f i none (t.table i)
  := by
  obtain ⟨l, hl, -⟩ := h.chain i
  refine ⟨[], l, hl, hl, rfl, ?_⟩
  intro c hc
  cases hc

/-- Setting the pointer to a node and freeing it is unlinking it. -/
theorem free_unlinkNode {t : ChainTable w} {i a : ℕ} {node : Node w} {prev next : Option ℕ}
    (ha : t.heap.cells a = some ⟨node, next⟩) :
  { t.unlinkNode i prev next with heap := (t.unlinkNode i prev next).heap.free a } =
    t.setBucket i (unlink t.heap (t.table i) a prev)
  := by
  cases prev with
  | none => simp only [unlinkNode, setBucket, unlink, ha, Option.bind_some]
  | some b =>
      simp only [unlinkNode, setBucket, unlink, ha, Option.bind_some, Function.update_eq_self]

/-- A step of the loop of a deletion: the bucket has no such node, or it is unlinked, or the loop
goes on. -/
theorem VisitAt.step {f : Node w → Bool} {t d : ChainTable w} {i : ℕ} {prev node : Option ℕ}
    {missing pc : TablePc} (h : t.VisitAt f i prev node)
    (hstep : t.visitStep f i prev node missing = (d, .inl pc)) :
  (pc = missing ∧ d = t ∧ removeFirst t.heap f (t.table i) = none) ∨
    (∃ a r, pc = .unlinked a ∧ removeFirst t.heap f (t.table i) = some r ∧
      { d with heap := d.heap.free a } = t.setBucket i r) ∨
    ∃ prev' node', pc = .visit i prev' node' ∧ d = t ∧ t.VisitAt f i prev' node'
  := by
  obtain ⟨l₁, l₂, hl, hnode, rfl, hf⟩ := h
  cases l₂ with
  | nil =>
      obtain rfl : node = none := hnode
      obtain ⟨rfl, hpc⟩ := Prod.mk.inj hstep
      left
      rw [List.append_nil] at hl
      exact ⟨(Sum.inl.inj hpc).symm, rfl, hl.removeFirst_eq_none hf⟩
  | cons c l₂ =>
      obtain ⟨a, v⟩ := c
      obtain ⟨rfl, next, ha, hnext⟩ := hnode
      right
      simp only [visitStep, ha] at hstep
      by_cases hv : f v = true
      · rw [if_pos hv] at hstep
        obtain ⟨rfl, hpc⟩ := Prod.mk.inj hstep
        left
        refine ⟨a, _, (Sum.inl.inj hpc).symm, ?_, free_unlinkNode ha⟩
        have hlen := hl.length_le
        rw [List.length_append, List.length_cons] at hlen
        rw [removeFirst, hl.findCell_eq_some hf hv (by omega)]
        rfl
      · rw [if_neg hv] at hstep
        obtain ⟨rfl, hpc⟩ := Prod.mk.inj hstep
        right
        refine ⟨some a, next, (Sum.inl.inj hpc).symm, rfl, l₁ ++ [(a, v)], l₂, ?_, hnext, ?_, ?_⟩
        · rw [List.append_assoc, List.singleton_append]
          apply hl
        · simp [lastAddr]
        · intro c hc
          rcases List.mem_append.mp hc with hc | hc
          · apply hf c hc
          · rw [List.mem_singleton.mp hc]
            apply Bool.eq_false_iff.mpr hv

/-- Where a search goes on from a bucket. -/
theorem headStep_cases (f : Node w → Bool) (t : ChainTable w) (i : ℕ) (next : TablePc) :
  (∃ a c, t.headStep f i next = .done (.found a) ∧ t.heap.cells a = some c ∧
      t.head i = some c.val ∧ f c.val = true) ∨
    (t.headStep f i next = next ∧ ∀ node, t.head i = some node → f node = false)
  := by
  simp only [headStep, head]
  cases t.table i with
  | none =>
      right
      simp
  | some a =>
      cases ha : t.heap.cells a with
      | none =>
          right
          simp [ha]
      | some c =>
          by_cases hc : f c.val = true
          · left
            exact ⟨a, c, by simp only [ha, if_pos hc], ha, by simp [ha], hc⟩
          · right
            simp only [Option.bind_some, ha, Option.map_some, if_neg hc, true_and]
            rintro _ ⟨⟩
            apply Bool.eq_false_iff.mpr hc

/-- The table represents some live nodes. -/
def Sound (t : ChainTable w) : Prop :=
  ∃ live, t.Represents live

end ChainTable

namespace TableCall

theorem sound_apply (call : TableCall w) {t : ChainTable w} (h : t.Sound) :
  (call.apply t).Sound
  := by
  obtain ⟨live, hlive⟩ := h
  cases call with
  | insertByValue malloc key value =>
      by_cases hpick : malloc.pick t.heap = none
      · use live
        simp only [apply, TableOp.apply, ChainTable.insertByValue, hpick]
        apply hlive
      · exact ⟨_, hlive.insertByValue malloc key value hpick⟩
  | searchByKey key => exact ⟨live, hlive⟩
  | searchByValue value => exact ⟨live, hlive⟩
  | deleteByKey key => exact ⟨_, hlive.deleteByKey key⟩
  | deleteByValue value => exact ⟨_, hlive.deleteByValue value⟩

/-- What a call that entered at the table `t` has done to it when it is at `pc`. -/
def During (freed : ℕ → Node w) (call : TableCall w) (t d : ChainTable w) (pc : TablePc) : Prop :=
  t.Sound ∧ match call, pc with
    | _, .start => d = t
    | insertByValue malloc key value, .link a =>
        malloc.pick t.heap = some a ∧
          d = { t with heap := t.heap.put a ⟨⟨key, value, hashFunction key⟩, none⟩ }
    | insertByValue malloc key value, .append a current =>
        malloc.pick t.heap = some a ∧
          d = { t with heap := t.heap.put a ⟨⟨key, value, hashFunction key⟩, none⟩ } ∧
          ∃ l₁ v l₂, Chain d.heap (d.table (hashFunction key)) (l₁ ++ (current, v) :: l₂)
    | searchByValue value, .bucket i =>
        d = t ∧ ∃ n, t.size = i + n ∧ t.searchByValue value = t.searchByValueFrom value i n
    | deleteByKey key, .visit i prev node =>
        d = t ∧ i = hashFunction key ∧ t.VisitAt (fun node => node.key == key) i prev node
    | deleteByKey key, .unlinked a => { d with heap := d.heap.free a } = t.deleteByKey key
    | deleteByValue value, .bucket i =>
        d = t ∧ ∃ n, t.size = i + n ∧ t.deleteByValue value = t.deleteByValueFrom value i n
    | deleteByValue value, .visit i prev node =>
        d = t ∧ t.VisitAt (fun node => node.value == value) i prev node ∧
          ∃ n, t.size = i + (n + 1) ∧ t.deleteByValue value = t.deleteByValueFrom value i (n + 1)
    | deleteByValue value, .unlinked a => { d with heap := d.heap.free a } = t.deleteByValue value
    | call, .done y =>
        call.execute t = (d, call.result freed d y) ∧
          ∀ a, y = .found a → (d.heap.cells a).isSome
    | _, _ => False

variable {freed : ℕ → Node w} {t d d' : ChainTable w} {pc pc' : TablePc}

/-- A call leaves its section when it is done. -/
theorem work_inr {call : TableCall w} {y : TableLeft} (h : call.work d pc = (d', .inr y)) :
  pc = .done y ∧ d' = d
  := by
  have hinl : ∀ {d' : ChainTable w} {pc' : TablePc}, call.work d pc = (d', .inl pc') → False := by
    intro d' pc' h'
    cases h'.symm.trans h
  cases pc with
  | done y' =>
      cases call with
      | _ =>
          cases h
          exact ⟨rfl, rfl⟩
  | _ =>
      exfalso
      cases call with
      | _ =>
          simp only [work, ChainTable.insertByValueStep, ChainTable.searchByKeyStep,
            ChainTable.searchByValueStep, ChainTable.deleteByKeyStep, ChainTable.deleteByValueStep,
            ChainTable.visitStep] at h
          repeat' split at h
          all_goals cases h

section

variable {malloc : Malloc w} {key : BitVec 32} {value : BitVec w} {a current : ℕ}

/-- An insertion is done when its table is the one that the operation makes. -/
theorem During.inserted (hsound : t.Sound) {ok : Bool}
    (h : t.insertByValue malloc key value = (d, ok)) :
  During freed (insertByValue malloc key value) t d (.done (.inserted ok))
  := by
  refine ⟨hsound, ?_, ?_⟩
  · simp only [execute, apply, TableOp.apply, h, result]
  · intro a ha
    cases ha

/-- An insertion allocates its node, or fails. -/
theorem insertByValue_stay_start (hsound : t.Sound)
    (hwork : (insertByValue malloc key value).work t .start = (d', .inl pc')) :
  During freed (insertByValue malloc key value) t d' pc'
  := by
  simp only [work, ChainTable.insertByValueStep] at hwork
  cases hpick : malloc.pick t.heap with
  | none =>
      rw [hpick] at hwork
      cases hwork
      apply During.inserted hsound
      simp only [ChainTable.insertByValue, hpick]
  | some a =>
      rw [hpick] at hwork
      cases hwork
      exact ⟨hsound, hpick, rfl⟩

/-- The new node is the first of its bucket, or there is a first node from which to walk. -/
theorem insertByValue_stay_link
    (h : During freed (insertByValue malloc key value) t d (.link a))
    (hwork : (insertByValue malloc key value).work d (.link a) = (d', .inl pc')) :
  During freed (insertByValue malloc key value) t d' pc'
  := by
  obtain ⟨hsound, hpick, rfl⟩ := h
  simp only [work, ChainTable.insertByValueStep] at hwork
  cases htable : t.table (hashFunction key) with
  | none =>
      rw [htable] at hwork
      cases hwork
      apply During.inserted hsound
      simp only [ChainTable.insertByValue, hpick, htable, pushBack, ChainTable.setBucket]
  | some current =>
      rw [htable] at hwork
      cases hwork
      refine ⟨hsound, hpick, rfl, ?_⟩
      obtain ⟨live, hlive⟩ := hsound
      obtain ⟨l, hl, -⟩ := hlive.chain (hashFunction key)
      have hput := hl.put (malloc.free_of_pick _ _ hpick) ⟨⟨key, value, hashFunction key⟩, none⟩
      rw [htable] at hput
      cases l with
      | nil => cases hput
      | cons c l =>
          obtain rfl := Option.some.inj hput.1
          refine ⟨[], c.2, l, ?_⟩
          simp only [htable]
          apply hput

/-- The operation puts the new node behind the last one of its bucket. -/
theorem insertByValue_eq_setNext {h : Heap (Node w)} {l : List (ℕ × Node w)} {v : Node w}
    (hpick : malloc.pick t.heap = some a)
    (hh : h = t.heap.put a ⟨⟨key, value, hashFunction key⟩, none⟩)
    (hl : Chain h (t.table (hashFunction key)) (l ++ [(current, v)])) :
  t.insertByValue malloc key value = ({ t with heap := h.setNext current (some a) }, true)
  := by
  have hlen := hl.length_le
  rw [List.length_append] at hlen
  cases htable : t.table (hashFunction key) with
  | none =>
      rw [htable] at hl
      cases l with
      | nil => cases hl.1
      | cons c l => cases hl.1
  | some p =>
      rw [htable] at hl
      have hlast := hl.lastCell (Nat.le_of_add_right_le hlen)
      have hupdate : Function.update t.table (hashFunction key) (some p) = t.table := by
        rw [← htable, Function.update_eq_self]
      subst hh
      simp only [ChainTable.insertByValue, hpick, htable, pushBack, ChainTable.setBucket, hlast,
        hupdate]

/-- A walk goes on to the next node, or puts the new node behind the last one. -/
theorem insertByValue_stay_append
    (h : During freed (insertByValue malloc key value) t d (.append a current))
    (hwork : (insertByValue malloc key value).work d (.append a current) = (d', .inl pc')) :
  During freed (insertByValue malloc key value) t d' pc'
  := by
  obtain ⟨hsound, hpick, rfl, l₁, v, l₂, hl⟩ := h
  simp only at hl
  obtain ⟨-, next, hcell, hnext⟩ := hl.suffix
  simp only [work, ChainTable.insertByValueStep, hcell] at hwork
  cases l₂ with
  | nil =>
      obtain rfl : next = none := hnext
      cases hwork
      apply During.inserted hsound
      apply insertByValue_eq_setNext hpick rfl hl
  | cons c l₂ =>
      obtain ⟨rfl, -⟩ := hnext
      cases hwork
      refine ⟨hsound, hpick, rfl, l₁ ++ [(current, v)], c.2, l₂, ?_⟩
      rw [List.append_assoc, List.singleton_append]
      apply hl

/-- The new node is put behind the last one. -/
theorem insertByValue_stay (h : During freed (insertByValue malloc key value) t d pc)
    (hwork : (insertByValue malloc key value).work d pc = (d', .inl pc')) :
  During freed (insertByValue malloc key value) t d' pc'
  := by
  cases pc with
  | start =>
      obtain ⟨hsound, rfl⟩ := h
      apply insertByValue_stay_start hsound hwork
  | link a => apply insertByValue_stay_link h hwork
  | append a current => apply insertByValue_stay_append h hwork
  | done y => cases hwork
  | _ => cases h.2

end

/-- A search by key is done after one look at the bucket. -/
theorem searchByKey_stay {key : BitVec 32} (h : During freed (searchByKey key) t d pc)
    (hwork : (searchByKey key).work d pc = (d', .inl pc')) :
  During freed (searchByKey key) t d' pc'
  := by
  obtain ⟨hsound, h⟩ := h
  refine ⟨hsound, ?_⟩
  cases pc with
  | start =>
      obtain rfl : d = t := h
      obtain ⟨rfl, hpc⟩ := Prod.mk.inj hwork
      obtain rfl := Sum.inl.inj hpc
      obtain ⟨a, c, hstep, ha, hhead, hkey⟩ | ⟨hstep, hkey⟩ :=
        d.headStep_cases (fun node => node.key == key) (hashFunction key) (.done .missing)
      · rw [hstep]
        constructor
        · simp only [execute, apply, ChainTable.searchByKey, hhead, if_pos (beq_iff_eq.mp hkey),
            result, ChainTable.readNode, ha, Option.map_some, Option.getD_some]
        · rintro _ ⟨⟩
          rw [ha]
          rfl
      · rw [hstep]
        constructor
        · simp only [execute, apply, ChainTable.searchByKey, result]
          cases hhead : d.head (hashFunction key) with
          | none => rfl
          | some node =>
              have hne : node.key ≠ key := by
                simpa using hkey node hhead
              simp only [if_neg hne]
        · intro a ha
          cases ha
  | done y => cases hwork
  | _ => cases h

/-- A search by value looks at one bucket after the other. -/
theorem searchByValue_stay {value : BitVec w} (h : During freed (searchByValue value) t d pc)
    (hwork : (searchByValue value).work d pc = (d', .inl pc')) :
  During freed (searchByValue value) t d' pc'
  := by
  obtain ⟨hsound, h⟩ := h
  refine ⟨hsound, ?_⟩
  cases pc with
  | start =>
      obtain rfl : d = t := h
      cases hwork
      exact ⟨rfl, d.size, (Nat.zero_add _).symm, rfl⟩
  | bucket i =>
      obtain ⟨rfl, n, hsize, hfrom⟩ := h
      simp only [work, ChainTable.searchByValueStep] at hwork
      by_cases hi : i < d.size
      · rw [if_pos hi] at hwork
        obtain ⟨rfl, hpc⟩ := Prod.mk.inj hwork
        obtain rfl := Sum.inl.inj hpc
        obtain ⟨n, rfl⟩ : ∃ k, n = k + 1 := ⟨n - 1, by omega⟩
        rw [ChainTable.searchByValueFrom] at hfrom
        obtain ⟨a, c, hstep, ha, hhead, hvalue⟩ | ⟨hstep, hvalue⟩ :=
          d.headStep_cases (fun node => node.value == value) i (.bucket (i + 1))
        · simp only [hhead, if_pos (beq_iff_eq.mp hvalue)] at hfrom
          rw [hstep]
          constructor
          · simp only [execute, apply, hfrom, result, ChainTable.readNode, ha, Option.map_some,
              Option.getD_some]
          · rintro _ ⟨⟩
            rw [ha]
            rfl
        · rw [hstep]
          refine ⟨rfl, n, by omega, ?_⟩
          cases hhead : d.head i with
          | none =>
              rw [hhead] at hfrom
              apply hfrom
          | some node =>
              have hne : node.value ≠ value := by
                simpa using hvalue node hhead
              simp only [hhead, if_neg hne] at hfrom
              apply hfrom
      · rw [if_neg hi] at hwork
        cases hwork
        obtain rfl : n = 0 := by omega
        constructor
        · simp only [execute, apply, hfrom, ChainTable.searchByValueFrom, result]
        · intro a ha
          cases ha
  | done y => cases hwork
  | _ => cases h

/-- A deletion is done when its table is the one that the operation makes. -/
theorem done_of_deletes {call : TableCall w} {y : TableLeft}
    (hcall : ∀ d, call.execute t = (call.apply t, call.result freed d y))
    (hy : ∀ a, y ≠ .found a) (hd : d = call.apply t) :
  call.execute t = (d, call.result freed d y) ∧ ∀ a, y = .found a → (d.heap.cells a).isSome
  := by
  constructor
  · rw [hd]
    apply hcall
  · intro a ha
    exact absurd ha (hy a)

/-- A deletion by key goes through the nodes of the bucket. -/
theorem deleteByKey_stay {key : BitVec 32} (h : During freed (deleteByKey key) t d pc)
    (hwork : (deleteByKey key).work d pc = (d', .inl pc')) :
  During freed (deleteByKey key) t d' pc'
  := by
  obtain ⟨hsound, h⟩ := h
  refine ⟨hsound, ?_⟩
  cases pc with
  | start =>
      obtain rfl : d = t := h
      simp only [work, ChainTable.deleteByKeyStep] at hwork
      by_cases hempty : d.table (hashFunction key) = none
      · rw [if_pos hempty] at hwork
        cases hwork
        apply done_of_deletes (fun _ => rfl) (by simp)
        simp only [apply, TableOp.apply, ChainTable.deleteByKey, hempty]
        rw [(chain_nil d.heap).removeFirst_eq_none fun _ h => absurd h List.not_mem_nil]
      · rw [if_neg hempty] at hwork
        cases hwork
        obtain ⟨live, hlive⟩ := hsound
        exact ⟨rfl, rfl, .start hlive _⟩
  | visit i prev node =>
      obtain ⟨rfl, rfl, hvisit⟩ := h
      obtain ⟨rfl, rfl, hnone⟩ | ⟨a, r, rfl, hr, hd⟩ | ⟨prev', node', rfl, rfl, hvisit'⟩ :=
        hvisit.step hwork
      · apply done_of_deletes (fun _ => rfl) (by simp)
        simp only [apply, TableOp.apply, ChainTable.deleteByKey, hnone]
      · simp only [ChainTable.deleteByKey, hr]
        apply hd
      · exact ⟨rfl, rfl, hvisit'⟩
  | unlinked a =>
      cases hwork
      apply done_of_deletes (fun _ => rfl) (by simp) h
  | done y => cases hwork
  | _ => cases h

/-- A deletion by value goes through the nodes of one bucket after the other. -/
theorem deleteByValue_stay {value : BitVec w} (h : During freed (deleteByValue value) t d pc)
    (hwork : (deleteByValue value).work d pc = (d', .inl pc')) :
  During freed (deleteByValue value) t d' pc'
  := by
  obtain ⟨hsound, h⟩ := h
  refine ⟨hsound, ?_⟩
  cases pc with
  | start =>
      obtain rfl : d = t := h
      cases hwork
      exact ⟨rfl, d.size, (Nat.zero_add _).symm, rfl⟩
  | bucket i =>
      obtain ⟨rfl, n, hsize, hfrom⟩ := h
      simp only [work, ChainTable.deleteByValueStep] at hwork
      by_cases hi : i < d.size
      · rw [if_pos hi] at hwork
        cases hwork
        obtain ⟨n, rfl⟩ : ∃ k, n = k + 1 := ⟨n - 1, by omega⟩
        obtain ⟨live, hlive⟩ := hsound
        exact ⟨rfl, .start hlive _, n, hsize, hfrom⟩
      · rw [if_neg hi] at hwork
        cases hwork
        obtain rfl : n = 0 := by omega
        apply done_of_deletes (fun _ => rfl) (by simp) hfrom.symm
  | visit i prev node =>
      obtain ⟨rfl, hvisit, n, hsize, hfrom⟩ := h
      obtain ⟨rfl, rfl, hnone⟩ | ⟨a, r, rfl, hr, hd⟩ | ⟨prev', node', rfl, rfl, hvisit'⟩ :=
        hvisit.step hwork
      · refine ⟨rfl, n, by omega, ?_⟩
        rw [hfrom, ChainTable.deleteByValueFrom, hnone]
      · simp only [hfrom, ChainTable.deleteByValueFrom, hr]
        apply hd
      · exact ⟨rfl, hvisit', n, hsize, hfrom⟩
  | unlinked a =>
      cases hwork
      apply done_of_deletes (fun _ => rfl) (by simp) h
  | done y => cases hwork
  | _ => cases h

/-- The sections are those of the operations of the table. -/
theorem sections_refines (freed : ℕ → Node w) :
  (sections freed).Refines execute ChainTable.Sound (During freed)
  := by
  constructor
  · intro call t
    apply sound_apply
  · intro call t ht
    exact ⟨ht, by cases call <;> rfl⟩
  · intro call t d pc d' pc' h hwork
    cases call with
    | insertByValue malloc key value => apply insertByValue_stay h hwork
    | searchByKey key => apply searchByKey_stay h hwork
    | searchByValue value => apply searchByValue_stay h hwork
    | deleteByKey key => apply deleteByKey_stay h hwork
    | deleteByValue value => apply deleteByValue_stay h hwork
  · intro call t d pc d' y h hwork
    obtain ⟨rfl, rfl⟩ := work_inr hwork
    cases call with
    | _ => apply h.2.1
  · intro call d pc hreads
    cases call with
    | searchByKey key => cases pc <;> rfl
    | searchByValue value =>
        cases pc with
        | bucket i =>
            simp only [sections, work, ChainTable.searchByValueStep]
            split <;> rfl
        | _ => rfl
    | _ => cases hreads

/-! ### Nodes that stay -/

/-- A node that is there stays, with its key and its value. -/
def SameNode (h h' : Heap (Node w)) (a : ℕ) : Prop :=
  ∀ c, h.cells a = some c → ∃ c', h'.cells a = some c' ∧ c'.val = c.val

theorem SameNode.refl (h : Heap (Node w)) (a : ℕ) :
  SameNode h h a
  := fun c hc => ⟨c, hc, rfl⟩

theorem sameNode_setNext (h : Heap (Node w)) (a b : ℕ) (p : Option ℕ) :
  SameNode h (h.setNext b p) a
  := by
  intro c hc
  by_cases hab : a = b
  · subst hab
    exact ⟨_, Heap.setNext_cells_self hc p, rfl⟩
  · exact ⟨c, by rw [Heap.setNext_cells_of_ne _ _ hab, hc], rfl⟩

theorem sameNode_visitStep (f : Node w → Bool) (t : ChainTable w) (i : ℕ) (prev node : Option ℕ)
    (missing : TablePc) (a : ℕ) :
  SameNode t.heap (t.visitStep f i prev node missing).1.heap a
  := by
  simp only [ChainTable.visitStep]
  split
  · apply SameNode.refl
  · split
    · split
      · simp only [ChainTable.unlinkNode]
        split
        · apply SameNode.refl
        · apply sameNode_setNext
      · apply SameNode.refl
    · apply SameNode.refl

theorem sameNode_free (h : Heap (Node w)) {a b : ℕ} (hab : a ≠ b) :
  SameNode h (h.free b) a
  := fun c hc => ⟨c, by rw [Heap.free_cells_of_ne _ hab, hc], rfl⟩

/-- A step leaves every node but the one that it frees. -/
theorem sameNode_work (call : TableCall w) (t : ChainTable w) (pc : TablePc) {a : ℕ}
    (hfree : pc ≠ .unlinked a) :
  SameNode t.heap (call.work t pc).1.heap a
  := by
  cases call with
  | insertByValue malloc key value =>
      simp only [work, ChainTable.insertByValueStep]
      split
      · split
        · apply SameNode.refl
        · rename_i b hpick
          intro c hc
          refine ⟨c, ?_, rfl⟩
          rw [Heap.put_cells_of_ne, hc]
          rintro rfl
          rw [malloc.free_of_pick _ _ hpick] at hc
          cases hc
      · split
        · apply SameNode.refl
        · apply SameNode.refl
      · split
        · apply SameNode.refl
        · apply sameNode_setNext
      · apply SameNode.refl
      · apply SameNode.refl
  | searchByKey key => cases pc <;> apply SameNode.refl
  | searchByValue value =>
      simp only [work, ChainTable.searchByValueStep]
      split
      · apply SameNode.refl
      · split
        · apply SameNode.refl
        · apply SameNode.refl
      · apply SameNode.refl
      · apply SameNode.refl
  | deleteByKey key =>
      simp only [work, ChainTable.deleteByKeyStep]
      split
      · split
        · apply SameNode.refl
        · apply SameNode.refl
      · apply sameNode_visitStep
      · apply sameNode_free
        rintro rfl
        apply hfree rfl
      · apply SameNode.refl
      · apply SameNode.refl
  | deleteByValue value =>
      simp only [work, ChainTable.deleteByValueStep]
      split
      · apply SameNode.refl
      · split
        · apply SameNode.refl
        · apply SameNode.refl
      · apply sameNode_visitStep
      · apply sameNode_free
        rintro rfl
        apply hfree rfl
      · apply SameNode.refl
      · apply SameNode.refl

end TableCall

/-! ### Runs of the threads -/

namespace TableThreads

open TableCall

variable {ι : Type} {freed : ℕ → Node w}

/-- The table is created, and no thread has called an operation. -/
def start (ι : Type) (w : ℕ) : TableThreads ι w :=
  (fun _ => .idle, ⟨ChainTable.createHashTable w, .free⟩)

/-- The step does not free a node that a search found which has released the lock. -/
def NothingFreed (s : TableThreads ι w) (a : ι × Act (TableCall w)) : Prop :=
  ∀ call node, s.1 a.1 = .inside call (.unlinked node) →
    ∀ j call', s.1 j ≠ .left call' (.found node)

/-- The nodes that searches have found are in the table. -/
def Found (s : TableThreads ι w) : Prop :=
  ∀ j call node, s.1 j = .left call (.found node) → (s.2.data.heap.cells node).isSome

variable [DecidableEq ι]

/-- The nodes that searches have found stay. -/
theorem sameNode_of_step {s s' : TableThreads ι w} {a : ι × Act (TableCall w)}
    (hfree : NothingFreed s a) (hstep : (sections freed).step s a = some s') {j : ι}
    {call : TableCall w} {node : ℕ} (hj : s.1 j = .left call (.found node)) :
  SameNode s.2.data.heap s'.2.data.heap node
  := by
  obtain hdata | ⟨call', pc, hi, hdata⟩ := Sections.data_of_step hstep
  · rw [hdata]
    apply SameNode.refl
  · rw [hdata]
    apply sameNode_work
    rintro rfl
    apply hfree call' node hi j call hj

/-- Then no call that has left its section returns anything else. -/
theorem undisturbed {s : TableThreads ι w} {a : ι × Act (TableCall w)} (hfound : Found s)
    (hfree : NothingFreed s a) :
  (sections freed).Undisturbed s a
  := by
  intro s' hstep j call y hj
  have hread : ∀ node, y = .found node →
      s'.2.data.readNode freed node = s.2.data.readNode freed node := by
    rintro node rfl
    obtain ⟨c, hc⟩ := Option.isSome_iff_exists.mp (hfound j call node hj)
    obtain ⟨c', hc', hval⟩ := sameNode_of_step hfree hstep hj c hc
    simp only [ChainTable.readNode, hc, hc', Option.map_some, Option.getD_some, hval]
  cases y with
  | found node =>
      cases call with
      | searchByKey key => simp only [sections, result, hread node rfl]
      | searchByValue value => simp only [sections, result, hread node rfl]
      | _ => rfl
  | _ =>
      cases call with
      | _ => rfl

theorem Found.step {s s' : TableThreads ι w} {t : (ι → AtomicPhase (TableCall w) (TableResult w)) ×
    ChainTable w} {a : ι × Act (TableCall w)} (hfound : Found s)
    (hrel : (sections freed).Related ChainTable.Sound (During freed) s t)
    (hfree : NothingFreed s a) (hstep : (sections freed).step s a = some s') :
  Found s'
  := by
  intro j call node hj
  obtain hleft | ⟨pc, hinside, hwork⟩ := Sections.left_of_step hstep hj
  · obtain ⟨c, hc⟩ := Option.isSome_iff_exists.mp (hfound j call node hleft)
    obtain ⟨c', hc', -⟩ := sameNode_of_step hfree hstep hleft c hc
    rw [hc']
    rfl
  · obtain ⟨rfl, hdata⟩ := work_inr hwork
    have hsame := hrel.same j
    rw [hinside] at hsame
    cases ht : t.1 j with
    | called call' =>
        rw [ht] at hsame
        obtain ⟨rfl, -, hduring⟩ := hsame
        rw [hdata]
        cases call with
        | _ => apply hduring.2 node rfl
    | _ =>
        rw [ht] at hsame
        cases hsame

/-- Threads whose calls are applied at once simulate the threads on the table. -/
theorem threads_simulates (freed : ℕ → Node w) :
  Simulates ((sections freed).step (ι := ι)) (parallel (atomicStep execute)) (sections freed).shows
    NothingFreed fun s t =>
      (sections freed).Related ChainTable.Sound (During freed) s t ∧ Found s
  := by
  rintro s a s' t ⟨hrel, hfound⟩ hfree hstep
  obtain ⟨t', ht', hrel'⟩ := Sections.simulates (sections_refines freed) s a s' t hrel
    (undisturbed hfound hfree) hstep
  exact ⟨t', ht', hrel', hfound.step hrel hfree hstep⟩

end TableThreads

/-- The calls of any number of threads on a table are applied at once, each between its start and its
return, in every run in which no node is freed that a search still reads. -/
theorem table_calls_at_once {ι : Type} [DecidableEq ι] (freed : ℕ → Node w)
    (acts : List (ι × Act (TableCall w))) {s : TableThreads ι w}
    (hacts : Along (TableCall.sections freed).step TableThreads.NothingFreed
      (TableThreads.start ι w) acts)
    (hrun : run (TableCall.sections freed).step (TableThreads.start ι w) acts = some s) :
  ∃ t : (ι → AtomicPhase (TableCall w) (TableResult w)) × ChainTable w,
    run (parallel (atomicStep TableCall.execute))
      (fun _ => .idle, ChainTable.createHashTable w)
      (observed (TableCall.sections freed).step (TableCall.sections freed).shows
        (TableThreads.start ι w) acts) =
        some t ∧
    ((∀ i, s.1 i = .idle) → t.2 = s.2.data)
  := by
  have hstart : (TableCall.sections freed).Related ChainTable.Sound (TableCall.During freed)
      (TableThreads.start ι w) (fun _ => .idle, ChainTable.createHashTable w) := by
    constructor
    · exact ⟨[], ChainTable.Represents.create⟩
    · intro i
      trivial
    · intro i
      rfl
    · intro _
      rfl
  have hfound : TableThreads.Found (TableThreads.start ι w) := by
    intro j call node hj
    cases hj
  obtain ⟨t, ht, hrel, -⟩ := (TableThreads.threads_simulates freed).run ⟨hstart, hfound⟩ hacts hrun
  refine ⟨t, ht, ?_⟩
  intro hidle
  apply hrel.quiet
  intro i
  rw [hidle i]
  simp [Phase.holds]

/-- The node that a thread is about to free. -/
def TableThreads.frees : Phase (TableCall w) TablePc TableLeft → Option ℕ
  | .inside _ (.unlinked node) => some node
  | _ => none

theorem TableThreads.nothingFreed_of_frees {ι : Type} {s : TableThreads ι w}
    {a : ι × Act (TableCall w)} (h : TableThreads.frees (s.1 a.1) = none) :
  TableThreads.NothingFreed s a
  := by
  intro call node hinside
  rw [hinside] at h
  cases h

/-- A search and an insertion that overlap: the insertion waits for the lock until the search has
released it, and is done before the search returns. -/
def overlapping : List (Bool × Act (TableCall 64)) :=
  [(true, .call (.searchByKey 5)), (true, .lock), (false, .call (.insertByValue (.bump 64) 5 7)),
    (true, .step), (true, .step), (false, .lock), (false, .step), (false, .step), (false, .step),
    (false, .ret), (true, .ret)]

/-- Memory that is freed holds zeros. -/
def zeroNode (_ : ℕ) : Node 64 := ⟨0, 0, 0⟩

/-- A search and an insertion overlap. -/
theorem table_calls_at_once_overlapping :
  ∃ t : (Bool → AtomicPhase (TableCall 64) (TableResult 64)) × ChainTable 64,
    run (parallel (atomicStep TableCall.execute)) (fun _ => .idle, ChainTable.createHashTable 64)
      (observed (TableCall.sections zeroNode).step (TableCall.sections zeroNode).shows
        (TableThreads.start Bool 64) overlapping) = some t
  := by
  have hacts : Along (TableCall.sections zeroNode).step TableThreads.NothingFreed
      (TableThreads.start Bool 64) overlapping := by
    iterate 11 refine along_cons (TableThreads.nothingFreed_of_frees rfl) rfl ?_
    trivial
  obtain ⟨t, ht, -⟩ := table_calls_at_once zeroNode overlapping hacts rfl
  exact ⟨t, ht⟩

/-! ### A node that is freed under a search -/

/-- An allocator that uses the first address again when it is free. -/
def Malloc.reuse (w : ℕ) : Malloc w where
  pick h := some (if (h.cells 0).isNone then 0 else h.bound)
  free_of_pick h a ha := by
    obtain rfl := Option.some.inj ha
    split
    case isTrue h0 => apply Option.isNone_iff_eq_none.mp h0
    case isFalse => apply h.cells_of_le _ (le_refl _)

namespace TableCall

variable (freed : ℕ → Node w) {t : ChainTable w} {a : ℕ}

/-- A thread inserts into an empty bucket. -/
theorem run_insert {malloc : Malloc w} (key : BitVec 32) (value : BitVec w)
    (hpick : malloc.pick t.heap = some a)
    (hempty : t.table (hashFunction key) = none) :
  run (sections freed).threadStep (.idle, ⟨t, .free⟩)
      [.call (insertByValue malloc key value), .lock, .step, .step, .step, .ret] =
    some (.idle, ⟨{ t with
      heap := t.heap.put a ⟨⟨key, value, hashFunction key⟩, none⟩
      table := Function.update t.table (hashFunction key) (some a) }, .free⟩)
  := by
  simp [run, Sections.threadStep, Sections.acquire, sections, writes, work,
    ChainTable.insertByValueStep, RwLock.wrlock, RwLock.unlock, hpick, hempty]

/-- A thread searches for a key at the head of its bucket, up to the release of the lock. -/
theorem run_search {key : BitVec 32} {value : BitVec w} {next : Option ℕ}
    (htable : t.table (hashFunction key) = some a)
    (ha : t.heap.cells a = some ⟨⟨key, value, hashFunction key⟩, next⟩) :
  run (sections freed).threadStep (.idle, ⟨t, .free⟩)
      [.call (searchByKey key), .lock, .step, .step] =
    some (.left (searchByKey key) (.found a), ⟨t, .free⟩)
  := by
  simp [run, Sections.threadStep, Sections.acquire, sections, writes, work,
    ChainTable.searchByKeyStep, ChainTable.headStep, RwLock.rdlock, RwLock.unlock, htable, ha]

/-- A thread deletes the only node of a bucket. -/
theorem run_delete {key : BitVec 32} {value : BitVec w}
    (htable : t.table (hashFunction key) = some a)
    (ha : t.heap.cells a = some ⟨⟨key, value, hashFunction key⟩, none⟩) :
  run (sections freed).threadStep (.idle, ⟨t, .free⟩)
      [.call (deleteByKey key), .lock, .step, .step, .step, .step, .ret] =
    some (.idle, ⟨{ t with
      heap := t.heap.free a
      table := Function.update t.table (hashFunction key) none }, .free⟩)
  := by
  simp [run, Sections.threadStep, Sections.acquire, sections, writes, work,
    ChainTable.deleteByKeyStep, ChainTable.visitStep, ChainTable.unlinkNode, RwLock.wrlock,
    RwLock.unlock, htable, ha]

end TableCall

/-- The table with one node, at the address `0`. -/
def oneNode (key : BitVec 32) (value : BitVec w) : ChainTable w where
  heap := Heap.empty.put 0 ⟨⟨key, value, hashFunction key⟩, none⟩
  table := Function.update (fun _ => none) (hashFunction key) (some 0)
  size := htSz

/-- That table when the node is deleted. -/
def oneFreed (key : BitVec 32) (value : BitVec w) : ChainTable w where
  heap := (oneNode key value).heap.free 0
  table := Function.update (oneNode key value).table (hashFunction key) none
  size := htSz

theorem oneNode_table (key : BitVec 32) (value : BitVec w) :
  (oneNode key value).table (hashFunction key) = some 0
  := by
  simp only [oneNode, Function.update_self]

theorem oneNode_cells (key : BitVec 32) (value : BitVec w) :
  (oneNode key value).heap.cells 0 = some ⟨⟨key, value, hashFunction key⟩, none⟩
  := Heap.put_cells_self _ _ _

theorem oneFreed_cells (key : BitVec 32) (value : BitVec w) :
  (oneFreed key value).heap.cells 0 = none
  := by
  simp only [oneFreed, Heap.free, Function.update_self]

theorem oneFreed_table (key : BitVec 32) (value : BitVec w) (i : ℕ) :
  (oneFreed key value).table i = none
  := by
  simp only [oneFreed, oneNode]
  by_cases hi : i = hashFunction key
  · rw [hi, Function.update_self]
  · rw [Function.update_of_ne hi, Function.update_of_ne hi]

/-- One thread inserts a node; another one searches for its key, up to the release of the lock; the
first one deletes the node and inserts another one. -/
def reusedActs (key key' : BitVec 32) (value value' : BitVec w) :
    List (Bool × Act (TableCall w)) :=
  [.call (.insertByValue (.reuse w) key value), .lock, .step, .step, .step, .ret].map
      (Prod.mk false) ++
    ([.call (.searchByKey key), .lock, .step, .step].map (Prod.mk true) ++
      ([.call (.deleteByKey key), .lock, .step, .step, .step, .step, .ret].map (Prod.mk false) ++
        [.call (.insertByValue (.reuse w) key' value'), .lock, .step, .step, .step, .ret].map
          (Prod.mk false)))

/-- The search then returns the value of the other node, whatever the keys and the values are. -/
theorem search_returns_reused (freed : ℕ → Node w) (key key' : BitVec 32)
    (value value' : BitVec w) :
  ∃ s, run (TableCall.sections freed).step (TableThreads.start Bool w)
      (reusedActs key key' value value') = some s ∧
    (TableCall.sections freed).shows s (true, .ret) = [(true, .ret (.value value'))]
  := by
  have hpick : ∀ {h : Heap (Node w)}, h.cells 0 = none → (Malloc.reuse w).pick h = some 0 := by
    intro h h0
    simp only [Malloc.reuse, h0, Option.isNone_none, if_true]
  have hinsert := TableCall.run_insert freed (t := ChainTable.createHashTable w) key value
    (hpick rfl) rfl
  have hsearch := TableCall.run_search freed (oneNode_table key value) (oneNode_cells key value)
  have hdelete := TableCall.run_delete freed (oneNode_table key value) (oneNode_cells key value)
  have hinsert' := TableCall.run_insert freed key' value' (hpick (oneFreed_cells key value))
    (oneFreed_table key value _)
  refine ⟨_, run_append (run_parallel hinsert) (run_append (run_parallel hsearch)
    (run_append (run_parallel hdelete) (run_parallel hinsert'))), ?_⟩
  rfl

end SocketToRdma
