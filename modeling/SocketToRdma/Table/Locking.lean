import SocketToRdma.Lib.Run
import SocketToRdma.Lib.RwLock
import SocketToRdma.Table.Live

/-!
# The locks of the tables

Each table carries a read-write lock, and each of its operations takes the lock, works on the
table, and releases the lock on the path by which it returns. An operation is a partial
function of the table with its lock; it has no value when it waits for ever for a lock that another
thread has kept. The paths are those of the source: what an operation does to the table is the
operation of `ChainTable`, but a deletion by a key whose bucket is empty returns with the lock held.
-/

namespace SocketToRdma

open LinkedList Run

variable {w : ℕ}

/-- A table and its lock. -/
structure LockedTable (w : ℕ) where
  table : ChainTable w
  lock : RwLock

namespace LockedTable

/-- The table after `pthread_rwlock_rdlock`. -/
def rdlock (l : LockedTable w) : Option (LockedTable w) :=
  l.lock.rdlock.map fun lock => { l with lock }

/-- The table after `pthread_rwlock_wrlock`. -/
def wrlock (l : LockedTable w) : Option (LockedTable w) :=
  l.lock.wrlock.map fun lock => { l with lock }

/-- The table after `pthread_rwlock_unlock`. -/
def unlock (l : LockedTable w) : LockedTable w :=
  { l with lock := l.lock.unlock }

/-- The table with the bucket `i` and the heap replaced. -/
def setBucket (l : LockedTable w) (i : ℕ) (r : Heap (Node w) × Option ℕ) : LockedTable w :=
  { l with table := l.table.setBucket i r }

/-- `insertByValue` -/
def insertByValue (malloc : Malloc w) (l : LockedTable w) (key : BitVec 32) (value : BitVec w) :
    Option (LockedTable w × Bool) :=
  l.wrlock.map fun l =>
    let index := hashFunction key
    match malloc.pick l.table.heap with
    | none => (l.unlock, false)
    | some newNode =>
        ((l.setBucket index
          (pushBack l.table.heap (l.table.table index) newNode ⟨key, value, index⟩)).unlock, true)

/-- `searchByKey` -/
def searchByKey (l : LockedTable w) (key : BitVec 32) : Option (LockedTable w × BitVec w) :=
  l.rdlock.map fun l =>
    match l.table.head (hashFunction key) with
    | some node => if node.key = key then (l.unlock, node.value) else (l.unlock, 0)
    | none => (l.unlock, 0)

/-- The loop of `searchByValue` from the bucket `i` on, with `n` buckets left. -/
def searchByValueFrom (l : LockedTable w) (value : BitVec w) (i : ℕ) :
    ℕ → LockedTable w × BitVec 32
  | 0 => (l.unlock, -1)
  | n + 1 =>
      match l.table.head i with
      | some node =>
          if node.value = value then (l.unlock, node.key)
          else searchByValueFrom l value (i + 1) n
      | none => searchByValueFrom l value (i + 1) n

/-- `searchByValue` -/
def searchByValue (l : LockedTable w) (value : BitVec w) : Option (LockedTable w × BitVec 32) :=
  l.rdlock.map fun l => l.searchByValueFrom value 0 l.table.size

/-- `deleteByKey`: the path of an empty bucket does not release the lock. -/
def deleteByKey (l : LockedTable w) (key : BitVec 32) : Option (LockedTable w) :=
  l.wrlock.map fun l =>
    let index := hashFunction key
    if l.table.table index = none then l
    else
      match removeFirst l.table.heap (fun node => node.key == key) (l.table.table index) with
      | some r => (l.setBucket index r).unlock
      | none => l.unlock

/-- The loop of `deleteByValue` from the bucket `i` on, with `n` buckets left. -/
def deleteByValueFrom (l : LockedTable w) (value : BitVec w) (i : ℕ) : ℕ → LockedTable w
  | 0 => l.unlock
  | n + 1 =>
      match removeFirst l.table.heap (fun node => node.value == value) (l.table.table i) with
      | some r => (l.setBucket i r).unlock
      | none => deleteByValueFrom l value (i + 1) n

/-- `deleteByValue` -/
def deleteByValue (l : LockedTable w) (value : BitVec w) : Option (LockedTable w) :=
  l.wrlock.map fun l => l.deleteByValueFrom value 0 l.table.size

end LockedTable

/-- `HashTable` with its lock -/
abbrev LockedHashTable : Type := LockedTable 64

/-- `SocketHashTable` with its lock -/
abbrev LockedSocketHashTable : Type := LockedTable 64

/-- A call of an operation of a table; an insertion carries its allocator. -/
inductive TableCall (w : ℕ) where
  | insertByValue (malloc : Malloc w) (key : BitVec 32) (value : BitVec w)
  | searchByKey (key : BitVec 32)
  | searchByValue (value : BitVec w)
  | deleteByKey (key : BitVec 32)
  | deleteByValue (value : BitVec w)

namespace TableCall

/-- The table after a call that returns. -/
def step (l : LockedTable w) : TableCall w → Option (LockedTable w)
  | insertByValue malloc key value => (l.insertByValue malloc key value).map Prod.fst
  | searchByKey key => (l.searchByKey key).map Prod.fst
  | searchByValue value => (l.searchByValue value).map Prod.fst
  | deleteByKey key => l.deleteByKey key
  | deleteByValue value => l.deleteByValue value

/-- What a call does to the table under the lock. -/
def apply (t : ChainTable w) : TableCall w → ChainTable w
  | insertByValue malloc key value => (TableOp.insertByValue malloc key value).apply t
  | searchByKey _ => t
  | searchByValue _ => t
  | deleteByKey key => (TableOp.deleteByKey key).apply t
  | deleteByValue value => (TableOp.deleteByValue value).apply t

/-- The call is a deletion by a key whose bucket is empty. -/
def EmptyBucket (t : ChainTable w) : TableCall w → Prop
  | deleteByKey key => t.table (hashFunction key) = none
  | _ => False

instance (t : ChainTable w) (call : TableCall w) : Decidable (call.EmptyBucket t) := by
  cases call <;> unfold EmptyBucket <;> infer_instance

end TableCall

/-! ### The operations under the lock -/

namespace LockedTable

/-- A search by value under the lock finds what the search of the table finds, and releases
the lock whichever way it leaves its loop. -/
theorem searchByValueFrom_eq (l : LockedTable w) (value : BitVec w) (i n : ℕ) :
  l.searchByValueFrom value i n = (l.unlock, l.table.searchByValueFrom value i n)
  := by
  induction n generalizing i with
  | zero => rfl
  | succ n ih =>
      rw [searchByValueFrom, ChainTable.searchByValueFrom, ih]
      cases l.table.head i with
      | none => rfl
      | some node =>
          by_cases hvalue : node.value = value
          · simp only [if_pos hvalue]
          · simp only [if_neg hvalue]

/-- A deletion by value under the lock is the deletion of the table, and releases the lock
whichever way it leaves its loop. -/
theorem deleteByValueFrom_eq (l : LockedTable w) (value : BitVec w) (i n : ℕ) :
  l.deleteByValueFrom value i n = ⟨l.table.deleteByValueFrom value i n, l.lock.unlock⟩
  := by
  induction n generalizing i with
  | zero => rfl
  | succ n ih =>
      rw [deleteByValueFrom, ChainTable.deleteByValueFrom, ih]
      cases removeFirst l.table.heap (fun node => node.value == value) (l.table.table i) with
      | none => rfl
      | some r => rfl

end LockedTable

namespace TableCall

/-- A deletion by key keeps the lock exactly when the bucket of the key is empty. -/
theorem deleteByKey_free (t : ChainTable w) (key : BitVec 32) :
  LockedTable.deleteByKey ⟨t, .free⟩ key =
    some ⟨t.deleteByKey key, if t.table (hashFunction key) = none then .write else .free⟩
  := by
  simp only [LockedTable.deleteByKey, LockedTable.wrlock, RwLock.wrlock, Option.map_some,
    ChainTable.deleteByKey]
  congr 1
  by_cases hempty : t.table (hashFunction key) = none
  · rw [if_pos hempty, if_pos hempty, hempty,
      (chain_nil t.heap).removeFirst_eq_none fun _ h => absurd h List.not_mem_nil]
  · rw [if_neg hempty, if_neg hempty]
    cases removeFirst t.heap (fun node => node.key == key) (t.table (hashFunction key)) with
    | none => rfl
    | some r => rfl

/-- A call on a table whose lock is free returns; the table is what the operation of the table
makes it, and the lock is free again unless the call is a deletion from an empty bucket. -/
theorem step_free (t : ChainTable w) (call : TableCall w) :
  step ⟨t, .free⟩ call =
    some ⟨call.apply t, if call.EmptyBucket t then .write else .free⟩
  := by
  cases call with
  | insertByValue malloc key value =>
      simp only [step, LockedTable.insertByValue, LockedTable.wrlock, RwLock.wrlock,
        Option.map_some, EmptyBucket, apply, TableOp.apply, ChainTable.insertByValue]
      cases malloc.pick t.heap <;> rfl
  | searchByKey key =>
      simp only [step, LockedTable.searchByKey, LockedTable.rdlock, RwLock.rdlock,
        Option.map_some, EmptyBucket, apply]
      split
      · split <;> rfl
      · rfl
  | searchByValue value =>
      simp only [step, LockedTable.searchByValue, LockedTable.rdlock, RwLock.rdlock,
        Option.map_some, LockedTable.searchByValueFrom_eq]
      rfl
  | deleteByKey key => apply deleteByKey_free
  | deleteByValue value =>
      simp only [step, LockedTable.deleteByValue, LockedTable.wrlock, RwLock.wrlock,
        Option.map_some, LockedTable.deleteByValueFrom_eq]
      rfl

/-! ### Sequences of calls -/

/-- The call finds the lock free, and the lock is free again when it returns. -/
def Releases (l : LockedTable w) (call : TableCall w) : Prop :=
  l.lock = .free ∧ ∃ l', step l call = some l' ∧ l'.lock = .free

theorem releases_free_iff (t : ChainTable w) (call : TableCall w) :
  Releases ⟨t, .free⟩ call ↔ ¬ call.EmptyBucket t
  := by
  simp only [Releases, step_free, Option.some.injEq, exists_eq_left', true_and]
  split
  case isTrue h => simp [h]
  case isFalse h => simp [h]

/-- Every call of a sequence finds the lock free and releases it exactly when no deletion by
key meets an empty bucket. -/
theorem releases_along_iff (t : ChainTable w) (calls : List (TableCall w)) :
  Along step Releases ⟨t, .free⟩ calls ↔
    Along step (fun l call => ¬ call.EmptyBucket l.table) ⟨t, .free⟩ calls
  := by
  induction calls generalizing t with
  | nil => rfl
  | cons call calls ih =>
      rw [Along, Along, releases_free_iff, step_free]
      apply and_congr_right
      intro hbucket
      rw [if_neg hbucket]
      constructor
      · rintro h _ ⟨⟩
        apply (ih _).mp (h _ rfl)
      · rintro h _ ⟨⟩
        apply (ih _).mpr (h _ rfl)

/-- A deletion by key from a table that was just created keeps the lock. -/
theorem step_deleteByKey_create (key : BitVec 32) :
  step ⟨ChainTable.createHashTable w, .free⟩ (deleteByKey key) =
    some ⟨ChainTable.deleteByKey (ChainTable.createHashTable w) key, .write⟩
  := by
  rw [step, deleteByKey_free]
  rfl

/-- Two deletions from a table that was just created, by two threads: the first one keeps the lock,
and the second one waits for it for ever. -/
theorem delete_twice_blocks :
  ¬ Along step Releases ⟨createHashTable, .free⟩ [deleteByKey 0#32, deleteByKey 0#32] ∧
    run step ⟨createHashTable, .free⟩ [deleteByKey 0#32, deleteByKey 0#32] = none
  := by
  constructor
  · rintro ⟨⟨-, l, hl, hfree⟩, -⟩
    obtain rfl := Option.some.inj ((step_deleteByKey_create 0#32).symm.trans hl)
    cases hfree
  · rw [run, createHashTable, step_deleteByKey_create]
    rfl

end TableCall

end SocketToRdma
