import SocketToRdma.Hash
import SocketToRdma.Lib.LinkedList

/-!
# The chained hash tables

A table has `htSz` buckets, each the pointer to a chain of nodes. The three tables of the
source, `HashTable`, `SocketHashTable` and `FDHashTable`, differ in the type of the values
only: pointers of 64 bits in the first two, an `int` in the last. `ChainTable w` is a table
whose values are words of `w` bits; its operations walk the chains through the next
pointers of the cells, except for the two searches, which look at the first node of a
bucket only. The operations of the three tables are those of `ChainTable`.
-/

namespace SocketToRdma

open LinkedList

/-- The fields of a node besides its next pointer. -/
structure Node (w : ℕ) where
  key : BitVec 32
  value : BitVec w
  index : ℕ
  deriving DecidableEq

/-- A table: its nodes and, for each bucket, the pointer to the first of them. -/
structure ChainTable (w : ℕ) where
  heap : Heap (Node w)
  table : ℕ → Option ℕ
  size : ℕ

/-- What `malloc` does for a node: it fails, or returns an address that is not in use. -/
structure Malloc (w : ℕ) where
  pick : Heap (Node w) → Option ℕ
  free_of_pick : ∀ h a, pick h = some a → h.cells a = none

/-- The allocator that returns the first address above all cells. -/
def Malloc.bump (w : ℕ) : Malloc w where
  pick h := some h.bound
  free_of_pick h a ha := by
    obtain rfl := Option.some.inj ha
    apply h.cells_of_le _ (le_refl _)

namespace ChainTable

variable {w : ℕ}

/-- `createHashTable`: the table whose buckets are all `NULL`. -/
def createHashTable (w : ℕ) : ChainTable w where
  heap := Heap.empty
  table _ := none
  size := htSz

/-- The table with the bucket `i` and the heap replaced. -/
def setBucket (t : ChainTable w) (i : ℕ) (r : Heap (Node w) × Option ℕ) : ChainTable w :=
  { t with heap := r.1, table := Function.update t.table i r.2 }

/-- `insertByValue`: a new node behind the last one of the bucket of the key. -/
def insertByValue (malloc : Malloc w) (t : ChainTable w) (key : BitVec 32) (value : BitVec w) :
    ChainTable w × Bool :=
  let index := hashFunction key
  match malloc.pick t.heap with
  | none => (t, false)
  | some newNode =>
      (t.setBucket index (pushBack t.heap (t.table index) newNode ⟨key, value, index⟩), true)

/-- The node the bucket `i` points to. -/
def head (t : ChainTable w) (i : ℕ) : Option (Node w) :=
  (t.table i).bind fun a => (t.heap.cells a).map Cell.val

/-- `searchByKey`: the value of the first node of the bucket if it has the key, else `NULL`. -/
def searchByKey (t : ChainTable w) (key : BitVec 32) : BitVec w :=
  match t.head (hashFunction key) with
  | some node => if node.key = key then node.value else 0
  | none => 0

/-- The loop of `searchByValue` from the bucket `i` on, with `n` buckets left. -/
def searchByValueFrom (t : ChainTable w) (value : BitVec w) (i : ℕ) : ℕ → BitVec 32
  | 0 => -1
  | n + 1 =>
      match t.head i with
      | some node => if node.value = value then node.key else searchByValueFrom t value (i + 1) n
      | none => searchByValueFrom t value (i + 1) n

/-- `searchByValue`: the key of the first bucket whose first node has the value, else `-1`. -/
def searchByValue (t : ChainTable w) (value : BitVec w) : BitVec 32 :=
  t.searchByValueFrom value 0 t.size

/-- `deleteByKey`: the first node of the bucket with the key is unlinked and freed. -/
def deleteByKey (t : ChainTable w) (key : BitVec 32) : ChainTable w :=
  let index := hashFunction key
  match removeFirst t.heap (fun node => node.key == key) (t.table index) with
  | some r => t.setBucket index r
  | none => t

/-- The loop of `deleteByValue` from the bucket `i` on, with `n` buckets left. -/
def deleteByValueFrom (t : ChainTable w) (value : BitVec w) (i : ℕ) : ℕ → ChainTable w
  | 0 => t
  | n + 1 =>
      match removeFirst t.heap (fun node => node.value == value) (t.table i) with
      | some r => t.setBucket i r
      | none => deleteByValueFrom t value (i + 1) n

/-- `deleteByValue`: the first node with the value, in the first bucket that has one, is
unlinked and freed. -/
def deleteByValue (t : ChainTable w) (value : BitVec w) : ChainTable w :=
  t.deleteByValueFrom value 0 t.size

/-- The nodes of the bucket `i`, in the order of its chain. -/
def bucket (t : ChainTable w) (i : ℕ) : List (Node w) :=
  toList t.heap (t.table i)

end ChainTable

/-! ### The three tables -/

/-- `HashTable`: the values are pointers to a `client_r_info`. -/
abbrev HashTable : Type := ChainTable 64

/-- `SocketHashTable`: the values are pointers to a `socket_info`. -/
abbrev SocketHashTable : Type := ChainTable 64

/-- `FDHashTable`: the values are thread ids. -/
abbrev FDHashTable : Type := ChainTable 32

/-- `createHashTable` -/
def createHashTable : HashTable := ChainTable.createHashTable 64

/-- `createSocketHashTable` -/
def createSocketHashTable : SocketHashTable := ChainTable.createHashTable 64

/-- `createFDHashTable` -/
def createFDHashTable : FDHashTable := ChainTable.createHashTable 32

/-- `insertByValue` -/
def insertByValue (malloc : Malloc 64) (hashTable : HashTable) (key : BitVec 32)
    (value : BitVec 64) : HashTable × Bool :=
  ChainTable.insertByValue malloc hashTable key value

/-- `socket_insertByValue` -/
def socketInsertByValue (malloc : Malloc 64) (hashTable : SocketHashTable) (key : BitVec 32)
    (value : BitVec 64) : SocketHashTable × Bool :=
  ChainTable.insertByValue malloc hashTable key value

/-- `fd_insertByValue` -/
def fdInsertByValue (malloc : Malloc 32) (hashTable : FDHashTable) (key value : BitVec 32) :
    FDHashTable × Bool :=
  ChainTable.insertByValue malloc hashTable key value

/-- `searchByKey` on a `HashTable` -/
def searchByKey (hashTable : HashTable) (key : BitVec 32) : BitVec 64 :=
  ChainTable.searchByKey hashTable key

/-- `socket_searchByKey` -/
def socketSearchByKey (hashTable : SocketHashTable) (key : BitVec 32) : BitVec 64 :=
  ChainTable.searchByKey hashTable key

/-- `fd_searchByKey` -/
def fdSearchByKey (hashTable : FDHashTable) (key : BitVec 32) : BitVec 32 :=
  ChainTable.searchByKey hashTable key

/-- `searchByValue` -/
def searchByValue (hashTable : HashTable) (value : BitVec 64) : BitVec 32 :=
  ChainTable.searchByValue hashTable value

/-- `socket_searchByValue` -/
def socketSearchByValue (hashTable : SocketHashTable) (value : BitVec 64) : BitVec 32 :=
  ChainTable.searchByValue hashTable value

/-- `fd_searchByValue` -/
def fdSearchByValue (hashTable : FDHashTable) (value : BitVec 32) : BitVec 32 :=
  ChainTable.searchByValue hashTable value

/-- `deleteByKey` -/
def deleteByKey (hashTable : HashTable) (key : BitVec 32) : HashTable :=
  ChainTable.deleteByKey hashTable key

/-- `socket_deleteByKey` -/
def socketDeleteByKey (hashTable : SocketHashTable) (key : BitVec 32) : SocketHashTable :=
  ChainTable.deleteByKey hashTable key

/-- `fd_deleteByKey` -/
def fdDeleteByKey (hashTable : FDHashTable) (key : BitVec 32) : FDHashTable :=
  ChainTable.deleteByKey hashTable key

/-- `deleteByValue` -/
def deleteByValue (hashTable : HashTable) (value : BitVec 64) : HashTable :=
  ChainTable.deleteByValue hashTable value

/-- `socket_deleteByValue` -/
def socketDeleteByValue (hashTable : SocketHashTable) (value : BitVec 64) : SocketHashTable :=
  ChainTable.deleteByValue hashTable value

/-- `fd_deleteByValue` -/
def fdDeleteByValue (hashTable : FDHashTable) (value : BitVec 32) : FDHashTable :=
  ChainTable.deleteByValue hashTable value

end SocketToRdma
