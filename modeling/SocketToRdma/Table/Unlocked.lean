import SocketToRdma.Lib.Parallel
import SocketToRdma.Table.Concurrent

/-!
# The tables of the host, step by step

The tables of the host have no lock, and its threads insert into them and search them at the same
time. A step reads or writes one pointer or one node; a pointer that is tested and then followed is
read once.

An insertion is poised when it has read the null pointer that it will replace. As long as no other
insertion is poised at the bucket where one replaces it, all insertions and searches happen at once,
each between its start and its return. When two are poised at one bucket, both return `true`, and
the node that is linked first is lost.
-/

namespace SocketToRdma

open LinkedList Run

variable {w : ℕ}

/-- A call on a table of the host. -/
inductive HostTableCall (w : ℕ) where
  | insertByValue (malloc : Malloc w) (key : BitVec 32) (value : BitVec w)
  | searchByKey (key : BitVec 32)

/-- Where a call is: at its start; an insertion with a new node before it reads the bucket, after it
read `NULL` there, in the loop for the end of the chain, and after it read `NULL` there; a search
with the pointer that it read; before its return. -/
inductive HostTablePc (w : ℕ) where
  | start
  | link (newNode : ℕ)
  | first (newNode : ℕ)
  | walk (newNode current : ℕ)
  | last (newNode current : ℕ)
  | look (node : Option ℕ)
  | done (r : TableResult w)

/-- A thread calls nothing, or is in a call. -/
inductive HostTablePhase (w : ℕ) where
  | idle
  | busy (call : HostTableCall w) (pc : HostTablePc w)

/-- What a thread does. -/
inductive HostTableAct (w : ℕ) where
  | call (c : HostTableCall w)
  | step
  | ret

namespace ChainTable

/-- The node that an insertion makes. -/
def newNode (key : BitVec 32) (value : BitVec w) : Node w :=
  ⟨key, value, hashFunction key⟩

/-- What a search finds at a node. -/
def valueAt (t : ChainTable w) (key : BitVec 32) (node : Option ℕ) : BitVec w :=
  match node.bind fun a => (t.heap.cells a).map Cell.val with
  | some node => if node.key = key then node.value else 0
  | none => 0

end ChainTable

namespace HostTableCall

/-- The next step of `insertByValue`; it stops at a pointer that leads nowhere. -/
def insertStep (malloc : Malloc w) (key : BitVec 32) (value : BitVec w) (t : ChainTable w) :
    HostTablePc w → Option (HostTablePc w × ChainTable w)
  | .start =>
      match malloc.pick t.heap with
      | none => some (.done (.inserted false), t)
      | some a =>
          some (.link a, { t with heap := t.heap.put a ⟨ChainTable.newNode key value, none⟩ })
  | .link a =>
      match t.table (hashFunction key) with
      | none => some (.first a, t)
      | some current => some (.walk a current, t)
  | .first a =>
      some (.done (.inserted true),
        { t with table := Function.update t.table (hashFunction key) (some a) })
  | .walk a current =>
      match t.heap.cells current with
      | some ⟨_, some next⟩ => some (.walk a next, t)
      | some ⟨_, none⟩ => some (.last a current, t)
      | none => none
  | .last a current =>
      some (.done (.inserted true), { t with heap := t.heap.setNext current (some a) })
  | .look _ => none
  | .done _ => none

/-- The next step of `searchByKey`. -/
def searchStep (key : BitVec 32) (t : ChainTable w) :
    HostTablePc w → Option (HostTablePc w × ChainTable w)
  | .start => some (.look (t.table (hashFunction key)), t)
  | .look node => some (.done (.value (t.valueAt key node)), t)
  | _ => none

/-- The next step of a call. -/
def work : HostTableCall w → ChainTable w → HostTablePc w → Option (HostTablePc w × ChainTable w)
  | insertByValue malloc key value => insertStep malloc key value
  | searchByKey key => searchStep key

end HostTableCall

/-- Threads of the host, and a table that they share. -/
abbrev HostThreads (ι : Type) (w : ℕ) : Type := (ι → HostTablePhase w) × ChainTable w

namespace HostThreads

/-- A step of a thread. -/
def threadStep :
    HostTablePhase w × ChainTable w → HostTableAct w → Option (HostTablePhase w × ChainTable w)
  | (.idle, t), .call c => some (.busy c .start, t)
  | (.busy c pc, t), .step => (c.work t pc).map fun r => (.busy c r.1, r.2)
  | (.busy _ (.done _), t), .ret => some (.idle, t)
  | _, _ => none

variable {ι : Type}

/-- The table is created, and no thread has called an operation. -/
def start (ι : Type) (w : ℕ) : HostThreads ι w :=
  (fun _ => .idle, ChainTable.createHashTable w)

/-- A step of one of the threads. -/
def step [DecidableEq ι] : HostThreads ι w → ι × HostTableAct w → Option (HostThreads ι w) :=
  parallel threadStep

end HostThreads

namespace HostTablePhase

/-- The node of an insertion that is not linked yet. -/
def node : HostTablePhase w → Option ℕ
  | .busy _ (.link a) => some a
  | .busy _ (.first a) => some a
  | .busy _ (.walk a _) => some a
  | .busy _ (.last a _) => some a
  | _ => none

/-- The bucket at which an insertion is poised. -/
def poised : HostTablePhase w → Option ℕ
  | .busy (.insertByValue _ key _) (.first _) => some (hashFunction key)
  | .busy (.insertByValue _ key _) (.last _ _) => some (hashFunction key)
  | _ => none

end HostTablePhase

/-- A thread that replaces a null pointer is the only one that is poised at the bucket. -/
def HostThreads.Apart {ι : Type} (s : HostThreads ι w) (a : ι × HostTableAct w) : Prop :=
  ∀ i, (s.1 a.1).poised = some i → ∀ j ≠ a.1, (s.1 j).poised ≠ some i

/-! ### Calls that happen at once -/

/-- A thread whose calls happen at once. -/
inductive AtOncePhase (w : ℕ) where
  | idle
  | called (c : HostTableCall w)
  | answered (r : TableResult w)

/-- What such a thread does; `noMemory` is an insertion for which `malloc` fails. -/
inductive AtOnceAct (w : ℕ) where
  | call (c : HostTableCall w)
  | exec
  | noMemory
  | ret (r : TableResult w)

/-- What the buckets hold. -/
abbrev Buckets (w : ℕ) : Type := ℕ → List (Node w)

/-- The buckets with a node added to one of them. -/
def Buckets.add (g : Buckets w) (i : ℕ) (l : List (Node w)) : Buckets w :=
  Function.update g i (g i ++ l)

/-- What a search finds in a bucket: the value of its first node, if that has the key. -/
def Buckets.search (g : Buckets w) (key : BitVec 32) : BitVec w :=
  match (g (hashFunction key)).head? with
  | some node => if node.key = key then node.value else 0
  | none => 0

/-- A step of a thread whose calls happen at once. -/
def atOnceStep : AtOncePhase w × Buckets w → AtOnceAct w → Option (AtOncePhase w × Buckets w)
  | (.idle, g), .call c => some (.called c, g)
  | (.called (.insertByValue _ key value), g), .exec =>
      some (.answered (.inserted true), g.add (hashFunction key) [ChainTable.newNode key value])
  | (.called (.insertByValue _ _ _), g), .noMemory => some (.answered (.inserted false), g)
  | (.called (.searchByKey key), g), .exec => some (.answered (.value (g.search key)), g)
  | (.answered r, g), .ret r' => if r = r' then some (.idle, g) else none
  | _, _ => none

/-- What a step of a thread shows: an insertion happens when its node is linked, a search when it
reads the bucket. -/
def HostThreads.threadShows : HostTablePhase w × ChainTable w → HostTableAct w → List (AtOnceAct w)
  | (.idle, _), .call c => [.call c]
  | (.busy (.insertByValue malloc _ _) .start, t), .step =>
      if malloc.pick t.heap = none then [.noMemory] else []
  | (.busy (.insertByValue _ _ _) (.first _), _), .step => [.exec]
  | (.busy (.insertByValue _ _ _) (.last _ _), _), .step => [.exec]
  | (.busy (.searchByKey _) .start, _), .step => [.exec]
  | (.busy _ (.done r), _), .ret => [.ret r]
  | _, _ => []

/-- What a step of one of the threads shows. -/
def HostThreads.shows {ι : Type} : HostThreads ι w → ι × HostTableAct w → List (ι × AtOnceAct w) :=
  parallelObs HostThreads.threadShows

/-! ### How a table grows -/

namespace Buckets

@[simp]
theorem add_nil (g : Buckets w) (i : ℕ) :
  g.add i [] = g
  := by
  rw [add, List.append_nil, Function.update_eq_self]

end Buckets

namespace ChainTable

/-- The buckets hold the nodes, and each node has a key of its bucket. -/
def Holds (t : ChainTable w) (g : Buckets w) : Prop :=
  ∀ i, ∃ l, Chain t.heap (t.table i) l ∧ l.map Prod.snd = g i ∧ ∀ c ∈ l, hashFunction c.2.key = i

/-- A node that is in no chain, with nothing behind it. -/
structure Unlinked (t : ChainTable w) (a : ℕ) (node : Node w) : Prop where
  cell : t.heap.cells a = some ⟨node, none⟩
  outside : ∀ i l, Chain t.heap (t.table i) l → ∀ c ∈ l, c.1 ≠ a

/-- The chain of the bucket `i` grows at its end, and the other chains stay; nodes keep what is in
them, and those that are not linked keep their pointers. -/
structure Grows (t t' : ChainTable w) (i : ℕ) (added : List (ℕ × Node w)) : Prop where
  chain : ∀ j l, Chain t.heap (t.table j) l →
    Chain t'.heap (t'.table j) (if j = i then l ++ added else l)
  cells : ∀ a node, t.Unlinked a node → t'.heap.cells a = t.heap.cells a
  val : ∀ a c, t.heap.cells a = some c → ∃ c', t'.heap.cells a = some c' ∧ c'.val = c.val

/-- The chain of the bucket `i` becomes `l`, and all else is as when a table grows. -/
structure Sets (t t' : ChainTable w) (i : ℕ) (l : List (ℕ × Node w)) : Prop where
  chain : Chain t'.heap (t'.table i) l
  others : ∀ j ≠ i, ∀ l', Chain t.heap (t.table j) l' → Chain t'.heap (t'.table j) l'
  cells : ∀ a node, t.Unlinked a node → t'.heap.cells a = t.heap.cells a
  val : ∀ a c, t.heap.cells a = some c → ∃ c', t'.heap.cells a = some c' ∧ c'.val = c.val

variable {t t' : ChainTable w} {g : Buckets w} {i a : ℕ} {added : List (ℕ × Node w)}

theorem Grows.refl (t : ChainTable w) (i : ℕ) :
  t.Grows t i []
  := by
  constructor
  · intro j l hl
    rw [List.append_nil, ite_self]
    apply hl
  · intro _ _ _
    rfl
  · intro a c hc
    exact ⟨c, hc, rfl⟩

/-- A chain that is set to what it held and more has grown. -/
theorem Sets.grows {l : List (ℕ × Node w)} (h : t.Sets t' i (l ++ added))
    (hl : Chain t.heap (t.table i) l) :
  t.Grows t' i added
  := by
  constructor
  · intro j l' hl'
    by_cases hji : j = i
    · subst hji
      rw [if_pos rfl, hl'.unique hl]
      apply h.chain
    · rw [if_neg hji]
      apply h.others j hji l' hl'
  · apply h.cells
  · apply h.val

theorem Holds.grows (h : t.Holds g) (hgrow : t.Grows t' i added)
    (hhash : ∀ c ∈ added, hashFunction c.2.key = i) :
  t'.Holds (g.add i (added.map Prod.snd))
  := by
  intro j
  obtain ⟨l, hl, hg, hkey⟩ := h j
  refine ⟨_, hgrow.chain j l hl, ?_⟩
  by_cases hji : j = i
  · subst hji
    rw [if_pos rfl, List.map_append, hg, Buckets.add, Function.update_self]
    refine ⟨rfl, ?_⟩
    intro c hc
    obtain hc | hc := List.mem_append.mp hc
    · apply hkey c hc
    · apply hhash c hc
  · rw [if_neg hji, Buckets.add, Function.update_of_ne hji]
    exact ⟨hg, hkey⟩

/-- A node that is not the one linked stays unlinked. -/
theorem Unlinked.grows {node : Node w} (h : t.Unlinked a node) (hholds : t.Holds g)
    (hgrow : t.Grows t' i added) (hadded : ∀ c ∈ added, c.1 ≠ a) :
  t'.Unlinked a node
  := by
  constructor
  · rw [hgrow.cells a node h]
    apply h.cell
  · intro j l' hl' c hc
    obtain ⟨l, hl, -⟩ := hholds j
    rw [hl'.unique (hgrow.chain j l hl)] at hc
    split_ifs at hc
    · obtain hc | hc := List.mem_append.mp hc
      · apply h.outside j l hl c hc
      · apply hadded c hc
    · apply h.outside j l hl c hc

/-- `malloc` returns a node that is not linked. -/
theorem grows_put (hfree : t.heap.cells a = none) (c : Cell (Node w)) (i : ℕ) :
  t.Grows { t with heap := t.heap.put a c } i []
  := by
  have hne : ∀ {b c'}, t.heap.cells b = some c' → b ≠ a := by
    rintro b c' hb rfl
    rw [hfree] at hb
    cases hb
  constructor
  · intro j l hl
    rw [List.append_nil, ite_self]
    apply hl.put hfree
  · intro b node hb
    apply Heap.put_cells_of_ne _ _ (hne hb.cell)
  · intro b c' hb
    exact ⟨c', (Heap.put_cells_of_ne _ _ (hne hb)).trans hb, rfl⟩

theorem unlinked_put (hholds : t.Holds g) (hfree : t.heap.cells a = none) (node : Node w) :
  ChainTable.Unlinked { t with heap := t.heap.put a ⟨node, none⟩ } a node
  := by
  constructor
  · apply Heap.put_cells_self
  · rintro j l' hl' c hc rfl
    obtain ⟨l, hl, -⟩ := hholds j
    rw [hl'.unique (hl.put hfree _)] at hc
    obtain ⟨c', hc'⟩ := hl.has hc
    rw [hfree] at hc'
    cases hc'

/-- The chains of two buckets have no node in common. -/
theorem Holds.disjoint (h : t.Holds g) {j : ℕ} (hji : j ≠ i) {l l' : List (ℕ × Node w)}
    (hl : Chain t.heap (t.table i) l) (hl' : Chain t.heap (t.table j) l') {c d : ℕ × Node w}
    (hc : c ∈ l) (hd : d ∈ l') :
  d.1 ≠ c.1
  := by
  intro hdc
  obtain ⟨l₁, hl₁, -, hkey⟩ := h i
  obtain ⟨l₂, hl₂, -, hkey'⟩ := h j
  obtain ⟨q, hq⟩ := hl.cell hc
  obtain ⟨q', hq'⟩ := hl'.cell hd
  rw [hdc, hq] at hq'
  obtain ⟨hval, -⟩ := Cell.mk.inj (Option.some.inj hq')
  -- a node has one key, and a key one bucket
  have hci := hkey c (hl.unique hl₁ ▸ hc)
  have hdj := hkey' d (hl'.unique hl₂ ▸ hd)
  apply hji
  rw [← hdj, ← hci, hval]

/-- The pointer of a bucket is set to a node that is not linked. -/
theorem Unlinked.setFirst {node : Node w} (h : t.Unlinked a node) (i : ℕ) :
  t.Sets { t with table := Function.update t.table i (some a) } i [(a, node)]
  := by
  constructor
  · simp only [Function.update_self]
    apply Chain.cons h.cell (chain_nil _)
  · intro j hji l' hl'
    simp only [Function.update_of_ne hji]
    apply hl'
  · intro _ _ _
    rfl
  · intro b c hc
    exact ⟨c, hc, rfl⟩

/-- A node of a chain is pointed to one that is not linked; what was behind it is dropped. -/
theorem Unlinked.setLast {node : Node w} (h : t.Unlinked a node) (hholds : t.Holds g)
    {l₁ l₂ : List (ℕ × Node w)} {c : ℕ × Node w}
    (hl : Chain t.heap (t.table i) (l₁ ++ c :: l₂)) :
  t.Sets { t with heap := t.heap.setNext c.1 (some a) } i (l₁ ++ [c] ++ [(a, node)])
  := by
  constructor
  · rw [List.append_assoc]
    apply hl.link h.cell (h.outside i _ hl)
  · intro j hji l' hl'
    apply hl'.frame
    intro d hd
    apply Heap.setNext_cells_of_ne
    apply hholds.disjoint hji hl hl' (by simp) hd
  · intro b node' hb
    apply Heap.setNext_cells_of_ne
    exact (hb.outside i _ hl c (by simp)).symm
  · intro b c' hb
    apply TableCall.sameNode_setNext _ _ _ _ c' hb

end ChainTable

/-! ### Calls under way -/

/-- What holds of an insertion under way. -/
def ChainTable.InsertAt (t : ChainTable w) (key : BitVec 32) (value : BitVec w) :
    HostTablePc w → Prop
  | .start => True
  | .link a => t.Unlinked a (newNode key value)
  | .first a => t.Unlinked a (newNode key value) ∧ Chain t.heap (t.table (hashFunction key)) []
  | .walk a current =>
      t.Unlinked a (newNode key value) ∧
        ∃ l₁ v l₂, Chain t.heap (t.table (hashFunction key)) (l₁ ++ (current, v) :: l₂)
  | .last a current =>
      t.Unlinked a (newNode key value) ∧
        ∃ l v, Chain t.heap (t.table (hashFunction key)) (l ++ [(current, v)])
  | .look _ => False
  | .done _ => False

namespace HostThreads

/-- A thread is with the same call as one whose calls happen at once. -/
def SameCall (t : ChainTable w) : HostTablePhase w → AtOncePhase w → Prop
  | .idle, .idle => True
  | .busy _ (.done r), .answered r' => r = r'
  | .busy (.searchByKey key) (.look node), .answered r =>
      r = .value (t.valueAt key node) ∧ ∀ a, node = some a → t.heap.Has a
  | .busy (.insertByValue malloc key value) pc, .called c =>
      c = .insertByValue malloc key value ∧ t.InsertAt key value pc
  | .busy (.searchByKey key) .start, .called c => c = .searchByKey key
  | _, _ => False

variable {t t' : ChainTable w} {g : Buckets w} {k : ℕ} {added : List (ℕ × Node w)}
  {p : HostTablePhase w} {q : AtOncePhase w}

/-- What a search finds at a node stays when the table grows. -/
theorem valueAt_grows (h : t.Grows t' k added) (key : BitVec 32) {node : Option ℕ}
    (hnode : ∀ a, node = some a → t.heap.Has a) :
  t'.valueAt key node = t.valueAt key node ∧ ∀ a, node = some a → t'.heap.Has a
  := by
  cases node with
  | none => exact ⟨rfl, by simp⟩
  | some a =>
      obtain ⟨c, hc⟩ := hnode a rfl
      obtain ⟨c', hc', hval⟩ := h.val a c hc
      constructor
      · simp only [ChainTable.valueAt, Option.bind_some, hc, hc', Option.map_some, hval]
      · rintro _ ⟨⟩
        exact ⟨c', hc'⟩

/-- An insertion under way goes on when the table grows, unless it is poised where it grows. -/
theorem insertAt_grows {malloc : Malloc w} {key : BitVec 32} {value : BitVec w} {pc : HostTablePc w}
    (h : t.InsertAt key value pc) (hholds : t.Holds g) (hgrow : t.Grows t' k added)
    (hnode : ∀ c ∈ added,
      (HostTablePhase.busy (.insertByValue malloc key value) pc).node ≠ some c.1)
    (hpoised : added ≠ [] →
      (HostTablePhase.busy (.insertByValue malloc key value) pc).poised ≠ some k) :
  t'.InsertAt key value pc
  := by
  have hstays : ∀ a, (HostTablePhase.busy (.insertByValue malloc key value) pc).node = some a →
      t.Unlinked a (ChainTable.newNode key value) →
      t'.Unlinked a (ChainTable.newNode key value) := by
    intro a ha hunlinked
    apply hunlinked.grows hholds hgrow
    rintro c hc rfl
    apply hnode c hc ha
  -- an insertion that is poised finds the chain of its bucket as it was
  have hsame : (HostTablePhase.busy (.insertByValue malloc key value) pc).poised =
      some (hashFunction key) → ∀ l, Chain t.heap (t.table (hashFunction key)) l →
        Chain t'.heap (t'.table (hashFunction key)) l := by
    intro hp l hl
    have hl' := hgrow.chain _ l hl
    split_ifs at hl' with hk
    · have hnil : added = [] := by
        by_contra hne
        apply hpoised hne
        rw [hp, hk]
      rw [hnil, List.append_nil] at hl'
      apply hl'
    · apply hl'
  cases pc with
  | start => trivial
  | link a => apply hstays a rfl h
  | first a => exact ⟨hstays a rfl h.1, hsame rfl _ h.2⟩
  | walk a current =>
      obtain ⟨hunlinked, l₁, v, l₂, hl⟩ := h
      refine ⟨hstays a rfl hunlinked, l₁, v, ?_⟩
      have hl' := hgrow.chain _ _ hl
      split_ifs at hl'
      · rw [List.append_assoc, List.cons_append] at hl'
        exact ⟨_, hl'⟩
      · exact ⟨_, hl'⟩
  | last a current =>
      obtain ⟨hunlinked, l, v, hl⟩ := h
      exact ⟨hstays a rfl hunlinked, l, v, hsame rfl _ hl⟩
  | look node => cases h
  | done r => cases h

/-- An insertion that is not done is with a call that has not happened. -/
theorem SameCall.insertAt {malloc : Malloc w} {key : BitVec 32} {value : BitVec w}
    {pc : HostTablePc w} (h : SameCall t (.busy (.insertByValue malloc key value) pc) q)
    (hpc : ∀ r, pc ≠ .done r) :
  q = .called (.insertByValue malloc key value) ∧ t.InsertAt key value pc
  := by
  cases q with
  | called c =>
      obtain ⟨rfl, hat⟩ : c = .insertByValue malloc key value ∧ t.InsertAt key value pc := by
        cases pc <;> exact h
      exact ⟨rfl, hat⟩
  | idle => cases pc <;> cases h
  | answered r =>
      cases pc with
      | done r => exact absurd rfl (hpc r)
      | _ => cases h

/-- A call that is done is with one that has happened, with the same result. -/
theorem SameCall.done {c : HostTableCall w} {r : TableResult w}
    (h : SameCall t (.busy c (.done r)) q) :
  q = .answered r
  := by
  cases q with
  | answered r' =>
      obtain rfl : r = r' := by
        cases c <;> exact h
      rfl
  | idle => cases c <;> cases h
  | called c' =>
      cases c with
      | insertByValue malloc key value => cases h.2
      | searchByKey key => cases h

/-- A call goes on when the table grows, unless it is an insertion that is poised where it grows. -/
theorem SameCall.grows (h : SameCall t p q) (hholds : t.Holds g) (hgrow : t.Grows t' k added)
    (hnode : ∀ c ∈ added, p.node ≠ some c.1) (hpoised : added ≠ [] → p.poised ≠ some k) :
  SameCall t' p q
  := by
  cases p with
  | idle => cases q <;> exact h
  | busy c pc =>
      cases c with
      | insertByValue malloc key value =>
          cases pc with
          | done r => cases q <;> exact h
          | _ =>
              obtain ⟨rfl, hat⟩ := h.insertAt (by simp)
              exact ⟨rfl, insertAt_grows hat hholds hgrow hnode hpoised⟩
      | searchByKey key =>
          cases pc with
          | look node =>
              cases q with
              | answered r =>
                  obtain ⟨rfl, hnode⟩ := h
                  obtain ⟨hvalue, hnode'⟩ := valueAt_grows hgrow key hnode
                  exact ⟨by rw [hvalue], hnode'⟩
              | _ => cases h
          | _ => cases q <;> exact h

/-- A node that an insertion has not linked yet is not linked. -/
theorem SameCall.unlinked (h : SameCall t p q) {a : ℕ} (ha : p.node = some a) :
  ∃ node, t.Unlinked a node
  := by
  cases p with
  | idle => cases ha
  | busy c pc =>
      cases c with
      | insertByValue malloc key value =>
          have hat := (h.insertAt (by rintro r rfl; cases ha)).2
          use ChainTable.newNode key value
          cases pc with
          | link b =>
              cases ha
              apply hat
          | first b =>
              cases ha
              apply hat.1
          | walk b current =>
              cases ha
              apply hat.1
          | last b current =>
              cases ha
              apply hat.1
          | _ => cases ha
      | searchByKey key =>
          cases pc with
          | start | look | done => cases ha
          | _ => cases q <;> cases h

variable {ι : Type}

/-- The threads are with the same calls, the buckets hold the same nodes, and no two insertions have
the same node. -/
structure Related (s : HostThreads ι w) (u : (ι → AtOncePhase w) × Buckets w) : Prop where
  holds : s.2.Holds u.2
  same : ∀ i, SameCall s.2 (s.1 i) (u.1 i)
  distinct : ∀ i j a, (s.1 i).node = some a → (s.1 j).node = some a → i = j

theorem Related.start :
  Related (start ι w) (fun _ => .idle, fun _ => [])
  := by
  constructor
  · intro i
    exact ⟨[], chain_nil _, rfl, by simp⟩
  · intro i
    trivial
  · intro i j a ha
    cases ha

variable [DecidableEq ι] {s : HostThreads ι w} {u : (ι → AtOncePhase w) × Buckets w} {i : ι}

/-- A step of one thread, which adds nothing to the table or the node of its insertion. -/
theorem Related.update (h : Related s u) (hgrow : s.2.Grows t' k added)
    (hhash : ∀ c ∈ added, hashFunction c.2.key = k) (hp : SameCall t' p q)
    (hnode : ∀ a, p.node = some a → (s.1 i).node = some a ∨ s.2.heap.cells a = none)
    (hadded : ∀ c ∈ added, (s.1 i).node = some c.1)
    (hpoised : added ≠ [] → ∀ j ≠ i, (s.1 j).poised ≠ some k) :
  Related (Function.update s.1 i p, t') (Function.update u.1 i q, u.2.add k (added.map Prod.snd))
  := by
  have hfresh : ∀ j ≠ i, ∀ a, p.node = some a → (s.1 j).node ≠ some a := by
    intro j hji a ha hj
    obtain hi | hfree := hnode a ha
    · apply hji (h.distinct j i a hj hi)
    · obtain ⟨node, hunlinked⟩ := (h.same j).unlinked hj
      rw [hunlinked.cell] at hfree
      cases hfree
  constructor
  · apply h.holds.grows hgrow hhash
  · intro j
    by_cases hji : j = i
    · subst hji
      simp only [Function.update_self]
      apply hp
    · simp only [Function.update_of_ne hji]
      apply (h.same j).grows h.holds hgrow
      · intro c hc hj
        apply hji (h.distinct j i c.1 hj (hadded c hc))
      · intro hne
        apply hpoised hne j hji
  · intro j j' a hj hj'
    by_cases hji : j = i
    · by_cases hji' : j' = i
      · rw [hji, hji']
      · subst hji
        simp only [Function.update_self] at hj
        simp only [Function.update_of_ne hji'] at hj'
        exact absurd hj' (hfresh j' hji' a hj)
    · simp only [Function.update_of_ne hji] at hj
      by_cases hji' : j' = i
      · subst hji'
        simp only [Function.update_self] at hj'
        exact absurd hj (hfresh j hji a hj')
      · simp only [Function.update_of_ne hji'] at hj'
        apply h.distinct j j' a hj hj'

/-- A step of one thread that leaves the table. -/
theorem Related.stay (h : Related s u) (hp : SameCall s.2 p q)
    (hnode : ∀ a, p.node = some a → (s.1 i).node = some a) :
  Related (Function.update s.1 i p, s.2) (Function.update u.1 i q, u.2)
  := by
  have hupdate := h.update (k := 0) (.refl s.2 0) (by simp) hp (fun a ha => Or.inl (hnode a ha))
    (by simp) (by simp)
  rw [List.map_nil, Buckets.add_nil] at hupdate
  apply hupdate

/-- A step of one thread that links the node of its insertion. -/
theorem Related.link (h : Related s u) {malloc : Malloc w} {key : BitVec 32} {value : BitVec w}
    {a : ℕ} (hgrow : s.2.Grows t' (hashFunction key) [(a, ChainTable.newNode key value)])
    (hnode : (s.1 i).node = some a)
    (halone : ∀ j ≠ i, (s.1 j).poised ≠ some (hashFunction key)) :
  Related
    (Function.update s.1 i (.busy (.insertByValue malloc key value) (.done (.inserted true))), t')
    (Function.update u.1 i (.answered (.inserted true)),
      u.2.add (hashFunction key) [ChainTable.newNode key value])
  := by
  apply h.update hgrow
  · intro c hc
    rw [List.mem_singleton.mp hc]
    rfl
  · rfl
  · intro b hb
    cases hb
  · intro c hc
    rw [List.mem_singleton.mp hc]
    apply hnode
  · intro _
    apply halone

/-! ### Steps and what they show -/

/-- The step of a thread, which leaves `p`, is answered by what it shows. -/
def Answered (s : HostThreads ι w) (u : (ι → AtOncePhase w) × Buckets w) (i : ι)
    (a : HostTableAct w) (p : HostTablePhase w × ChainTable w) : Prop :=
  ∃ v, run atOnceStep (u.1 i, u.2) (threadShows (s.1 i, s.2) a) = some v ∧
    Related (Function.update s.1 i p.1, p.2) (Function.update u.1 i v.1, v.2)

/-- A step that shows nothing and leaves the table. -/
theorem Related.answered_stay (h : Related s u) {a : HostTableAct w}
    (hshows : threadShows (s.1 i, s.2) a = []) (hp : SameCall s.2 p (u.1 i))
    (hnode : ∀ a, p.node = some a → (s.1 i).node = some a) :
  Answered s u i a (p, s.2)
  := by
  refine ⟨(u.1 i, u.2), ?_, ?_⟩
  · rw [hshows]
    rfl
  · apply h.stay hp hnode

section

variable {malloc : Malloc w} {key : BitVec 32} {value : BitVec w} {r : HostTablePc w × ChainTable w}

/-- A step that links the node of an insertion shows that the insertion happens. -/
theorem Related.answered_link (h : Related s u) {a : ℕ}
    (hu : u.1 i = .called (.insertByValue malloc key value))
    (hshows : threadShows (s.1 i, s.2) .step = [.exec]) (hnode : (s.1 i).node = some a)
    (hpoised : (s.1 i).poised = some (hashFunction key)) (hapart : Apart s (i, .step))
    (hgrow : s.2.Grows t' (hashFunction key) [(a, ChainTable.newNode key value)]) :
  Answered s u i .step (.busy (.insertByValue malloc key value) (.done (.inserted true)), t')
  := by
  refine ⟨(.answered (.inserted true),
    u.2.add (hashFunction key) [ChainTable.newNode key value]), ?_, ?_⟩
  · rw [hshows, hu]
    rfl
  · apply h.link hgrow hnode
    apply hapart _ hpoised

/-- An insertion allocates its node, or fails. -/
theorem Related.insert_start (h : Related s u)
    (hi : s.1 i = .busy (.insertByValue malloc key value) .start)
    (hu : u.1 i = .called (.insertByValue malloc key value))
    (hr : HostTableCall.insertStep malloc key value s.2 .start = some r) :
  Answered s u i .step (.busy (.insertByValue malloc key value) r.1, r.2)
  := by
  cases hpick : malloc.pick s.2.heap with
  | none =>
      simp only [HostTableCall.insertStep, hpick, Option.some.injEq] at hr
      subst hr
      refine ⟨(.answered (.inserted false), u.2), ?_, ?_⟩
      · simp [hi, hu, threadShows, hpick, run, atOnceStep]
      · apply h.stay
        · rfl
        · intro b hb
          cases hb
  | some a =>
      have hfree := malloc.free_of_pick _ _ hpick
      simp only [HostTableCall.insertStep, hpick, Option.some.injEq] at hr
      subst hr
      refine ⟨(u.1 i, u.2), ?_, ?_⟩
      · simp [hi, threadShows, hpick]
      · rw [← Buckets.add_nil u.2 0]
        apply h.update (ChainTable.grows_put hfree _ 0) (by simp) _ _ (by simp) (by simp)
        · rw [hu]
          exact ⟨rfl, ChainTable.unlinked_put h.holds hfree _⟩
        · rintro b ⟨⟩
          exact Or.inr hfree

/-- An insertion reads the pointer of its bucket. -/
theorem Related.insert_link (h : Related s u) {a : ℕ}
    (hi : s.1 i = .busy (.insertByValue malloc key value) (.link a))
    (hu : u.1 i = .called (.insertByValue malloc key value))
    (hat : s.2.InsertAt key value (.link a))
    (hr : HostTableCall.insertStep malloc key value s.2 (.link a) = some r) :
  Answered s u i .step (.busy (.insertByValue malloc key value) r.1, r.2)
  := by
  have hshows : threadShows (s.1 i, s.2) .step = [] := by
    rw [hi]
    rfl
  cases htable : s.2.table (hashFunction key) with
  | none =>
      simp only [HostTableCall.insertStep, htable, Option.some.injEq] at hr
      subst hr
      apply h.answered_stay hshows
      · rw [hu]
        exact ⟨rfl, hat, htable⟩
      · rw [hi]
        exact fun b hb => hb
  | some current =>
      simp only [HostTableCall.insertStep, htable, Option.some.injEq] at hr
      subst hr
      apply h.answered_stay hshows
      · obtain ⟨l, hl, -, -⟩ := h.holds (hashFunction key)
        rw [hu]
        cases l with
        | nil =>
            rw [htable] at hl
            cases hl
        | cons c l =>
            obtain rfl := Option.some.inj (htable.symm.trans hl.1)
            exact ⟨rfl, hat, [], c.2, l, hl⟩
      · rw [hi]
        exact fun b hb => hb

/-- An insertion that walks is at the last node of the chain, or goes on to the next one. -/
theorem Related.insert_walk (h : Related s u) {a current : ℕ}
    (hi : s.1 i = .busy (.insertByValue malloc key value) (.walk a current))
    (hu : u.1 i = .called (.insertByValue malloc key value))
    (hat : s.2.InsertAt key value (.walk a current))
    (hr : HostTableCall.insertStep malloc key value s.2 (.walk a current) = some r) :
  Answered s u i .step (.busy (.insertByValue malloc key value) r.1, r.2)
  := by
  have hshows : threadShows (s.1 i, s.2) .step = [] := by
    rw [hi]
    rfl
  obtain ⟨hunlinked, l₁, v, l₂, hchain⟩ := hat
  obtain ⟨-, q, hq, hrest⟩ := hchain.suffix
  cases l₂ with
  | nil =>
      obtain rfl : q = none := hrest
      simp only [HostTableCall.insertStep, hq, Option.some.injEq] at hr
      subst hr
      apply h.answered_stay hshows
      · rw [hu]
        exact ⟨rfl, hunlinked, l₁, v, hchain⟩
      · rw [hi]
        exact fun b hb => hb
  | cons c l₂ =>
      obtain ⟨rfl, -⟩ := hrest
      simp only [HostTableCall.insertStep, hq, Option.some.injEq] at hr
      subst hr
      apply h.answered_stay hshows
      · rw [hu]
        refine ⟨rfl, hunlinked, l₁ ++ [(current, v)], c.2, l₂, ?_⟩
        rw [List.append_assoc]
        apply hchain
      · rw [hi]
        exact fun b hb => hb

/-- The step of an insertion is answered by what it shows. -/
theorem Related.insert (h : Related s u) {pc : HostTablePc w}
    (hi : s.1 i = .busy (.insertByValue malloc key value) pc) (hapart : Apart s (i, .step))
    (hr : HostTableCall.insertStep malloc key value s.2 pc = some r) :
  Answered s u i .step (.busy (.insertByValue malloc key value) r.1, r.2)
  := by
  have hsame := h.same i
  rw [hi] at hsame
  obtain ⟨hu, hat⟩ := hsame.insertAt (by rintro r' rfl; cases hr)
  cases pc with
  | start => apply h.insert_start hi hu hr
  | link a => apply h.insert_link hi hu hat hr
  | walk a current => apply h.insert_walk hi hu hat hr
  | first a =>
      obtain rfl := Option.some.inj hr
      have hgrow := (hat.1.setFirst (hashFunction key)).grows (l := []) hat.2
      apply h.answered_link hu _ _ _ hapart hgrow <;>
        simp [hi, threadShows, HostTablePhase.node, HostTablePhase.poised]
  | last a current =>
      obtain ⟨hunlinked, l, v, hchain⟩ := hat
      obtain rfl := Option.some.inj hr
      have hgrow := (hunlinked.setLast h.holds hchain).grows hchain
      apply h.answered_link hu _ _ _ hapart hgrow <;>
        simp [hi, threadShows, HostTablePhase.node, HostTablePhase.poised]
  | look node => cases hr
  | done r' => cases hr

end

/-- What a search finds at the head of its bucket is what it finds in the bucket. -/
theorem valueAt_head (hholds : t.Holds g) (key : BitVec 32) :
  t.valueAt key (t.table (hashFunction key)) = g.search key ∧
    ∀ a, t.table (hashFunction key) = some a → t.heap.Has a
  := by
  obtain ⟨l, hl, hg, -⟩ := hholds (hashFunction key)
  rw [Buckets.search, ← hg]
  cases l with
  | nil =>
      have hnull : t.table (hashFunction key) = none := hl
      rw [hnull]
      exact ⟨rfl, by simp⟩
  | cons c l =>
      obtain ⟨hhead, q, hq, -⟩ := hl
      rw [hhead]
      constructor
      · simp [ChainTable.valueAt, hq]
      · rintro _ ⟨⟩
        exact ⟨_, hq⟩

/-- The step of a search is answered by what it shows. -/
theorem Related.search (h : Related s u) {key : BitVec 32} {pc : HostTablePc w}
    (hi : s.1 i = .busy (.searchByKey key) pc) {r : HostTablePc w × ChainTable w}
    (hr : HostTableCall.searchStep key s.2 pc = some r) :
  Answered s u i .step (.busy (.searchByKey key) r.1, r.2)
  := by
  have hsame := h.same i
  rw [hi] at hsame
  cases pc with
  | start =>
      obtain ⟨hvalue, hnode⟩ := valueAt_head h.holds key
      obtain rfl := Option.some.inj hr
      cases hu : u.1 i with
      | called c =>
          rw [hu] at hsame
          obtain rfl : c = .searchByKey key := hsame
          refine ⟨(.answered (.value (u.2.search key)), u.2), ?_, ?_⟩
          · simp [hi, hu, threadShows, run, atOnceStep]
          · apply h.stay
            · rw [← hvalue]
              exact ⟨rfl, hnode⟩
            · intro b hb
              cases hb
      | _ =>
          rw [hu] at hsame
          cases hsame
  | look node =>
      obtain rfl := Option.some.inj hr
      apply h.answered_stay
      · rw [hi]
        rfl
      · cases hu : u.1 i with
        | answered r' =>
            rw [hu] at hsame
            exact hsame.1.symm
        | _ =>
            rw [hu] at hsame
            cases hsame
      · intro b hb
        cases hb
  | _ => cases hr

/-- A call and its return are answered by what they show. -/
theorem Related.outside (h : Related s u) {a : HostTableAct w} {p : HostTablePhase w × ChainTable w}
    (hp : threadStep (s.1 i, s.2) a = some p) (ha : a ≠ .step) :
  Answered s u i a p
  := by
  have hsame := h.same i
  cases hi : s.1 i with
  | idle =>
      rw [hi] at hp hsame
      cases a with
      | call c =>
          obtain rfl := Option.some.inj hp
          cases hu : u.1 i with
          | idle =>
              refine ⟨(.called c, u.2), ?_, ?_⟩
              · simp [hi, hu, threadShows, run, atOnceStep]
              · apply h.stay
                · cases c with
                  | insertByValue malloc key value => exact ⟨rfl, trivial⟩
                  | searchByKey key => rfl
                · intro b hb
                  cases hb
          | _ =>
              rw [hu] at hsame
              cases hsame
      | step => exact absurd rfl ha
      | ret => cases hp
  | busy c pc =>
      rw [hi] at hp hsame
      cases a with
      | call c' => cases c <;> cases pc <;> cases hp
      | step => exact absurd rfl ha
      | ret =>
          cases pc with
          | done r =>
              obtain rfl := Option.some.inj hp
              refine ⟨(.idle, u.2), ?_, ?_⟩
              · simp [hi, hsame.done, threadShows, run, atOnceStep]
              · apply h.stay
                · trivial
                · intro b hb
                  cases hb
          | _ => cases c <;> cases hp

/-- Threads whose calls happen at once simulate those that keep apart. -/
theorem threads_simulates :
  Simulates (step (ι := ι) (w := w)) (parallel atOnceStep) shows Apart Related
  := by
  rintro s ⟨i, a⟩ s' u h hapart hs
  obtain ⟨p, hp, rfl⟩ := parallel_eq_some.mp hs
  have hanswer : Answered s u i a p := by
    by_cases ha : a = .step
    · subst ha
      cases hi : s.1 i with
      | idle =>
          simp only [hi] at hp
          cases hp
      | busy c pc =>
          simp only [hi, threadStep, Option.map_eq_some_iff] at hp
          obtain ⟨r, hr, rfl⟩ := hp
          cases c with
          | insertByValue malloc key value => apply h.insert hi hapart hr
          | searchByKey key => apply h.search hi hr
    · apply h.outside hp ha
  obtain ⟨v, hv, hrel⟩ := hanswer
  exact ⟨_, run_parallel hv, hrel⟩

/-! ### Two poised insertions -/

/-- A poised insertion puts its node behind the chain that it has seen, whatever is there now. -/
theorem insert_poised {malloc : Malloc w} {key : BitVec 32} {value : BitVec w} {pc : HostTablePc w}
    {b : ℕ} (h : t.InsertAt key value pc)
    (hb : (HostTablePhase.busy (.insertByValue malloc key value) pc).poised = some b) :
  ∃ l a, Chain t.heap (t.table b) l ∧ t.Unlinked a (ChainTable.newNode key value) ∧
    (HostTablePhase.busy (.insertByValue malloc key value) pc).node = some a ∧
    ∀ t₁ : ChainTable w, ∀ g₁ l₂, t₁.Holds g₁ →
      t₁.Unlinked a (ChainTable.newNode key value) → Chain t₁.heap (t₁.table b) (l ++ l₂) →
      ∃ t₂, threadStep (.busy (.insertByValue malloc key value) pc, t₁) .step =
          some (.busy (.insertByValue malloc key value) (.done (.inserted true)), t₂) ∧
        t₁.Sets t₂ b (l ++ [(a, ChainTable.newNode key value)])
  := by
  cases pc with
  | first a =>
      obtain rfl : hashFunction key = b := Option.some.inj hb
      refine ⟨[], a, h.2, h.1, rfl, ?_⟩
      intro t₁ g₁ l₂ _ hunlinked _
      exact ⟨_, rfl, hunlinked.setFirst _⟩
  | last a current =>
      obtain rfl : hashFunction key = b := Option.some.inj hb
      obtain ⟨hunlinked, l, v, hl⟩ := h
      refine ⟨l ++ [(current, v)], a, hl, hunlinked, rfl, ?_⟩
      intro t₁ g₁ l₂ hholds hunlinked₁ hl₁
      rw [List.append_assoc, List.singleton_append] at hl₁
      exact ⟨_, rfl, hunlinked₁.setLast hholds hl₁⟩
  | _ => cases hb

/-- The node that is linked first is lost when two insertions are poised at one bucket. -/
theorem Related.lost (h : Related s u) {j : ι} (hij : i ≠ j) {b : ℕ} {m m' : Malloc w}
    {key key' : BitVec 32} {value value' : BitVec w} {pc pc' : HostTablePc w}
    (hi : s.1 i = .busy (.insertByValue m key value) pc) (hib : (s.1 i).poised = some b)
    (hj : s.1 j = .busy (.insertByValue m' key' value') pc') (hjb : (s.1 j).poised = some b) :
  ∃ s', run step s [(i, .step), (j, .step)] = some s' ∧
    s'.1 i = .busy (.insertByValue m key value) (.done (.inserted true)) ∧
    s'.1 j = .busy (.insertByValue m' key' value') (.done (.inserted true)) ∧
    s'.2.bucket b = s.2.bucket b ++ [ChainTable.newNode key' value'] ∧
    ∀ k ≠ b, s'.2.bucket k = s.2.bucket k
  := by
  have hsamei := h.same i
  have hsamej := h.same j
  have hdistinct := h.distinct i j
  rw [hi] at hsamei hib hdistinct
  rw [hj] at hsamej hjb hdistinct
  have hati := (hsamei.insertAt (by rintro r rfl; cases hib)).2
  have hatj := (hsamej.insertAt (by rintro r rfl; cases hjb)).2
  obtain ⟨l, a, hl, hunlinked, hnode, hlink⟩ := insert_poised hati hib
  obtain ⟨l', a', hl', hunlinked', hnode', hlink'⟩ := insert_poised hatj hjb
  obtain rfl := hl.unique hl'
  -- the first insertion links its node
  rw [← List.append_nil l] at hl
  obtain ⟨t₁, hstep₁, hsets₁⟩ := hlink s.2 u.2 [] h.holds hunlinked hl
  rw [List.append_nil] at hl
  have hgrow := hsets₁.grows hl
  have hkey : hashFunction key = b := by
    cases pc <;> first | exact Option.some.inj hib | cases hib
  have hholds₁ := h.holds.grows hgrow (by simp [ChainTable.newNode, hkey])
  have hunlinked₁ : t₁.Unlinked a' (ChainTable.newNode key' value') := by
    apply hunlinked'.grows h.holds hgrow
    intro c hc hca
    rw [List.mem_singleton.mp hc] at hca
    apply hij
    apply hdistinct a hnode
    rw [hnode', ← hca]
  -- the second one links its own where the first one did
  obtain ⟨t₂, hstep₂, hsets₂⟩ := hlink' t₁ _ _ hholds₁ hunlinked₁ hsets₁.chain
  use (Function.update (Function.update s.1 i
    (.busy (.insertByValue m key value) (.done (.inserted true)))) j
    (.busy (.insertByValue m' key' value') (.done (.inserted true))), t₂)
  refine ⟨?_, ?_, ?_, ?_, ?_⟩
  · apply run_cons_eq_some.mpr
    refine ⟨(_, t₁), parallel_eq_some.mpr ⟨_, by rw [hi]; apply hstep₁, rfl⟩, ?_⟩
    apply run_cons_eq_some.mpr
    refine ⟨_, parallel_eq_some.mpr ⟨(_, t₂), ?_, rfl⟩, rfl⟩
    simp only [Function.update_of_ne hij.symm, hj]
    apply hstep₂
  · simp only [Function.update_of_ne hij, Function.update_self]
  · simp only [Function.update_self]
  · rw [ChainTable.bucket, hsets₂.chain.toList, ChainTable.bucket, hl.toList, List.map_append]
    rfl
  · intro k hk
    obtain ⟨lk, hlk, -⟩ := h.holds k
    have hlk₂ := hsets₂.others k hk lk (hsets₁.others k hk lk hlk)
    rw [ChainTable.bucket, hlk₂.toList, ChainTable.bucket, hlk.toList]

end HostThreads

/-- The insertions into a table of the host and the searches in it happen at once, each between its
start and its return, in every run in which no two insertions are poised at a bucket when one of
them is linked there. -/
theorem unlocked_calls_at_once {ι : Type} [DecidableEq ι] (acts : List (ι × HostTableAct w))
    {s : HostThreads ι w}
    (hacts : Along HostThreads.step HostThreads.Apart (HostThreads.start ι w) acts)
    (hrun : run HostThreads.step (HostThreads.start ι w) acts = some s) :
  ∃ t : (ι → AtOncePhase w) × Buckets w,
    run (parallel atOnceStep) (fun _ => .idle, fun _ => [])
      (observed HostThreads.step HostThreads.shows (HostThreads.start ι w) acts) = some t ∧
    ∀ i, s.2.bucket i = t.2 i
  := by
  obtain ⟨t, ht, hrel⟩ := HostThreads.threads_simulates.run HostThreads.Related.start hacts hrun
  refine ⟨t, ht, ?_⟩
  intro i
  obtain ⟨l, hl, hg, -⟩ := hrel.holds i
  rw [ChainTable.bucket, hl.toList, hg]

theorem HostThreads.apart_of_not_poised {ι : Type} {s : HostThreads ι w} {a : ι × HostTableAct w}
    (h : (s.1 a.1).poised = none) :
  s.Apart a
  := by
  intro i hi
  rw [h] at hi
  cases hi

theorem HostThreads.apart_of_other {s : HostThreads Bool w} {a : Bool × HostTableAct w}
    (h : (s.1 !a.1).poised = none) :
  s.Apart a
  := by
  intro i _ j hj
  rw [Bool.eq_not_of_ne hj, h]
  simp

/-- A search reads the bucket before a node is linked there, and returns after that. -/
def searchedMeanwhile : List (Bool × HostTableAct 64) :=
  [(false, .call (.insertByValue (.bump 64) 5 7)), (false, .step), (true, .call (.searchByKey 5)),
    (false, .step), (true, .step), (false, .step), (true, .step), (false, .ret), (true, .ret)]

/-- A search overlaps with an insertion. -/
theorem unlocked_calls_at_once_overlapping :
  ∃ t : (Bool → AtOncePhase 64) × Buckets 64,
    run (parallel atOnceStep) (fun _ => .idle, fun _ => [])
      (observed HostThreads.step HostThreads.shows (HostThreads.start Bool 64) searchedMeanwhile) =
        some t
  := by
  have hacts : Along HostThreads.step HostThreads.Apart (HostThreads.start Bool 64)
      searchedMeanwhile := by
    iterate 5 refine along_cons (HostThreads.apart_of_not_poised rfl) rfl ?_
    refine along_cons (HostThreads.apart_of_other rfl) rfl ?_
    iterate 3 refine along_cons (HostThreads.apart_of_not_poised rfl) rfl ?_
    trivial
  obtain ⟨t, ht, -⟩ := unlocked_calls_at_once searchedMeanwhile hacts rfl
  exact ⟨t, ht⟩

/-- When two insertions are poised at a bucket and both are linked there, both return `true`, and
the bucket holds the node of the second one but not that of the first. -/
theorem insertion_lost {ι : Type} [DecidableEq ι] (acts : List (ι × HostTableAct w))
    {s : HostThreads ι w}
    (hacts : Along HostThreads.step HostThreads.Apart (HostThreads.start ι w) acts)
    (hrun : run HostThreads.step (HostThreads.start ι w) acts = some s) {i j : ι} (hij : i ≠ j)
    {b : ℕ} {m m' : Malloc w} {key key' : BitVec 32} {value value' : BitVec w}
    {pc pc' : HostTablePc w} (hi : s.1 i = .busy (.insertByValue m key value) pc)
    (hib : (s.1 i).poised = some b) (hj : s.1 j = .busy (.insertByValue m' key' value') pc')
    (hjb : (s.1 j).poised = some b) :
  ∃ s', run HostThreads.step s [(i, .step), (j, .step)] = some s' ∧
    s'.1 i = .busy (.insertByValue m key value) (.done (.inserted true)) ∧
    s'.1 j = .busy (.insertByValue m' key' value') (.done (.inserted true)) ∧
    s'.2.bucket b = s.2.bucket b ++ [ChainTable.newNode key' value'] ∧
    ∀ k ≠ b, s'.2.bucket k = s.2.bucket k
  := by
  obtain ⟨t, -, hrel⟩ := HostThreads.threads_simulates.run HostThreads.Related.start hacts hrun
  apply hrel.lost hij hi hib hj hjb

/-- Two threads insert nodes of one bucket, and each has read that the bucket is empty. -/
def bothPoised : List (Bool × HostTableAct 64) :=
  [(false, .call (.insertByValue (.bump 64) 19 7)), (true, .call (.insertByValue (.bump 64) 45 8)),
    (false, .step), (true, .step), (false, .step), (true, .step)]

/-- The node with the key `19` is lost. -/
theorem insertion_lost_collide :
  ∃ s s' : HostThreads Bool 64,
    run HostThreads.step (HostThreads.start Bool 64) bothPoised = some s ∧
    run HostThreads.step s [(false, .step), (true, .step)] = some s' ∧
    s'.1 false = .busy (.insertByValue (.bump 64) 19 7) (.done (.inserted true)) ∧
    s'.2.bucket (hashFunction 19) = [ChainTable.newNode 45 8]
  := by
  have hacts : Along HostThreads.step HostThreads.Apart (HostThreads.start Bool 64) bothPoised := by
    iterate 6 refine along_cons (HostThreads.apart_of_not_poised rfl) rfl ?_
    trivial
  obtain ⟨s', hrun, hdone, -, hbucket, -⟩ := insertion_lost (b := hashFunction 19) bothPoised
    hacts rfl Bool.false_ne_true rfl rfl rfl (congrArg some hashFunction_collide.symm)
  exact ⟨_, s', rfl, hrun, hdone, hbucket⟩

end SocketToRdma
