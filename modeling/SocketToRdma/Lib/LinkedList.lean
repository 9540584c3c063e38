import Mathlib.Data.Finset.Card
import Mathlib.Data.Finset.Range
import Mathlib.Data.List.Basic
import Mathlib.Logic.Function.Basic
import Mathlib.Tactic.Use

/-!
# Singly linked lists in a heap

A heap holds cells at addresses below a bound; a cell carries a value and the address of
the next cell. `Chain h p l` says that the cells reached from the pointer `p` are those of
the list `l`, in order. A chain is determined by its pointer, so its addresses are distinct
and its length is at most the bound of the heap: walking it with the bound as fuel never
runs out. The pointer programs on chains, appending a cell behind the last one, unlinking the
first cell that satisfies a test and freeing all cells, are given with their specifications and
with what they allocate and free.
-/

namespace LinkedList

variable {α : Type*}

/-- A heap cell: a value and the address of the next cell, `none` being the null pointer. -/
structure Cell (α : Type*) where
  val : α
  next : Option ℕ

/-- A heap of cells at addresses below `bound`. -/
structure Heap (α : Type*) where
  cells : ℕ → Option (Cell α)
  bound : ℕ
  cells_of_le : ∀ a, bound ≤ a → cells a = none

namespace Heap

/-- The heap without cells. -/
def empty : Heap α where
  cells _ := none
  bound := 0
  cells_of_le _ _ := rfl

/-- The heap with the cell `c` at address `a`. -/
def put (h : Heap α) (a : ℕ) (c : Cell α) : Heap α where
  cells := Function.update h.cells a (some c)
  bound := max h.bound (a + 1)
  cells_of_le b hb := by
    rw [Function.update_of_ne (by omega)]
    apply h.cells_of_le
    omega

/-- The heap without the cell at address `a`. -/
def free (h : Heap α) (a : ℕ) : Heap α where
  cells := Function.update h.cells a none
  bound := h.bound
  cells_of_le b hb := by
    by_cases hba : b = a
    · rw [hba, Function.update_self]
    · rw [Function.update_of_ne hba]
      apply h.cells_of_le b hb

/-- The heap with the next pointer of the cell at `a` set to `p`. -/
def setNext (h : Heap α) (a : ℕ) (p : Option ℕ) : Heap α :=
  match h.cells a with
  | some c => h.put a { c with next := p }
  | none => h

theorem put_cells_self (h : Heap α) (a : ℕ) (c : Cell α) :
  (h.put a c).cells a = some c
  := Function.update_self _ _ _

theorem put_cells_of_ne (h : Heap α) {a b : ℕ} (c : Cell α) (hab : b ≠ a) :
  (h.put a c).cells b = h.cells b
  := Function.update_of_ne hab _ _

theorem free_cells_of_ne (h : Heap α) {a b : ℕ} (hab : b ≠ a) :
  (h.free a).cells b = h.cells b
  := Function.update_of_ne hab _ _

theorem setNext_cells_self {h : Heap α} {a : ℕ} {c : Cell α} (hc : h.cells a = some c)
    (p : Option ℕ) :
  (h.setNext a p).cells a = some { c with next := p }
  := by
  simp only [setNext, hc]
  apply put_cells_self

theorem setNext_cells_of_ne (h : Heap α) {a b : ℕ} (p : Option ℕ) (hab : b ≠ a) :
  (h.setNext a p).cells b = h.cells b
  := by
  unfold setNext
  split
  · apply put_cells_of_ne _ _ hab
  · rfl

end Heap

/-! ### Chains -/

/-- The cells reached from the pointer `p` are those of the list, each given by its address
and its value. -/
def Chain (h : Heap α) : Option ℕ → List (ℕ × α) → Prop
  | p, [] => p = none
  | p, (a, v) :: l => p = some a ∧ ∃ q, h.cells a = some ⟨v, q⟩ ∧ Chain h q l

theorem chain_nil (h : Heap α) :
  Chain h none []
  := rfl

theorem Chain.cons {h : Heap α} {a : ℕ} {v : α} {q : Option ℕ} {l : List (ℕ × α)}
    (ha : h.cells a = some ⟨v, q⟩) (hl : Chain h q l) :
  Chain h (some a) ((a, v) :: l)
  := ⟨rfl, q, ha, hl⟩

/-- A pointer heads at most one chain. -/
theorem Chain.unique {h : Heap α} {p : Option ℕ} {l l' : List (ℕ × α)} (hl : Chain h p l)
    (hl' : Chain h p l') :
  l = l'
  := by
  induction l generalizing p l' with
  | nil =>
      cases l' with
      | nil => rfl
      | cons c l' =>
          obtain ⟨hp, -⟩ := hl'
          rw [hl] at hp
          cases hp
  | cons c l ih =>
      obtain ⟨hp, q, hc, hq⟩ := hl
      cases l' with
      | nil =>
          rw [hl'] at hp
          cases hp
      | cons c' l' =>
          obtain ⟨hp', q', hc', hq'⟩ := hl'
          obtain ⟨a, v⟩ := c
          obtain ⟨a', v'⟩ := c'
          obtain rfl : a = a' := Option.some.inj (hp.symm.trans hp')
          obtain ⟨rfl, rfl⟩ := Cell.mk.inj (Option.some.inj (hc.symm.trans hc'))
          rw [ih hq hq']

/-- The suffix of a chain from one of its cells on is the chain of that cell. -/
theorem Chain.suffix {h : Heap α} {p : Option ℕ} {l₁ l₂ : List (ℕ × α)} {c : ℕ × α}
    (hl : Chain h p (l₁ ++ c :: l₂)) :
  Chain h (some c.1) (c :: l₂)
  := by
  induction l₁ generalizing p with
  | nil =>
      obtain ⟨rfl, hq⟩ := hl
      exact ⟨rfl, hq⟩
  | cons d l₁ ih =>
      obtain ⟨-, q, -, hq⟩ := hl
      apply ih hq

/-- A cell of a chain is a cell of the heap. -/
theorem Chain.cell {h : Heap α} {p : Option ℕ} {l : List (ℕ × α)} (hl : Chain h p l) {a : ℕ}
    {v : α} (hc : (a, v) ∈ l) :
  ∃ q, h.cells a = some ⟨v, q⟩
  := by
  obtain ⟨l₁, l₂, rfl⟩ := List.append_of_mem hc
  obtain ⟨-, q, hq, -⟩ := hl.suffix
  use q

/-- The addresses of a chain are distinct. -/
theorem Chain.nodup {h : Heap α} {p : Option ℕ} {l : List (ℕ × α)} (hl : Chain h p l) :
  (l.map Prod.fst).Nodup
  := by
  induction l generalizing p with
  | nil => apply List.nodup_nil
  | cons c l ih =>
      have htail : Chain h (some c.1) (c :: l) := by
        rw [← hl.1]
        apply hl
      obtain ⟨-, q, -, hq⟩ := hl
      apply List.nodup_cons.mpr
      constructor
      · intro hmem
        -- a repeated address would make the chain from it a proper suffix of itself
        obtain ⟨d, hd, hdc⟩ := List.mem_map.mp hmem
        obtain ⟨l₁, l₂, rfl⟩ := List.append_of_mem hd
        have hsuffix := hq.suffix
        rw [hdc] at hsuffix
        have hlen := congrArg List.length (htail.unique hsuffix)
        simp at hlen
        omega
      · apply ih hq

/-- A chain is no longer than the bound of its heap. -/
theorem Chain.length_le {h : Heap α} {p : Option ℕ} {l : List (ℕ × α)} (hl : Chain h p l) :
  l.length ≤ h.bound
  := by
  have hsub : (l.map Prod.fst).toFinset ⊆ Finset.range h.bound := by
    intro a ha
    obtain ⟨⟨b, v⟩, hc, rfl⟩ := List.mem_map.mp (List.mem_toFinset.mp ha)
    obtain ⟨q, hq⟩ := hl.cell hc
    apply Finset.mem_range.mpr
    by_contra hle
    rw [h.cells_of_le b (by omega)] at hq
    cases hq
  have hcard := Finset.card_le_card hsub
  rw [List.toFinset_card_of_nodup hl.nodup, Finset.card_range, List.length_map] at hcard
  apply hcard

/-- A chain stays a chain in a heap that holds the same cells at its addresses. -/
theorem Chain.frame {h h' : Heap α} {p : Option ℕ} {l : List (ℕ × α)} (hl : Chain h p l)
    (hframe : ∀ c ∈ l, h'.cells c.1 = h.cells c.1) :
  Chain h' p l
  := by
  induction l generalizing p with
  | nil => apply hl
  | cons c l ih =>
      obtain ⟨rfl, q, hc, hq⟩ := hl
      apply Chain.cons
      · rw [hframe c (List.mem_cons_self ..), hc]
      · apply ih hq
        intro d hd
        apply hframe d (List.mem_cons_of_mem _ hd)

/-! ### Reading a chain -/

/-- The values of at most `fuel` cells reached from a pointer. -/
def walk (h : Heap α) : ℕ → Option ℕ → List α
  | 0, _ => []
  | _, none => []
  | fuel + 1, some a =>
      match h.cells a with
      | some c => c.val :: walk h fuel c.next
      | none => []

/-- The values of the cells reached from a pointer. -/
def toList (h : Heap α) (p : Option ℕ) : List α :=
  walk h h.bound p

theorem Chain.walk {h : Heap α} {p : Option ℕ} {l : List (ℕ × α)} (hl : Chain h p l) {fuel : ℕ}
    (hfuel : l.length ≤ fuel) :
  walk h fuel p = l.map Prod.snd
  := by
  induction l generalizing p fuel with
  | nil =>
      obtain rfl : p = none := hl
      cases fuel <;> rfl
  | cons c l ih =>
      obtain ⟨rfl, q, hc, hq⟩ := hl
      cases fuel with
      | zero => cases hfuel
      | succ fuel =>
          simp only [LinkedList.walk, hc, List.map_cons]
          rw [ih hq (Nat.le_of_succ_le_succ hfuel)]

/-- The values of a chain are read back in order. -/
theorem Chain.toList {h : Heap α} {p : Option ℕ} {l : List (ℕ × α)} (hl : Chain h p l) :
  toList h p = l.map Prod.snd
  := hl.walk hl.length_le

/-! ### Appending a cell -/

/-- The last cell reached from the cell at `a`, following at most `fuel` pointers. -/
def lastCell (h : Heap α) : ℕ → ℕ → ℕ
  | 0, a => a
  | fuel + 1, a =>
      match h.cells a with
      | some ⟨_, some b⟩ => lastCell h fuel b
      | _ => a

theorem Chain.lastCell {h : Heap α} {a : ℕ} {l : List (ℕ × α)} {c : ℕ × α}
    (hl : Chain h (some a) (l ++ [c])) {fuel : ℕ} (hfuel : l.length ≤ fuel) :
  lastCell h fuel a = c.1
  := by
  induction l generalizing a fuel with
  | nil =>
      obtain ⟨ha, q, hc, hq⟩ := hl
      obtain rfl : q = none := hq
      obtain rfl := Option.some.inj ha
      cases fuel <;> simp [LinkedList.lastCell, hc]
  | cons d l ih =>
      obtain ⟨ha, q, hd, hq⟩ := hl
      obtain rfl := Option.some.inj ha
      cases fuel with
      | zero => cases hfuel
      | succ fuel =>
          cases l with
          | nil =>
              obtain ⟨rfl, q', hc, hq'⟩ := hq
              simp only [LinkedList.lastCell, hd]
              apply ih (Chain.cons hc hq') (Nat.zero_le _)
          | cons e l =>
              obtain ⟨rfl, hq'⟩ := hq
              simp only [LinkedList.lastCell, hd]
              apply ih ⟨rfl, hq'⟩ (Nat.le_of_succ_le_succ hfuel)

/-- Putting a new cell behind the last cell of a chain appends it to the chain. -/
theorem Chain.append {h : Heap α} {p : Option ℕ} {l : List (ℕ × α)} {c : ℕ × α}
    (hl : Chain h p (l ++ [c])) {b : ℕ} (hb : h.cells b = none) (v : α) :
  Chain ((h.put b ⟨v, none⟩).setNext c.1 (some b)) p (l ++ [c, (b, v)])
  := by
  have hne : ∀ d ∈ l ++ [c], d.1 ≠ b := by
    intro d hd hdb
    obtain ⟨q, hq⟩ := hl.cell hd
    rw [hdb, hb] at hq
    cases hq
  have hnodup := hl.nodup
  induction l generalizing p with
  | nil =>
      obtain ⟨rfl, q, hc, hq⟩ := hl
      have hcb : c.1 ≠ b := hne c (by simp)
      apply Chain.cons (q := some b)
      · rw [Heap.setNext_cells_self (c := ⟨c.2, q⟩)]
        rw [Heap.put_cells_of_ne _ _ hcb, hc]
      · apply Chain.cons (q := none) _ (chain_nil _)
        rw [Heap.setNext_cells_of_ne _ _ hcb.symm, Heap.put_cells_self]
  | cons d l ih =>
      obtain ⟨rfl, q, hd, hq⟩ := hl
      simp only [List.cons_append, List.map_cons, List.nodup_cons, List.map_append,
        List.mem_append, not_or] at hnodup
      apply Chain.cons (q := q)
      · rw [Heap.setNext_cells_of_ne, Heap.put_cells_of_ne _ _ (hne d (by simp)), hd]
        intro hdc
        apply hnodup.1.2
        simp [hdc]
      · apply ih hq
        · intro e he
          apply hne e (List.mem_cons_of_mem _ he)
        · simp only [List.map_append]
          apply hnodup.2

/-- Pointing a cell of a chain to a new cell drops what was behind it and puts the new cell there. -/
theorem Chain.link {h : Heap α} {p : Option ℕ} {l₁ l₂ : List (ℕ × α)} {c : ℕ × α}
    (hl : Chain h p (l₁ ++ c :: l₂)) {b : ℕ} {v : α} (hb : h.cells b = some ⟨v, none⟩)
    (hnew : ∀ d ∈ l₁ ++ c :: l₂, d.1 ≠ b) :
  Chain (h.setNext c.1 (some b)) p (l₁ ++ [c, (b, v)])
  := by
  have hnodup := hl.nodup
  induction l₁ generalizing p with
  | nil =>
      obtain ⟨rfl, q, hc, -⟩ := hl
      have hbc : b ≠ c.1 := (hnew c (by simp)).symm
      apply Chain.cons (q := some b)
      · rw [Heap.setNext_cells_self hc]
      · apply Chain.cons (q := none) _ (chain_nil _)
        rw [Heap.setNext_cells_of_ne _ _ hbc, hb]
  | cons d l₁ ih =>
      obtain ⟨rfl, q, hd, hq⟩ := hl
      simp only [List.cons_append, List.map_cons, List.nodup_cons] at hnodup
      apply Chain.cons (q := q)
      · rw [Heap.setNext_cells_of_ne, hd]
        intro hdc
        apply hnodup.1
        simp [hdc]
      · apply ih hq _ hnodup.2
        intro e he
        apply hnew e (List.mem_cons_of_mem _ he)

/-! ### Unlinking a cell -/

/-- The first cell reached from `p` whose value satisfies `f`, with the cell before it,
following at most `fuel` pointers; `prev` is the cell before `p`. -/
def findCell (h : Heap α) (f : α → Bool) : ℕ → Option ℕ → Option ℕ → Option (ℕ × Option ℕ)
  | 0, _, _ => none
  | _, _, none => none
  | fuel + 1, prev, some a =>
      match h.cells a with
      | some c => if f c.val then some (a, prev) else findCell h f fuel (some a) c.next
      | none => none

/-- The pointer to a chain and its heap after unlinking and freeing the cell at `a`, the
cell before it being `prev`. -/
def unlink (h : Heap α) (p : Option ℕ) (a : ℕ) (prev : Option ℕ) : Heap α × Option ℕ :=
  let next := (h.cells a).bind Cell.next
  match prev with
  | none => (h.free a, next)
  | some b => ((h.setNext b next).free a, p)

/-- No cell is found in a chain none of whose values satisfies the test. -/
theorem Chain.findCell_eq_none {h : Heap α} {f : α → Bool} {p prev : Option ℕ}
    {l : List (ℕ × α)} (hl : Chain h p l) (hf : ∀ c ∈ l, f c.2 = false) (fuel : ℕ) :
  findCell h f fuel prev p = none
  := by
  induction l generalizing p prev fuel with
  | nil =>
      obtain rfl : p = none := hl
      cases fuel <;> rfl
  | cons c l ih =>
      obtain ⟨rfl, q, hc, hq⟩ := hl
      cases fuel with
      | zero => rfl
      | succ fuel =>
          simp only [findCell, hc, hf c (List.mem_cons_self ..), Bool.false_eq_true, if_false]
          apply ih hq
          intro d hd
          apply hf d (List.mem_cons_of_mem _ hd)

/-- The address of the last cell of a list of cells, `prev` if there is none. -/
def lastAddr (prev : Option ℕ) (l : List (ℕ × α)) : Option ℕ :=
  (l.getLast?.map Prod.fst).or prev

/-- The first cell that satisfies the test is found, with the cell before it. -/
theorem Chain.findCell_eq_some {h : Heap α} {f : α → Bool} {p prev : Option ℕ}
    {l₁ l₂ : List (ℕ × α)} {c : ℕ × α} (hl : Chain h p (l₁ ++ c :: l₂))
    (hf : ∀ d ∈ l₁, f d.2 = false) (hc : f c.2 = true) {fuel : ℕ} (hfuel : l₁.length < fuel) :
  findCell h f fuel prev p = some (c.1, lastAddr prev l₁)
  := by
  induction l₁ generalizing p prev fuel with
  | nil =>
      obtain ⟨rfl, q, hcell, -⟩ := hl
      cases fuel with
      | zero => cases hfuel
      | succ fuel => simp [findCell, hcell, hc, lastAddr]
  | cons d l₁ ih =>
      obtain ⟨rfl, q, hd, hq⟩ := hl
      cases fuel with
      | zero => cases hfuel
      | succ fuel =>
          simp only [findCell, hd, hf d (List.mem_cons_self ..), Bool.false_eq_true, if_false]
          rw [ih hq (fun e he => hf e (List.mem_cons_of_mem _ he)) (Nat.lt_of_succ_lt_succ hfuel)]
          cases l₁ with
          | nil => simp [lastAddr]
          | cons e l₁ =>
              rw [lastAddr, lastAddr, List.getLast?_cons_cons]
              simp [List.getLast?_cons]

/-- Pointing a cell of a chain behind the cell after it drops that one from the chain. -/
theorem Chain.setNext {h : Heap α} {p q : Option ℕ} {l₁ l₂ : List (ℕ × α)} {b c : ℕ × α}
    (hl : Chain h p (l₁ ++ b :: c :: l₂)) (hc : h.cells c.1 = some ⟨c.2, q⟩) :
  Chain (h.setNext b.1 q) p (l₁ ++ b :: l₂)
  := by
  have hnodup := hl.nodup
  induction l₁ generalizing p with
  | nil =>
      obtain ⟨rfl, r, hb, rfl, q', hc', hq⟩ := hl
      obtain rfl : q = q' := by
        rw [hc] at hc'
        injection hc' with hcell
        injection hcell
      simp only [List.nil_append, List.map_cons, List.nodup_cons, List.mem_cons, not_or] at hnodup
      apply Chain.cons (q := q)
      · rw [Heap.setNext_cells_self hb]
      · apply hq.frame
        intro d hd
        apply Heap.setNext_cells_of_ne
        intro hdb
        apply hnodup.1.2
        rw [← hdb]
        apply List.mem_map_of_mem hd
  | cons d l₁ ih =>
      obtain ⟨rfl, r, hd, hr⟩ := hl
      simp only [List.cons_append, List.map_cons, List.nodup_cons] at hnodup
      apply Chain.cons (q := r)
      · rw [Heap.setNext_cells_of_ne, hd]
        intro hdb
        apply hnodup.1
        simp [hdb]
      · apply ih hr hnodup.2

/-- Unlinking a cell of a chain leaves the chain without it. -/
theorem Chain.unlink {h : Heap α} {p : Option ℕ} {l₁ l₂ : List (ℕ × α)} {c : ℕ × α}
    (hl : Chain h p (l₁ ++ c :: l₂)) :
  Chain (unlink h p c.1 (lastAddr none l₁)).1 (unlink h p c.1 (lastAddr none l₁)).2 (l₁ ++ l₂)
  := by
  obtain ⟨-, q, hc, hq⟩ := hl.suffix
  have hnodup := hl.nodup
  have hfree : ∀ d ∈ l₁ ++ l₂, d.1 ≠ c.1 := by
    intro d hd hdc
    simp only [List.map_append, List.map_cons, List.nodup_middle, List.nodup_cons] at hnodup
    apply hnodup.1
    rw [← hdc, ← List.map_append]
    apply List.mem_map_of_mem hd
  rcases List.eq_nil_or_concat l₁ with rfl | ⟨l₁, b, rfl⟩
  · simp only [lastAddr, List.getLast?_nil, Option.map_none, Option.none_or, LinkedList.unlink, hc,
      Option.bind_some, List.nil_append]
    apply hq.frame
    intro d hd
    apply Heap.free_cells_of_ne _ (hfree d hd)
  · simp only [lastAddr, List.concat_eq_append, List.getLast?_append, List.getLast?_singleton,
      Option.map_some, Option.some_or, LinkedList.unlink, hc, Option.bind_some] at hl hfree ⊢
    rw [List.append_assoc, List.singleton_append] at hl hfree ⊢
    apply (hl.setNext hc).frame
    intro d hd
    apply Heap.free_cells_of_ne _ (hfree d hd)

/-- Unlinking touches only the cell unlinked and the cell before it. -/
theorem unlink_cells_of_ne (h : Heap α) (p : Option ℕ) {a b : ℕ} {prev : Option ℕ} (ha : b ≠ a)
    (hprev : prev ≠ some b) :
  (unlink h p a prev).1.cells b = h.cells b
  := by
  cases prev with
  | none => apply Heap.free_cells_of_ne _ ha
  | some d =>
      simp only [unlink]
      rw [Heap.free_cells_of_ne _ ha, Heap.setNext_cells_of_ne]
      rintro rfl
      apply hprev rfl

/-- The cell before a cell of a chain is in the chain. -/
theorem mem_of_lastAddr {l : List (ℕ × α)} {a : ℕ} (ha : lastAddr none l = some a) :
  ∃ c ∈ l, c.1 = a
  := by
  simp only [lastAddr, Option.or_none, Option.map_eq_some_iff] at ha
  obtain ⟨c, hc, rfl⟩ := ha
  use c, List.mem_of_getLast? hc

/-! ### The two pointer programs -/

/-- A new cell with the value `v` at the free address `b`, behind the last cell of the chain
of `p`, or alone if the chain is empty. -/
def pushBack (h : Heap α) (p : Option ℕ) (b : ℕ) (v : α) : Heap α × Option ℕ :=
  let h := h.put b ⟨v, none⟩
  match p with
  | none => (h, some b)
  | some a => (h.setNext (lastCell h h.bound a) (some b), p)

/-- The chain of `p` without its first cell whose value satisfies `f`, if there is one. -/
def removeFirst (h : Heap α) (f : α → Bool) (p : Option ℕ) : Option (Heap α × Option ℕ) :=
  (findCell h f h.bound none p).map fun r => unlink h p r.1 r.2

/-- A chain stays a chain when a cell is put at a free address. -/
theorem Chain.put {h : Heap α} {p : Option ℕ} {l : List (ℕ × α)} (hl : Chain h p l) {b : ℕ}
    (hb : h.cells b = none) (c : Cell α) :
  Chain (h.put b c) p l
  := by
  apply hl.frame
  rintro ⟨a, v⟩ ha
  apply Heap.put_cells_of_ne
  rintro rfl
  obtain ⟨q, hq⟩ := hl.cell ha
  rw [hb] at hq
  cases hq

/-- `pushBack` appends a cell to the chain. -/
theorem Chain.pushBack {h : Heap α} {p : Option ℕ} {l : List (ℕ × α)} (hl : Chain h p l)
    {b : ℕ} (hb : h.cells b = none) (v : α) :
  Chain (pushBack h p b v).1 (pushBack h p b v).2 (l ++ [(b, v)])
  := by
  rcases List.eq_nil_or_concat l with rfl | ⟨l, c, rfl⟩
  · obtain rfl : p = none := hl
    apply Chain.cons _ (chain_nil _)
    apply Heap.put_cells_self
  · rw [List.concat_eq_append] at hl ⊢
    have hput := hl.put hb ⟨v, none⟩
    have hlen := hput.length_le
    cases p with
    | none =>
        cases l with
        | nil => cases hl.1
        | cons d l => cases hl.1
    | some a =>
        simp only [LinkedList.pushBack]
        rw [hput.lastCell (by simp at hlen; omega), List.append_assoc, List.singleton_append]
        apply hl.append hb

/-- `pushBack` touches only the new cell and the cells of the chain. -/
theorem Chain.pushBack_cells {h : Heap α} {p : Option ℕ} {l : List (ℕ × α)} (hl : Chain h p l)
    {a b : ℕ} (hb : h.cells b = none) (v : α) (hab : a ≠ b) (ha : ∀ c ∈ l, c.1 ≠ a) :
  (LinkedList.pushBack h p b v).1.cells a = h.cells a
  := by
  rcases List.eq_nil_or_concat l with rfl | ⟨l, c, rfl⟩
  · obtain rfl : p = none := hl
    apply Heap.put_cells_of_ne _ _ hab
  · rw [List.concat_eq_append] at hl ha
    have hput := hl.put hb ⟨v, none⟩
    have hlen := hput.length_le
    cases p with
    | none => apply Heap.put_cells_of_ne _ _ hab
    | some d =>
        simp only [LinkedList.pushBack]
        rw [hput.lastCell (by simp at hlen; omega), Heap.setNext_cells_of_ne,
          Heap.put_cells_of_ne _ _ hab]
        intro hac
        apply ha c (by simp) hac.symm

/-- `removeFirst` fails on a chain none of whose values satisfies the test. -/
theorem Chain.removeFirst_eq_none {h : Heap α} {f : α → Bool} {p : Option ℕ}
    {l : List (ℕ × α)} (hl : Chain h p l) (hf : ∀ c ∈ l, f c.2 = false) :
  removeFirst h f p = none
  := by
  rw [removeFirst, hl.findCell_eq_none hf]
  rfl

/-- `removeFirst` removes the first cell whose value satisfies the test, and touches only
cells of the chain. -/
theorem Chain.removeFirst_eq_some {h : Heap α} {f : α → Bool} {p : Option ℕ}
    {l : List (ℕ × α)} (hl : Chain h p l) {c : ℕ × α} (hc : c ∈ l) (hf : f c.2 = true) :
  ∃ r, removeFirst h f p = some r ∧ Chain r.1 r.2 (l.eraseP (fun c => f c.2)) ∧
    ∀ a, (∀ d ∈ l, d.1 ≠ a) → r.1.cells a = h.cells a
  := by
  obtain ⟨d, l₁, l₂, hl₁, hd, rfl, herase⟩ :=
    List.exists_of_eraseP (p := fun c : ℕ × α => f c.2) hc hf
  have hlen := hl.length_le
  have hfind : findCell h f h.bound none p = some (d.1, lastAddr none l₁) := by
    apply hl.findCell_eq_some _ hd
    · simp only [List.length_append, List.length_cons] at hlen
      omega
    · intro e he
      apply Bool.eq_false_iff.mpr (hl₁ e he)
  use LinkedList.unlink h p d.1 (lastAddr none l₁)
  constructor
  · rw [removeFirst, hfind]
    rfl
  · rw [herase]
    constructor
    · apply hl.unlink
    · intro a ha
      apply unlink_cells_of_ne
      · intro had
        apply ha d (by simp) had.symm
      · intro hprev
        obtain ⟨e, he, rfl⟩ := mem_of_lastAddr hprev
        apply ha e (by simp [he]) rfl

/-! ### Allocated cells -/

/-- The heap has a cell at the address. -/
def Heap.Has (h : Heap α) (a : ℕ) : Prop :=
  ∃ c, h.cells a = some c

theorem Heap.not_has_empty (a : ℕ) :
  ¬ (Heap.empty : Heap α).Has a
  := by
  rintro ⟨c, hc⟩
  cases hc

theorem Heap.has_congr {h h' : Heap α} {a : ℕ} (hcells : h'.cells a = h.cells a) :
  h'.Has a ↔ h.Has a
  := by
  rw [Heap.Has, Heap.Has, hcells]

theorem Heap.has_put (h : Heap α) (b : ℕ) (c : Cell α) {a : ℕ} :
  (h.put b c).Has a ↔ a = b ∨ h.Has a
  := by
  by_cases hab : a = b
  · subst hab
    simp only [true_or, iff_true]
    use c
    apply put_cells_self
  · rw [has_congr (put_cells_of_ne h c hab)]
    simp only [hab, false_or]

theorem Heap.has_free (h : Heap α) (b : ℕ) {a : ℕ} :
  (h.free b).Has a ↔ a ≠ b ∧ h.Has a
  := by
  by_cases hab : a = b
  · subst hab
    simp [Heap.Has, Heap.free]
  · rw [has_congr (free_cells_of_ne h hab)]
    simp only [ne_eq, hab, not_false_eq_true, true_and]

theorem Heap.has_setNext (h : Heap α) (b : ℕ) (p : Option ℕ) {a : ℕ} :
  (h.setNext b p).Has a ↔ h.Has a
  := by
  by_cases hab : a = b
  · subst hab
    cases hc : h.cells a with
    | none =>
        have hsame : h.setNext a p = h := by
          simp only [setNext, hc]
        rw [hsame]
    | some c =>
        constructor
        · intro _
          use c
        · intro _
          exact ⟨_, setNext_cells_self hc p⟩
  · apply has_congr (setNext_cells_of_ne h p hab)

/-- The cells of a chain are allocated. -/
theorem Chain.has {h : Heap α} {p : Option ℕ} {l : List (ℕ × α)} (hl : Chain h p l) {c : ℕ × α}
    (hc : c ∈ l) :
  h.Has c.1
  := by
  obtain ⟨q, hq⟩ := hl.cell hc
  exact ⟨_, hq⟩

/-- `pushBack` allocates the new cell. -/
theorem has_pushBack (h : Heap α) (p : Option ℕ) (b : ℕ) (v : α) {a : ℕ} :
  (pushBack h p b v).1.Has a ↔ a = b ∨ h.Has a
  := by
  cases p with
  | none => apply Heap.has_put
  | some c =>
      simp only [pushBack]
      rw [Heap.has_setNext, Heap.has_put]

/-- Unlinking a cell frees it. -/
theorem has_unlink (h : Heap α) (p : Option ℕ) (b : ℕ) (prev : Option ℕ) {a : ℕ} :
  (unlink h p b prev).1.Has a ↔ a ≠ b ∧ h.Has a
  := by
  cases prev with
  | none => apply Heap.has_free
  | some c =>
      simp only [unlink]
      rw [Heap.has_free, Heap.has_setNext]

/-- `removeFirst` takes one cell out of the chain and frees it, and no other. -/
theorem Chain.removeFirst_has {h : Heap α} {f : α → Bool} {p : Option ℕ} {l : List (ℕ × α)}
    (hl : Chain h p l) {r : Heap α × Option ℕ} (hr : removeFirst h f p = some r) :
  ∃ l₁ c l₂, l = l₁ ++ c :: l₂ ∧ Chain r.1 r.2 (l₁ ++ l₂) ∧
    (∀ a, (∀ d ∈ l, d.1 ≠ a) → r.1.cells a = h.cells a) ∧ ∀ a, r.1.Has a ↔ a ≠ c.1 ∧ h.Has a
  := by
  by_cases hf : ∃ c ∈ l, f c.2 = true
  · obtain ⟨c, hc, hfc⟩ := hf
    obtain ⟨r', hr', hchain, hcells⟩ := hl.removeFirst_eq_some hc hfc
    obtain rfl := Option.some.inj (hr.symm.trans hr')
    obtain ⟨d, l₁, l₂, hl₁, hd, rfl, herase⟩ :=
      List.exists_of_eraseP (p := fun c : ℕ × α => f c.2) hc hfc
    rw [herase] at hchain
    refine ⟨l₁, d, l₂, rfl, hchain, hcells, ?_⟩
    have hlen := hl.length_le
    rw [List.length_append, List.length_cons] at hlen
    rw [removeFirst, hl.findCell_eq_some (fun e he => Bool.eq_false_iff.mpr (hl₁ e he)) hd
      (by omega)] at hr
    obtain rfl := Option.some.inj hr
    intro a
    apply has_unlink
  · have hnone : removeFirst h f p = none := by
      apply hl.removeFirst_eq_none
      intro c hc
      apply Bool.eq_false_iff.mpr fun hfc => hf ⟨c, hc, hfc⟩
    rw [hnone] at hr
    cases hr

/-- The cells reached from a pointer are freed one after the other, at most `fuel` of them; the next
pointer of a cell is read before the cell is freed. -/
def freeAll (h : Heap α) : ℕ → Option ℕ → Heap α
  | 0, _ => h
  | _, none => h
  | fuel + 1, some a =>
      match h.cells a with
      | some c => freeAll (h.free a) fuel c.next
      | none => h

/-- `freeAll` frees the cells of the chain, and touches no others. -/
theorem Chain.freeAll {h : Heap α} {p : Option ℕ} {l : List (ℕ × α)} (hl : Chain h p l) {fuel : ℕ}
    (hfuel : l.length ≤ fuel) (a : ℕ) :
  (LinkedList.freeAll h fuel p).cells a = if a ∈ l.map Prod.fst then none else h.cells a
  := by
  induction l generalizing h p fuel with
  | nil =>
      obtain rfl : p = none := hl
      cases fuel <;> rfl
  | cons c l ih =>
      have hnodup := hl.nodup
      obtain ⟨rfl, q, hc, hq⟩ := hl
      rw [List.map_cons, List.nodup_cons] at hnodup
      cases fuel with
      | zero => cases hfuel
      | succ fuel =>
          have hfree : Chain (h.free c.1) q l := by
            apply hq.frame
            intro d hd
            apply Heap.free_cells_of_ne
            intro hdc
            apply hnodup.1
            rw [← hdc]
            apply List.mem_map_of_mem hd
          simp only [LinkedList.freeAll, hc]
          rw [ih hfree (Nat.le_of_succ_le_succ hfuel), List.map_cons]
          by_cases hac : a = c.1
          · subst hac
            rw [if_neg hnodup.1, if_pos (List.mem_cons_self ..)]
            apply Function.update_self
          · rw [Heap.free_cells_of_ne _ hac]
            simp only [List.mem_cons, hac, false_or]

end LinkedList
