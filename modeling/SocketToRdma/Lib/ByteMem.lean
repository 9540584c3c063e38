import Mathlib.Data.Nat.Notation
import Mathlib.Tactic.Ring
import Mathlib.Tactic.Use

/-!
# Byte-addressed memory

A memory is a map from addresses to bytes. An object of `n` bytes is a `Block n`; it is
stored at an address with `ByteMem.store` and read back with `ByteMem.load`. A machine
word of `w` bits is stored in its `w / 8` little-endian bytes with `ByteMem.storeBits` and
read back with `ByteMem.loadBits`. Two memories that agree on a range give the same blocks
and words at addresses inside the range.
-/

/-- An object of `n` bytes. -/
abbrev Block (n : ℕ) : Type := Fin n → UInt8

namespace Block

/-- The object of `n` bytes all equal to `b`. -/
def fill (n : ℕ) (b : UInt8) : Block n :=
  fun _ => b

/-- The `n` little-endian bytes of `x`; what does not fit is dropped. -/
def ofNat (n x : ℕ) : Block n :=
  fun i => UInt8.ofNat (x / 256 ^ i.val)

/-- The number whose little-endian bytes are those of the object. -/
def toNat : {n : ℕ} → Block n → ℕ
  | 0, _ => 0
  | _ + 1, b => (b 0).toNat + 256 * toNat (fun i => b i.succ)

theorem toNat_ofNat (n x : ℕ) :
  (ofNat n x).toNat = x % 256 ^ n
  := by
  induction n generalizing x with
  | zero => simp [toNat, Nat.mod_one]
  | succ n ih =>
      have htail : (fun i : Fin n => ofNat (n + 1) x i.succ) = ofNat n (x / 256) := by
        funext i
        simp only [ofNat, Fin.val_succ, Nat.pow_succ', Nat.div_div_eq_div_mul]
      simp only [toNat, htail, ih]
      rw [Nat.pow_succ', Nat.mod_mul]
      simp [ofNat]

/-- Objects that hold the same number are equal. -/
theorem toNat_injective {n : ℕ} {b b' : Block n} (h : b.toNat = b'.toNat) :
  b = b'
  := by
  induction n with
  | zero =>
      funext i
      apply i.elim0
  | succ n ih =>
      simp only [toNat] at h
      have hlt := UInt8.toNat_lt (b 0)
      have hlt' := UInt8.toNat_lt (b' 0)
      have htail : (fun i : Fin n => b i.succ) = fun i => b' i.succ := by
        apply ih
        omega
      funext i
      cases i using Fin.cases with
      | zero =>
          apply UInt8.toNat_inj.mp
          omega
      | succ i => apply congrFun htail i

theorem toNat_lt {n : ℕ} (b : Block n) :
  b.toNat < 256 ^ n
  := by
  induction n with
  | zero => simp [toNat]
  | succ n ih =>
      have hlt := UInt8.toNat_lt (b 0)
      have htail := ih (fun i => b i.succ)
      rw [Nat.pow_succ']
      simp only [toNat]
      omega

/-- The object of zeros is zero. -/
@[simp]
theorem toNat_fill_zero (n : ℕ) :
  (fill n 0).toNat = 0
  := by
  induction n with
  | zero => rfl
  | succ n ih =>
      simp only [toNat, fill, UInt8.toNat_zero, Nat.zero_add]
      rw [show (fun _ : Fin n => (0 : UInt8)) = fill n 0 from rfl, ih]

end Block

/-- A byte-addressed memory. -/
def ByteMem : Type := ℕ → UInt8

namespace ByteMem

/-- The object of `n` bytes at address `p`. -/
def load (m : ByteMem) (p n : ℕ) : Block n :=
  fun i => m (p + i.val)

/-- The memory with the object `b` stored at address `p`. -/
def store {n : ℕ} (m : ByteMem) (p : ℕ) (b : Block n) : ByteMem :=
  fun a => if h : p ≤ a ∧ a < p + n then b ⟨a - p, by omega⟩ else m a

/-- The word of `w` bits at address `p`. -/
def loadBits (w : ℕ) (m : ByteMem) (p : ℕ) : BitVec w :=
  BitVec.ofNat w (m.load p (w / 8)).toNat

/-- The memory with the word `x` stored at address `p`. -/
def storeBits {w : ℕ} (m : ByteMem) (p : ℕ) (x : BitVec w) : ByteMem :=
  m.store p (Block.ofNat (w / 8) x.toNat)

/-- The memory with the `n` bytes from address `p` on set to `b`. -/
def memset (m : ByteMem) (p : ℕ) (b : UInt8) (n : ℕ) : ByteMem :=
  m.store p (Block.fill n b)

/-- The number held in `n + k` bytes, from the one in the first `n` and the one in the rest. -/
theorem toNat_load_add (m : ByteMem) (p n k : ℕ) :
  (m.load p (n + k)).toNat = (m.load p n).toNat + 256 ^ n * (m.load (p + n) k).toNat
  := by
  induction n generalizing p with
  | zero =>
      rw [Nat.zero_add]
      simp [Block.toNat]
  | succ n ih =>
      have htail : ∀ j, (fun i : Fin j => m.load p (j + 1) i.succ) = m.load (p + 1) j := by
        intro j
        funext i
        simp only [load, Fin.val_succ]
        congr 1
        omega
      rw [Nat.add_right_comm n 1 k]
      simp only [Block.toNat, htail, ih]
      rw [Nat.pow_succ', Nat.add_right_comm p 1 n, Nat.add_assoc p n 1]
      simp only [load, Fin.val_zero]
      ring

/-- The low bits of a word are the word of its first bytes. -/
theorem setWidth_loadBits {w w' : ℕ} (m : ByteMem) (p : ℕ) (hw : w' ≤ w)
    (hw' : 8 * (w' / 8) = w') :
  (m.loadBits w p).setWidth w' = m.loadBits w' p
  := by
  apply BitVec.eq_of_toNat_eq
  obtain ⟨k, hk⟩ := Nat.exists_eq_add_of_le (Nat.div_le_div_right (c := 8) hw)
  have hpow : 256 ^ (w' / 8) = 2 ^ w' := by
    rw [show 256 = 2 ^ 8 from rfl, ← Nat.pow_mul, hw']
  simp only [loadBits, BitVec.toNat_setWidth, BitVec.toNat_ofNat]
  rw [Nat.mod_mod_of_dvd _ (Nat.pow_dvd_pow 2 hw), hk, toNat_load_add, hpow,
    Nat.add_mul_mod_self_left]

/-! ### Agreement on a range -/

/-- The memories `m` and `m'` hold the same `n` bytes from address `p` on. -/
def AgreeOn (m m' : ByteMem) (p n : ℕ) : Prop :=
  ∀ a, p ≤ a → a < p + n → m a = m' a

theorem AgreeOn.refl (m : ByteMem) (p n : ℕ) :
  AgreeOn m m p n
  := fun _ _ _ => rfl

theorem AgreeOn.symm {m m' : ByteMem} {p n : ℕ} (h : AgreeOn m m' p n) :
  AgreeOn m' m p n
  := fun a hp hn => (h a hp hn).symm

theorem AgreeOn.trans {m m' m'' : ByteMem} {p n : ℕ} (h : AgreeOn m m' p n)
    (h' : AgreeOn m' m'' p n) :
  AgreeOn m m'' p n
  := fun a hp hn => (h a hp hn).trans (h' a hp hn)

/-- Agreement on a range restricts to a range inside it. -/
theorem AgreeOn.mono {m m' : ByteMem} {p n q k : ℕ} (h : AgreeOn m m' p n)
    (hp : p ≤ q) (hn : q + k ≤ p + n) :
  AgreeOn m m' q k
  := fun a ha hk => h a (by omega) (by omega)

/-- Memories that agree on a range hold the same object there. -/
theorem AgreeOn.load {m m' : ByteMem} {p n : ℕ} (h : AgreeOn m m' p n) :
  m.load p n = m'.load p n
  := by
  funext i
  apply h <;> omega

/-- Memories that agree on the bytes of a word hold the same word there. -/
theorem AgreeOn.loadBits {m m' : ByteMem} {p w : ℕ} (h : AgreeOn m m' p (w / 8)) :
  m.loadBits w p = m'.loadBits w p
  := by
  rw [ByteMem.loadBits, h.load, ByteMem.loadBits]

/-- Memories agree on the bytes of a word of whole bytes exactly when they hold the same word
there. -/
theorem agreeOn_iff_loadBits {m m' : ByteMem} {p w : ℕ} (hw : 8 * (w / 8) = w) :
  AgreeOn m m' p (w / 8) ↔ m.loadBits w p = m'.loadBits w p
  := by
  constructor
  · apply AgreeOn.loadBits
  · intro h a hp hn
    have hpow : 256 ^ (w / 8) = 2 ^ w := by
      rw [show 256 = 2 ^ 8 from rfl, ← Nat.pow_mul, hw]
    have hnat : (m.load p (w / 8)).toNat = (m'.load p (w / 8)).toNat := by
      have h' := congrArg BitVec.toNat h
      simp only [ByteMem.loadBits, BitVec.toNat_ofNat, ← hpow] at h'
      rwa [Nat.mod_eq_of_lt (Block.toNat_lt _), Nat.mod_eq_of_lt (Block.toNat_lt _)] at h'
    have hbyte := congrFun (Block.toNat_injective hnat) ⟨a - p, by omega⟩
    simp only [ByteMem.load] at hbyte
    rwa [Nat.add_sub_cancel' hp] at hbyte

/-- A store outside a range leaves the range as it was. -/
theorem agreeOn_store {n : ℕ} (m : ByteMem) (p : ℕ) (b : Block n) {q k : ℕ}
    (h : q + k ≤ p ∨ p + n ≤ q) :
  AgreeOn (m.store p b) m q k
  := by
  intro a hq hk
  simp only [store]
  rw [dif_neg]
  omega

/-- Memories in which the same object was stored agree on it. -/
theorem agreeOn_store_self {n : ℕ} (m m' : ByteMem) (p : ℕ) (b : Block n) :
  AgreeOn (m.store p b) (m'.store p b) p n
  := by
  intro a hp hn
  simp only [store]
  rw [dif_pos ⟨hp, hn⟩, dif_pos ⟨hp, hn⟩]

/-- A memory into which an object was copied agrees with the one it was copied from. -/
theorem agreeOn_store_load (m m' : ByteMem) (p n : ℕ) :
  AgreeOn (m.store p (m'.load p n)) m' p n
  := by
  intro a hp hn
  simp only [store, load]
  rw [dif_pos ⟨hp, hn⟩, Nat.add_sub_cancel' hp]

/-- Setting bytes leaves a range as it was exactly when the bytes of the range among them had
that value already. -/
theorem memset_agreeOn_iff (m : ByteMem) (p : ℕ) (b : UInt8) (n q k : ℕ) :
  AgreeOn (m.memset p b n) m q k ↔
    ∀ a, p ≤ a → a < p + n → q ≤ a → a < q + k → m a = b
  := by
  constructor
  · intro h a hp hn hq hk
    rw [← h a hq hk, memset, store, dif_pos ⟨hp, hn⟩]
    rfl
  · intro h a hq hk
    simp only [memset, store]
    split
    case isTrue ha => apply (h a ha.1 ha.2 hq hk).symm
    case isFalse => rfl

/-- The memories differ in the `n` bytes from address `p` on at most. -/
def DifferIn (m m' : ByteMem) (p n : ℕ) : Prop :=
  ∀ a, a < p ∨ p + n ≤ a → m' a = m a

theorem differIn_of_agreeOn {m m' : ByteMem} {p n : ℕ}
    (h : ∀ q k, q + k ≤ p ∨ p + n ≤ q → AgreeOn m' m q k) :
  DifferIn m m' p n
  := fun a ha => h a 1 (by omega) a (le_refl _) (Nat.lt_succ_self _)

/-- The next bytes copied behind those copied before. -/
theorem store_load_append (m m' : ByteMem) (p q n k : ℕ) :
  (m.store p (m'.load q n)).store (p + n) (m'.load (q + n) k) = m.store p (m'.load q (n + k))
  := by
  funext a
  simp only [store, load]
  by_cases hlow : p ≤ a ∧ a < p + n
  · rw [dif_neg (by omega), dif_pos hlow, dif_pos (by omega)]
  · by_cases hhigh : p + n ≤ a ∧ a < p + n + k
    · rw [dif_pos hhigh, dif_pos (by omega)]
      congr 1
      omega
    · rw [dif_neg hhigh, dif_neg hlow, dif_neg (by omega)]

theorem store_load_zero (m m' : ByteMem) (p q : ℕ) :
  m.store p (m'.load q 0) = m
  := by
  funext a
  rw [store, dif_neg (by omega)]

/-! ### Reading back what was stored -/

theorem load_store {n : ℕ} (m : ByteMem) (p : ℕ) (b : Block n) :
  (m.store p b).load p n = b
  := by
  funext i
  simp [load, store]

/-- The bytes from an address on, when the object there is the one another memory starts with. -/
theorem agreeOn_of_load_eq {m m' : ByteMem} {p n : ℕ} (h : m.load p n = m'.load 0 n) :
  AgreeOn (fun j => m (p + j)) m' 0 n
  := by
  intro a _ ha
  have hbyte := congrFun h ⟨a, by omega⟩
  simpa only [load, Nat.zero_add] using hbyte

/-- A word of whole bytes is read back as it was stored. -/
theorem loadBits_storeBits {w : ℕ} (m : ByteMem) (p : ℕ) (x : BitVec w) (hw : 8 * (w / 8) = w) :
  (m.storeBits p x).loadBits w p = x
  := by
  apply BitVec.eq_of_toNat_eq
  have hpow : 256 ^ (w / 8) = 2 ^ w := by
    rw [show 256 = 2 ^ 8 from rfl, ← Nat.pow_mul, hw]
  rw [loadBits, storeBits, load_store, BitVec.toNat_ofNat, Block.toNat_ofNat, hpow, Nat.mod_mod,
    Nat.mod_eq_of_lt x.isLt]

/-- A store outside the object read leaves it as it was. -/
theorem load_store_of_disjoint {n k : ℕ} (m : ByteMem) (p : ℕ) (b : Block n) {q : ℕ}
    (h : q + k ≤ p ∨ p + n ≤ q) :
  (m.store p b).load q k = m.load q k
  := (agreeOn_store m p b h).load

/-- A store outside the word read leaves it as it was. -/
theorem loadBits_store_of_disjoint {n w : ℕ} (m : ByteMem) (p : ℕ) (b : Block n) {q : ℕ}
    (h : q + w / 8 ≤ p ∨ p + n ≤ q) :
  (m.store p b).loadBits w q = m.loadBits w q
  := (agreeOn_store m p b h).loadBits

/-- A word stored outside the word read leaves it as it was. -/
theorem loadBits_storeBits_of_disjoint {w w' : ℕ} (m : ByteMem) (p : ℕ) (x : BitVec w') {q : ℕ}
    (h : q + w / 8 ≤ p ∨ p + w' / 8 ≤ q) :
  (m.storeBits p x).loadBits w q = m.loadBits w q
  := loadBits_store_of_disjoint m p _ h

/-- The first word of an object that was copied. -/
theorem loadBits_store_load {w n : ℕ} (m m' : ByteMem) (p q : ℕ) (h : w / 8 ≤ n) :
  (m.store p (m'.load q n)).loadBits w p = m'.loadBits w q
  := by
  have hload : (m.store p (m'.load q n)).load p (w / 8) = m'.load q (w / 8) := by
    funext i
    simp only [load, store]
    rw [dif_pos (by omega), Nat.add_sub_cancel_left]
  rw [loadBits, hload, loadBits]

/-- A word inside a zeroed range is zero. -/
theorem loadBits_memset_zero {w : ℕ} (m : ByteMem) (p n q : ℕ) (hp : p ≤ q)
    (hn : q + w / 8 ≤ p + n) :
  (m.memset p 0 n).loadBits w q = 0
  := by
  have hblock : (m.memset p 0 n).load q (w / 8) = Block.fill (w / 8) 0 := by
    funext i
    simp only [load, memset, store, Block.fill, dite_eq_ite]
    rw [if_pos]
    omega
  rw [loadBits, hblock, Block.toNat_fill_zero]
  rfl

end ByteMem
