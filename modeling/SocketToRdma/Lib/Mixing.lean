import Mathlib.Data.BitVec
import Mathlib.Data.FinEnum
import Mathlib.Data.Set.Card
import Mathlib.Order.Interval.Finset.Nat

/-!
# Mixing steps on machine words

A hash function of words of `w` bits is composed of mixing steps: adding or xoring a
constant, multiplying by a constant, rotating, and xoring with a shift of the word to the
right. Each is a bijection on the words, the multiplication when the constant has an
inverse modulo `2 ^ w`, the xor-shift when it shifts by a positive amount. A bijection
followed by the remainder modulo `2 ^ k` takes each value below `2 ^ k` on exactly
`2 ^ (w - k)` words.
-/

namespace Mixing

open Function

variable {w : ℕ}

/-- The words of `w` bits are finitely many, so an injective map on them is bijective. -/
theorem bijective_of_injective {f : BitVec w → BitVec w} (hf : Injective f) :
  Bijective f
  := Finite.injective_iff_bijective.mp hf

theorem bijective_xor (c : BitVec w) :
  Bijective fun x : BitVec w => x ^^^ c
  := by
  apply bijective_of_injective
  intro x y h
  exact (BitVec.xor_left_inj c).mp h

theorem bijective_const_xor (c : BitVec w) :
  Bijective fun x : BitVec w => c ^^^ x
  := by
  apply bijective_of_injective
  intro x y h
  exact (BitVec.xor_right_inj c).mp h

theorem bijective_add (c : BitVec w) :
  Bijective fun x : BitVec w => x + c
  := by
  apply bijective_of_injective
  intro x y h
  exact (BitVec.add_left_inj c).mp h

/-- Multiplication by a constant is undone by multiplication by its inverse. -/
theorem bijective_mul {c d : BitVec w} (hcd : c * d = 1#w) :
  Bijective fun x : BitVec w => x * c
  := by
  have hundo : ∀ x : BitVec w, x * c * d = x := by
    intro x
    rw [BitVec.mul_assoc, hcd, BitVec.mul_one]
  apply bijective_of_injective
  intro x y h
  calc
    x = x * c * d := (hundo x).symm
    _ = y * c * d := congrArg (· * d) h
    _ = y := hundo y

/-- The bit `(i + k) % w` of a rotation to the left by `k` is the bit `i` of the word. -/
theorem getLsbD_rotate {k i : ℕ} (hk : k < w) (hi : i < w) (x : BitVec w) :
  ((x <<< k) ||| (x >>> (w - k))).getLsbD ((i + k) % w) = x.getLsbD i
  := by
  rw [BitVec.getLsbD_or, BitVec.getLsbD_shiftLeft, BitVec.getLsbD_ushiftRight]
  obtain hlow | hhigh := Nat.lt_or_ge (i + k) w
  · -- the bit moves up, and the right shift has a zero there
    have hzero : x.getLsbD (w - k + (i + k)) = false := BitVec.getLsbD_of_ge x _ (by omega)
    rw [Nat.mod_eq_of_lt hlow, hzero, Nat.add_sub_cancel]
    simp [hlow]
  · -- the bit wraps around to a place below `k`
    have hwrap : (i + k) % w = i + k - w := by
      rw [Nat.mod_eq_sub_mod hhigh, Nat.mod_eq_of_lt (by omega)]
    have hplace : w - k + (i + k - w) = i := by omega
    have hsmall : i + k - w < k := by omega
    rw [hwrap, hplace]
    simp [hsmall]

theorem bijective_rotate {k : ℕ} (hk : k < w) :
  Bijective fun x : BitVec w => (x <<< k) ||| (x >>> (w - k))
  := by
  apply bijective_of_injective
  intro x y h
  apply BitVec.eq_of_getLsbD_eq
  intro i hi
  rw [← getLsbD_rotate hk hi x, ← getLsbD_rotate hk hi y]
  exact congrArg (fun z : BitVec w => z.getLsbD ((i + k) % w)) h

/-- When the xor-shifts of two words agree, so do the words on their `j` highest groups of
`k` bits: the highest group is not changed, and each group is recovered from the one above
it. -/
theorem getLsbD_eq_of_xorShift {k : ℕ} {x y : BitVec w}
    (h : x ^^^ (x >>> k) = y ^^^ (y >>> k)) (j : ℕ) :
  ∀ i, w ≤ i + j * k → x.getLsbD i = y.getLsbD i
  := by
  induction j with
  | zero =>
      intro i hi
      rw [BitVec.getLsbD_of_ge x i (by omega), BitVec.getLsbD_of_ge y i (by omega)]
  | succ j ih =>
      intro i hi
      have habove : x.getLsbD (k + i) = y.getLsbD (k + i) := by
        apply ih
        rw [Nat.succ_mul] at hi
        omega
      have hbit := congrArg (fun z : BitVec w => z.getLsbD i) h
      simp only [BitVec.getLsbD_xor, BitVec.getLsbD_ushiftRight, habove] at hbit
      exact Bool.xor_left_inj.mp hbit

theorem bijective_xorShift {k : ℕ} (hk : 0 < k) :
  Bijective fun x : BitVec w => x ^^^ (x >>> k)
  := by
  apply bijective_of_injective
  intro x y h
  apply BitVec.eq_of_getLsbD_eq
  intro i _
  apply getLsbD_eq_of_xorShift h w i
  have := Nat.le_mul_of_pos_right w hk
  omega

/-- The words with a given remainder modulo `2 ^ k`: one for each value of the bits above
the `k` lowest. -/
theorem ncard_mod {k i : ℕ} (hk : k ≤ w) (hi : i < 2 ^ k) :
  {y : BitVec w | y.toNat % 2 ^ k = i}.ncard = 2 ^ (w - k)
  := by
  have hsplit : 2 ^ w = 2 ^ k * 2 ^ (w - k) := by
    rw [← pow_add, Nat.add_sub_cancel' hk]
  have hcount : (Finset.range (2 ^ (w - k)) : Set ℕ).ncard = 2 ^ (w - k) := by
    rw [Set.ncard_coe_finset, Finset.card_range]
  rw [← hcount]
  symm
  have hfits : ∀ q ∈ (Finset.range (2 ^ (w - k)) : Set ℕ), 2 ^ k * q + i < 2 ^ w := by
    intro q hq
    have hq' : q + 1 ≤ 2 ^ (w - k) := by simpa using hq
    calc
      2 ^ k * q + i < 2 ^ k * (q + 1) := by rw [Nat.mul_succ]; omega
      _ ≤ 2 ^ k * 2 ^ (w - k) := Nat.mul_le_mul_left _ hq'
      _ = 2 ^ w := hsplit.symm
  apply Set.ncard_congr (fun q _ => BitVec.ofNat w (2 ^ k * q + i))
  · intro q hq
    rw [Set.mem_ofPred_eq, BitVec.toNat_ofNat, Nat.mod_eq_of_lt (hfits q hq),
      Nat.mul_add_mod, Nat.mod_eq_of_lt hi]
  · intro q q' hq hq' h
    have hnat := congrArg BitVec.toNat h
    rw [BitVec.toNat_ofNat, BitVec.toNat_ofNat, Nat.mod_eq_of_lt (hfits q hq),
      Nat.mod_eq_of_lt (hfits q' hq')] at hnat
    exact Nat.eq_of_mul_eq_mul_left (Nat.two_pow_pos k) (Nat.add_right_cancel hnat)
  · intro y hy
    refine ⟨y.toNat / 2 ^ k, ?_, ?_⟩
    · have hlt : y.toNat / 2 ^ k < 2 ^ (w - k) := by
        apply Nat.div_lt_of_lt_mul
        rw [← hsplit]
        exact y.isLt
      simpa using hlt
    · apply BitVec.eq_of_toNat_eq
      rw [← hy, Nat.div_add_mod, BitVec.toNat_ofNat, Nat.mod_eq_of_lt y.isLt]

/-- A bijection taken modulo `2 ^ k` spreads the words evenly. -/
theorem ncard_bijective_mod {f : BitVec w → BitVec w} (hf : Bijective f) {k i : ℕ}
    (hk : k ≤ w) (hi : i < 2 ^ k) :
  {x | (f x).toNat % 2 ^ k = i}.ncard = 2 ^ (w - k)
  := by
  rw [← ncard_mod hk hi]
  have hrange : {y : BitVec w | y.toNat % 2 ^ k = i} ⊆ Set.range f := by
    intro y _
    apply hf.surjective
  exact Set.ncard_preimage_of_injective_subset_range hf.injective hrange

end Mixing
