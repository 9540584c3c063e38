import SocketToRdma.Hash
import SocketToRdma.Lib.Mixing

/-!
# How the hash spreads the keys

On the four bytes of a key, `murmurHash3` is a composition of mixing steps, each with an
inverse: the scrambling of the block, the round and the finalization. So it is a bijection
of the 32-bit words for every seed, and the buckets of a table share the keys evenly.
-/

namespace SocketToRdma

open Function

/-- The scrambling of a block: two multiplications by odd constants with a rotation between
them. -/
theorem murmurScramble_bijective :
  Bijective murmurScramble
  := by
  have hc1 := Mixing.bijective_mul
    (show (0xcc9e2d51 : BitVec 32) * 0xdee13bb1 = 1#32 by decide)
  have hrot := Mixing.bijective_rotate (w := 32) (k := 15) (by decide)
  have hc2 := Mixing.bijective_mul
    (show (0x1b873593 : BitVec 32) * 0x56ed309b = 1#32 by decide)
  exact hc2.comp (hrot.comp hc1)

/-- A round is a bijection in the block it mixes in, whatever the hash so far. -/
theorem murmurRound_bijective (h1 : BitVec 32) :
  Bijective (murmurRound h1)
  := by
  have hxor := Mixing.bijective_const_xor h1
  have hrot := Mixing.bijective_rotate (w := 32) (k := 13) (by decide)
  have hfive := Mixing.bijective_mul (show (5 : BitVec 32) * 0xcccccccd = 1#32 by decide)
  have hadd := Mixing.bijective_add (0xe6546b64 : BitVec 32)
  exact hadd.comp (hfive.comp (hrot.comp (hxor.comp murmurScramble_bijective)))

/-- The finalization is a bijection, whatever the length mixed in. -/
theorem murmurFinal_bijective (len : ℕ) :
  Bijective (murmurFinal len)
  := by
  have hlen := Mixing.bijective_xor (BitVec.ofNat 32 len)
  have hshift16 := Mixing.bijective_xorShift (w := 32) (k := 16) (by decide)
  have hshift13 := Mixing.bijective_xorShift (w := 32) (k := 13) (by decide)
  have hc1 := Mixing.bijective_mul
    (show (0x85ebca6b : BitVec 32) * 0xa5cb9243 = 1#32 by decide)
  have hc2 := Mixing.bijective_mul
    (show (0xc2b2ae35 : BitVec 32) * 0x7ed1b41d = 1#32 by decide)
  exact hshift16.comp (hc2.comp (hshift13.comp (hc1.comp (hshift16.comp hlen))))

/-- The hash of four bytes mixes the word they hold. -/
theorem murmurHash3_four (m : ByteMem) (seed : BitVec 32) :
  murmurHash3 m 4 seed = murmurFinal 4 (murmurRound seed (m.loadBits 32 0))
  := by
  rw [murmurHash3, murmurBody_one, murmurTail_four]

theorem murmurFinal_murmurRound_bijective (seed : BitVec 32) :
  Bijective fun key => murmurFinal 4 (murmurRound seed key)
  := (murmurFinal_bijective 4).comp (murmurRound_bijective seed)

/-- The hash of four bytes is a bijection of the 32-bit words they hold, for every seed, so
two memories have the same hash exactly when they hold the same word. Each of the `HT_SZ`
buckets of `hashFunction` receives `2 ^ 22` of the keys. -/
theorem murmurHash3_spreads_keys (seed : BitVec 32) (m m' : ByteMem) {i : ℕ} (hi : i < htSz) :
  Bijective (fun key => murmurHash3 (keyBytes key) 4 seed) ∧
    (murmurHash3 m 4 seed = murmurHash3 m' 4 seed ↔ m.loadBits 32 0 = m'.loadBits 32 0) ∧
    {key | hashFunction key = i}.ncard = 2 ^ 22
  := by
  refine ⟨?_, ?_, ?_⟩
  · simp only [murmurHash3_keyBytes]
    apply murmurFinal_murmurRound_bijective
  · rw [murmurHash3_four, murmurHash3_four]
    exact (murmurFinal_murmurRound_bijective seed).injective.eq_iff
  · simp only [hashFunction_eq]
    exact Mixing.ncard_bijective_mod (murmurFinal_murmurRound_bijective htSeed)
      (k := 10) (by decide) hi

/-- The first bucket receives its share of the keys. -/
theorem murmurHash3_spreads_keys_first :
  Bijective (fun key => murmurHash3 (keyBytes key) 4 htSeed) ∧
    (murmurHash3 (keyBytes 19) 4 htSeed = murmurHash3 (keyBytes 45) 4 htSeed ↔
      (keyBytes 19).loadBits 32 0 = (keyBytes 45).loadBits 32 0) ∧
    {key | hashFunction key = 0}.ncard = 2 ^ 22
  := murmurHash3_spreads_keys htSeed (keyBytes 19) (keyBytes 45) (by decide)

end SocketToRdma
