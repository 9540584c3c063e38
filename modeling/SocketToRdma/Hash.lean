import Mathlib.Data.Nat.Notation
import SocketToRdma.Lib.ByteMem

/-!
# The hash function of the tables

`murmurHash3` is the hash of `len` bytes of a memory, with the arithmetic of the 32-bit
unsigned integers; `hashFunction` hashes the four bytes of a key and takes the result
modulo the number of buckets.
-/

namespace SocketToRdma

/-- `HT_SZ`, the number of buckets of a table. -/
def htSz : ℕ := 1024

/-- `HT_SEED`, the seed of the hash. -/
def htSeed : BitVec 32 := 4426

/-- The multiplications and the rotation a block `k1` goes through before it is mixed in. -/
def murmurScramble (k1 : BitVec 32) : BitVec 32 :=
  let c1 : BitVec 32 := 0xcc9e2d51
  let c2 : BitVec 32 := 0x1b873593
  let k1 := k1 * c1
  let k1 := (k1 <<< 15) ||| (k1 >>> (32 - 15))
  k1 * c2

/-- One round of the loop over the four-byte blocks. -/
def murmurRound (h1 k1 : BitVec 32) : BitVec 32 :=
  let h1 := h1 ^^^ murmurScramble k1
  let h1 := (h1 <<< 13) ||| (h1 >>> (32 - 13))
  h1 * 5 + 0xe6546b64

/-- The hash after the four-byte blocks `i`, `i + 1`, … of which `n` are left. -/
def murmurBody (key : ByteMem) (h1 : BitVec 32) (i : ℕ) : ℕ → BitVec 32
  | 0 => h1
  | n + 1 => murmurBody key (murmurRound h1 (key.loadBits 32 (4 * i))) (i + 1) n

/-- The bytes after the last whole block, mixed in; the cases of the switch fall through. -/
def murmurTail (key : ByteMem) (len : ℕ) (h1 : BitVec 32) : BitVec 32 :=
  let tail := 4 * (len / 4)
  let byte := fun i => (key.loadBits 8 (tail + i)).setWidth 32
  match len % 4 with
  | 3 => h1 ^^^ murmurScramble (((byte 2 <<< 16) ^^^ (byte 1 <<< 8)) ^^^ byte 0)
  | 2 => h1 ^^^ murmurScramble ((byte 1 <<< 8) ^^^ byte 0)
  | 1 => h1 ^^^ murmurScramble (byte 0)
  | _ => h1

/-- The finalization: the length is mixed in and the bits are spread. -/
def murmurFinal (len : ℕ) (h1 : BitVec 32) : BitVec 32 :=
  let h1 := h1 ^^^ BitVec.ofNat 32 len
  let h1 := h1 ^^^ (h1 >>> 16)
  let h1 := h1 * 0x85ebca6b
  let h1 := h1 ^^^ (h1 >>> 13)
  let h1 := h1 * 0xc2b2ae35
  h1 ^^^ (h1 >>> 16)

/-- `MurmurHash3`: the hash of the `len` bytes at address `0` of `key`. -/
def murmurHash3 (key : ByteMem) (len : ℕ) (seed : BitVec 32) : BitVec 32 :=
  murmurFinal len (murmurTail key len (murmurBody key seed 0 (len / 4)))

/-- The memory that holds the four bytes of an `int`, as `&key` points to them. -/
def keyBytes (key : BitVec 32) : ByteMem :=
  ByteMem.storeBits (fun _ => 0) 0 key

/-- `hashFunction`: the bucket of a key. -/
def hashFunction (key : BitVec 32) : ℕ :=
  (murmurHash3 (keyBytes key) 4 htSeed).toNat % htSz

theorem hashFunction_lt (key : BitVec 32) :
  hashFunction key < htSz
  := Nat.mod_lt _ (by decide)

/-- The block of a key is the key. -/
theorem loadBits_keyBytes (key : BitVec 32) :
  (keyBytes key).loadBits 32 0 = key
  := by
  apply ByteMem.loadBits_storeBits
  rfl

/-- With one block to hash, the body is one round. -/
theorem murmurBody_one (key : ByteMem) (h1 : BitVec 32) :
  murmurBody key h1 0 (4 / 4) = murmurRound h1 (key.loadBits 32 0)
  := rfl

/-- Four bytes leave no tail. -/
theorem murmurTail_four (key : ByteMem) (h1 : BitVec 32) :
  murmurTail key 4 h1 = h1
  := rfl

/-- The hash of a key is one round and the finalization. -/
theorem murmurHash3_keyBytes (key seed : BitVec 32) :
  murmurHash3 (keyBytes key) 4 seed = murmurFinal 4 (murmurRound seed key)
  := by
  rw [murmurHash3, murmurBody_one, murmurTail_four, loadBits_keyBytes]

/-- The bucket of a key, with the four bytes of the key read as one block. -/
theorem hashFunction_eq (key : BitVec 32) :
  hashFunction key = (murmurFinal 4 (murmurRound htSeed key)).toNat % htSz
  := by
  rw [hashFunction, murmurHash3_keyBytes]

/-- Distinct keys can share a bucket. -/
theorem hashFunction_collide :
  hashFunction 19#32 = hashFunction 45#32
  := by
  rw [hashFunction_eq, hashFunction_eq]
  decide

end SocketToRdma
