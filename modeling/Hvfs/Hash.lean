/-
This file embeds the hash functions of `include/hvfs_u.h` and `lib/hash.c` that
place a block in the CBHT and a key on a ring.
-/

import Hvfs.Const
import Hvfs.Library.Bytes

namespace Hvfs

open LittleEndian

/-- `hash_64`. -/
def hash64 (val : U64) (bits : Nat) : U64 :=
  let hash := val
  let n := hash <<< 18
  let hash := hash - n
  let n := n <<< 33
  let hash := hash - n
  let n := n <<< 3
  let hash := hash + n
  let n := n <<< 3
  let hash := hash - n
  let n := n <<< 4
  let hash := hash + n
  let n := n <<< 2
  let hash := hash + n
  hash >>> (64 - bits)

/-- The loop of `APHash` from the character `i` on. -/
def apHashFrom : Nat → BitVec 32 → List (BitVec 8) → BitVec 32
  | _, hash, [] => hash
  | i, hash, char :: str =>
    -- a `char` is signed
    let char := char.signExtend 32
    let mixed :=
      if i % 2 = 0 then (hash <<< 7) ^^^ (char * (hash >>> 3))
      else ~~~(((hash <<< 11) + char) ^^^ (hash >>> 5))
    apHashFrom (i + 1) (hash ^^^ mixed) str

/-- `APHash`. -/
def APHash (str : List (BitVec 8)) : BitVec 32 := apHashFrom 0 0xAAAAAAAA str

/-- `hvfs_hash_cbht`, of the identifier of a directory and the number of a block of it. -/
def hvfsHashCbht (key1 key2 : U64) : U64 :=
  hash64 key1 64 ^^^ (APHash (putWord 8 key2)).setWidth 64

def GOLDEN_RATIO_PRIME_32 : U64 := 0x9e370001
def GOLDEN_RATIO_PRIME_64 : U64 := 0x9e37fffffffc0001

def GOLDEN_RATIO_PRIME : U64 := GOLDEN_RATIO_PRIME_32

/-- `hvfs_hash_ring`, of a key and its salt. -/
def hvfsHashRing (key1 key2 : U64) : U64 :=
  let val1 := hash64 key2 64
  let val2 := hash64 key1 64
  val1 ^^^ (val2 ^^^ GOLDEN_RATIO_PRIME)

end Hvfs
