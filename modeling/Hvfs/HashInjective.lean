/-
This file proves that the integer hash loses no information. The six shifts of
`hash_64` add up to a multiplication by the golden ratio prime, which is odd and
so has an inverse modulo `2 ^ 64`.
-/

import Hvfs.Hash
import Mathlib.Algebra.Group.Units.Equiv
import Mathlib.Data.BitVec
import Mathlib.Tactic.Ring

namespace Hvfs

/-! ### The multiplication -/

theorem hash64_shifts (val : U64) : hash64 val 64 =
    val - val <<< 18 - val <<< 51 + val <<< 54 - val <<< 57 + val <<< 61 + val <<< 63 := by
  unfold hash64
  simp only [← BitVec.shiftLeft_add]
  exact BitVec.ushiftRight_zero _

theorem golden_ratio_powers : GOLDEN_RATIO_PRIME_64 =
    1 - BitVec.twoPow 64 18 - BitVec.twoPow 64 51 + BitVec.twoPow 64 54 - BitVec.twoPow 64 57 +
      BitVec.twoPow 64 61 + BitVec.twoPow 64 63 := by
  decide

theorem hash64_eq_mul (val : U64) : hash64 val 64 = val * GOLDEN_RATIO_PRIME_64 := by
  rw [hash64_shifts, golden_ratio_powers]
  simp only [BitVec.shiftLeft_eq_mul_twoPow]
  ring

theorem hash64_toNat (val : U64) :
    (hash64 val 64).toNat = val.toNat * 0x9e37fffffffc0001 % 2 ^ 64 := by
  rw [hash64_eq_mul, BitVec.toNat_mul]
  rfl

/-! ### The inverse -/

theorem golden_ratio_isUnit : IsUnit GOLDEN_RATIO_PRIME_64 := by
  have inverse : GOLDEN_RATIO_PRIME_64 * 0x6208001000040001#64 = 1 := by decide
  exact IsUnit.of_mul_eq_one _ inverse

theorem hash64_bijective : Function.Bijective fun val => hash64 val 64 := by
  have multiplies : (fun val => hash64 val 64) = fun val => val * GOLDEN_RATIO_PRIME_64 :=
    funext hash64_eq_mul
  rw [multiplies]
  exact IsUnit.isUnit_iff_mulRight_bijective.mp golden_ratio_isUnit

theorem hvfsHashCbht_injective (itbid : U64) :
    Function.Injective fun puuid => hvfsHashCbht puuid itbid := by
  intro first second same
  exact hash64_bijective.injective ((BitVec.xor_left_inj _).mp same)

theorem hvfsHashRing_key_injective (salt : U64) :
    Function.Injective fun key => hvfsHashRing key salt := by
  intro first second same
  exact hash64_bijective.injective ((BitVec.xor_left_inj _).mp ((BitVec.xor_right_inj _).mp same))

theorem hvfsHashRing_salt_injective (key : U64) :
    Function.Injective fun salt => hvfsHashRing key salt := by
  intro first second same
  exact hash64_bijective.injective ((BitVec.xor_left_inj _).mp same)

/-- The hashes of a directory's identifier and of a ring's key and salt lose no information. -/
theorem hash_loses_nothing :
    (∀ val : U64, (hash64 val 64).toNat = val.toNat * 0x9e37fffffffc0001 % 2 ^ 64) ∧
      (Function.Bijective fun val => hash64 val 64) ∧
      (∀ itbid, Function.Injective fun puuid => hvfsHashCbht puuid itbid) ∧
      (∀ salt, Function.Injective fun key => hvfsHashRing key salt) ∧
      ∀ key, Function.Injective fun salt => hvfsHashRing key salt :=
  ⟨hash64_toNat, hash64_bijective, hvfsHashCbht_injective, hvfsHashRing_key_injective,
    hvfsHashRing_salt_injective⟩

end Hvfs
