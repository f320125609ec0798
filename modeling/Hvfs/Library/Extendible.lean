/-
This file is about the directory of an extendible hash table.

The directory has `2 ^ depth` slots and each slot names a bucket. A bucket has
its own depth, its level: it serves the keys whose last `level` bits are its id,
so it stands in every slot that ends in these bits. The directory grows by
doubling, and a bucket that is less deep than the directory can be split.
-/

import Mathlib.Tactic.Common
import Mathlib.Data.Nat.ModEq
import Mathlib.Algebra.Order.Ring.Nat

namespace Extendible

variable {Bucket : Type*}

/-- Each slot names the bucket of its last bits. -/
structure Directed (depth : Nat) (slot : Nat → Bucket) (level id : Bucket → Nat) : Prop where
  shallow : ∀ j < 2 ^ depth, level (slot j) ≤ depth
  named : ∀ j < 2 ^ depth, id (slot j) = j % 2 ^ level (slot j)
  same : ∀ j < 2 ^ depth, ∀ k < 2 ^ depth,
    k % 2 ^ level (slot j) = j % 2 ^ level (slot j) → slot k = slot j

section Bits

/-- The next bit of a number is clear or set. -/
theorem mod_two_pow_succ_cases (j d : Nat) :
    j % 2 ^ (d + 1) = j % 2 ^ d ∨ j % 2 ^ (d + 1) = j % 2 ^ d + 2 ^ d := by
  rw [Nat.mod_pow_succ]
  rcases Nat.mod_two_eq_zero_or_one (j / 2 ^ d) with bit | bit <;> rw [bit]
  · left
    rw [Nat.mul_zero, Nat.add_zero]
  · right
    rw [Nat.mul_one]

theorem mod_mod_two_pow {level depth : Nat} (shallow : level ≤ depth) (h : Nat) :
    h % 2 ^ depth % 2 ^ level = h % 2 ^ level :=
  Nat.mod_mod_of_dvd h (pow_dvd_pow 2 shallow)

end Bits

namespace Directed

variable {depth : Nat} {slot : Nat → Bucket} {level id : Bucket → Nat}

/-- Which slots name the bucket of the slot `j`. -/
theorem slot_iff (directed : Directed depth slot level id) {j k : Nat} (inside : j < 2 ^ depth)
    (insideOther : k < 2 ^ depth) :
    slot k = slot j ↔ k % 2 ^ level (slot j) = id (slot j) := by
  constructor
  · intro same
    have named := directed.named k insideOther
    rw [same] at named
    exact named.symm
  · intro bits
    rw [directed.named j inside] at bits
    exact directed.same j inside k insideOther bits

/-- Which keys belong to the bucket of the slot `j`. -/
theorem lookup_iff (directed : Directed depth slot level id) {j : Nat} (inside : j < 2 ^ depth)
    (h : Nat) : slot (h % 2 ^ depth) = slot j ↔ h % 2 ^ level (slot j) = id (slot j) := by
  have bound : h % 2 ^ depth < 2 ^ depth := Nat.mod_lt _ (Nat.two_pow_pos depth)
  rw [directed.slot_iff inside bound, mod_mod_two_pow (directed.shallow j inside)]

theorem id_lt (directed : Directed depth slot level id) {j : Nat} (inside : j < 2 ^ depth) :
    id (slot j) < 2 ^ level (slot j) := by
  rw [directed.named j inside]
  exact Nat.mod_lt _ (Nat.two_pow_pos _)

/-- A directory with one bucket. -/
theorem single (slot : Nat → Bucket) (flat : level (slot 0) = 0) (first : id (slot 0) = 0) :
    Directed 0 slot level id := by
  have zero : ∀ j, j < 2 ^ 0 → j = 0 := fun j inside => Nat.lt_one_iff.mp inside
  constructor
  · intro j inside
    rw [zero j inside, flat]
  · intro j inside
    rw [zero j inside, first, Nat.zero_mod]
  · intro j inside k insideOther _
    rw [zero j inside, zero k insideOther]

/-- Doubling the directory. -/
theorem double (directed : Directed depth slot level id) :
    Directed (depth + 1) (fun j => slot (j % 2 ^ depth)) level id := by
  have bound : ∀ j, j % 2 ^ depth < 2 ^ depth := fun j => Nat.mod_lt _ (Nat.two_pow_pos depth)
  have bits : ∀ j k, k % 2 ^ depth % 2 ^ level (slot (j % 2 ^ depth)) =
      k % 2 ^ level (slot (j % 2 ^ depth)) :=
    fun j k => mod_mod_two_pow (directed.shallow _ (bound j)) k
  constructor
  · exact fun j _ => Nat.le_succ_of_le (directed.shallow _ (bound j))
  · intro j _
    rw [directed.named _ (bound j), bits]
  · intro j _ k _ same
    refine directed.same _ (bound j) _ (bound k) ?_
    rw [bits, bits]
    exact same

/-- The directory depends on its slots and on the levels and ids of the buckets in them. -/
theorem congr (directed : Directed depth slot level id) {slotAfter : Nat → Bucket}
    {levelAfter idAfter : Bucket → Nat} (slots : ∀ j < 2 ^ depth, slotAfter j = slot j)
    (levels : ∀ j < 2 ^ depth, levelAfter (slot j) = level (slot j))
    (ids : ∀ j < 2 ^ depth, idAfter (slot j) = id (slot j)) :
    Directed depth slotAfter levelAfter idAfter := by
  constructor
  · intro j inside
    rw [slots j inside, levels j inside]
    exact directed.shallow j inside
  · intro j inside
    rw [slots j inside, levels j inside, ids j inside]
    exact directed.named j inside
  · intro j inside k insideOther
    rw [slots j inside, slots k insideOther, levels j inside]
    exact directed.same j inside k insideOther

/-- Splitting a bucket that is less deep than the directory: the fresh bucket takes the slots whose
next bit is set. -/
theorem split (directed : Directed depth slot level id) {old new : Bucket}
    {levelAfter idAfter : Bucket → Nat} {slotAfter : Nat → Bucket}
    (present : ∃ j < 2 ^ depth, slot j = old) (room : level old < depth)
    (fresh : ∀ j < 2 ^ depth, slot j ≠ new)
    (levelOld : levelAfter old = level old + 1) (levelNew : levelAfter new = level old + 1)
    (idOld : idAfter old = id old) (idNew : idAfter new = id old + 2 ^ level old)
    (levels : ∀ b, b ≠ old → b ≠ new → levelAfter b = level b)
    (ids : ∀ b, b ≠ old → b ≠ new → idAfter b = id b)
    (slots : ∀ j < 2 ^ depth, slotAfter j =
      if j % 2 ^ (level old + 1) = id old + 2 ^ level old then new else slot j) :
    Directed depth slotAfter levelAfter idAfter := by
  obtain ⟨j₀, inside₀, rfl⟩ := present
  have small := directed.id_lt inside₀
  have wide := Nat.two_pow_pos (level (slot j₀))
  have apart : slot j₀ ≠ new := fresh j₀ inside₀
  -- the slots of the split bucket by their next bit, and all the others
  have kinds : ∀ j < 2 ^ depth,
      (j % 2 ^ (level (slot j₀) + 1) = id (slot j₀) + 2 ^ level (slot j₀) ∧ slotAfter j = new) ∨
      (j % 2 ^ (level (slot j₀) + 1) = id (slot j₀) ∧ slotAfter j = slot j₀) ∨
      (j % 2 ^ level (slot j₀) ≠ id (slot j₀) ∧ slotAfter j = slot j ∧ slot j ≠ slot j₀ ∧
        slot j ≠ new) := by
    intro j inside
    have belongs := directed.slot_iff inside₀ inside
    have low := Nat.mod_lt j wide
    rw [slots j inside]
    rcases mod_two_pow_succ_cases j (level (slot j₀)) with bit | bit <;> rw [bit]
    · have notSet : ¬j % 2 ^ level (slot j₀) = id (slot j₀) + 2 ^ level (slot j₀) := by omega
      rw [if_neg notSet]
      by_cases here : j % 2 ^ level (slot j₀) = id (slot j₀)
      · exact Or.inr (Or.inl ⟨here, belongs.mpr here⟩)
      · exact Or.inr (Or.inr ⟨here, rfl, fun same => here (belongs.mp same), fresh j inside⟩)
    · by_cases here : j % 2 ^ level (slot j₀) = id (slot j₀)
      · left
        rw [here, if_pos rfl]
        exact ⟨rfl, rfl⟩
      · rw [if_neg fun set => here (Nat.add_right_cancel set)]
        exact Or.inr (Or.inr ⟨here, rfl, fun same => here (belongs.mp same), fresh j inside⟩)
  have truncated : ∀ k, k % 2 ^ (level (slot j₀) + 1) % 2 ^ level (slot j₀) =
      k % 2 ^ level (slot j₀) := mod_mod_two_pow (Nat.le_succ _)
  constructor
  · intro j inside
    rcases kinds j inside with ⟨_, here⟩ | ⟨_, here⟩ | ⟨_, here, notOld, notNew⟩ <;> rw [here]
    · rw [levelNew]
      exact room
    · rw [levelOld]
      exact room
    · rw [levels _ notOld notNew]
      exact directed.shallow j inside
  · intro j inside
    rcases kinds j inside with ⟨bits, here⟩ | ⟨bits, here⟩ | ⟨_, here, notOld, notNew⟩ <;> rw [here]
    · rw [levelNew, idNew, bits]
    · rw [levelOld, idOld, bits]
    · rw [levels _ notOld notNew, ids _ notOld notNew]
      exact directed.named j inside
  · intro j inside k insideOther same
    rcases kinds j inside with ⟨bits, here⟩ | ⟨bits, here⟩ | ⟨outside, here, notOld, notNew⟩ <;>
      rw [here] at same ⊢
    · rw [levelNew, bits] at same
      rcases kinds k insideOther with ⟨_, there⟩ | ⟨bitsOther, _⟩ | ⟨outside, _⟩
      · exact there
      · omega
      · refine absurd ?_ outside
        rw [← truncated, same, Nat.add_mod_right, Nat.mod_eq_of_lt small]
    · rw [levelOld, bits] at same
      rcases kinds k insideOther with ⟨bitsOther, _⟩ | ⟨_, there⟩ | ⟨outside, _⟩
      · omega
      · exact there
      · refine absurd ?_ outside
        rw [← truncated, same, Nat.mod_eq_of_lt small]
    · rw [levels _ notOld notNew] at same
      have together := directed.same j inside k insideOther same
      rcases kinds k insideOther with ⟨bits, _⟩ | ⟨bits, _⟩ | ⟨_, there, _⟩
      · refine absurd ((directed.slot_iff inside₀ insideOther).mpr ?_) (together ▸ notOld)
        rw [← truncated, bits, Nat.add_mod_right, Nat.mod_eq_of_lt small]
      · refine absurd ((directed.slot_iff inside₀ insideOther).mpr ?_) (together ▸ notOld)
        rw [← truncated, bits, Nat.mod_eq_of_lt small]
      · rw [there, together]

end Directed

end Extendible
