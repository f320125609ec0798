/-
This file says what consistent hashing is for. Points stand on a circle of keys,
and a key belongs to the first point at or after it; a key behind the last point
belongs to the first point of all.

The owner of a key depends on the set of the points alone. It stays the owner in
every smaller set that still has it, so a new point takes keys only for itself
and a removed point gives away only its own.
-/

import Mathlib.Data.Set.Function
import Mathlib.Data.Set.Insert
import Mathlib.Order.Basic

namespace ConsistentHash

variable {Key Point : Type*} [LinearOrder Key] {place : Point → Key} {points fewer : Set Point}
  {key : Key} {owner other : Point}

/-- The point is the first one at or after the key, or the first one of all when none is. -/
def Owner (place : Point → Key) (points : Set Point) (key : Key) (owner : Point) : Prop :=
  owner ∈ points ∧
    ((key ≤ place owner ∧ ∀ point ∈ points, key ≤ place point → place owner ≤ place point) ∨
      ((∀ point ∈ points, place point < key) ∧ ∀ point ∈ points, place owner ≤ place point))

theorem Owner.mem (owned : Owner place points key owner) : owner ∈ points := owned.1

/-- The owner stays the owner among fewer points. -/
theorem Owner.mono (owned : Owner place points key owner) (fewerPoints : fewer ⊆ points)
    (kept : owner ∈ fewer) : Owner place fewer key owner := by
  refine ⟨kept, ?_⟩
  rcases owned.2 with ⟨behind, first⟩ | ⟨before, first⟩
  · exact Or.inl ⟨behind, fun point member => first point (fewerPoints member)⟩
  · exact Or.inr ⟨fun point member => before point (fewerPoints member),
      fun point member => first point (fewerPoints member)⟩

/-- Points at different places leave one owner to a key. -/
theorem Owner.unique (apart : Set.InjOn place points) (owned : Owner place points key owner)
    (also : Owner place points key other) : owner = other := by
  refine apart owned.mem also.mem (le_antisymm ?_ ?_)
  · rcases owned.2 with ⟨_, first⟩ | ⟨_, first⟩
    · rcases also.2 with ⟨behind, _⟩ | ⟨before, _⟩
      · exact first other also.mem behind
      · exact absurd (before owner owned.mem) (not_lt.mpr (by assumption))
    · exact first other also.mem
  · rcases also.2 with ⟨_, first⟩ | ⟨_, first⟩
    · rcases owned.2 with ⟨behind, _⟩ | ⟨before, _⟩
      · exact first owner owned.mem behind
      · exact absurd (before other also.mem) (not_lt.mpr (by assumption))
    · exact first owner owned.mem

/-- A new point takes keys only for itself. -/
theorem Owner.of_insert {added : Point} (apart : Set.InjOn place points)
    (after : Owner place (insert added points) key owner)
    (before : Owner place points key other) : owner = added ∨ owner = other := by
  rcases after.mem with same | kept
  · exact Or.inl same
  · exact Or.inr ((after.mono (Set.subset_insert _ _) kept).unique apart before)

/-- A removed point gives away only its own keys. -/
theorem Owner.of_remove (apart : Set.InjOn place points) (fewerPoints : fewer ⊆ points)
    (before : Owner place points key other) (kept : other ∈ fewer)
    (after : Owner place fewer key owner) : owner = other :=
  after.unique (apart.mono fewerPoints) (before.mono fewerPoints kept)

end ConsistentHash
