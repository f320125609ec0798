/-
This file proves that an addition finds its room: while fewer ITEs than the block
has are in use, there is a clear bit for the entry and, if its head is taken, a
FREE cell in the second half of the index, wherever the scan for it starts.

A chain has one cell in the first half, so at most one cell less than there are
entries lies in the second half, and that half is never full.
-/

import Hvfs.ItbRuns

namespace Hvfs

open Transition

/-! ### What an addition looks for -/

/-- The number of ITEs that are in use. -/
def Itb.usedItes (i : Itb) : Nat :=
  ((Finset.range i.total).filter fun nr => i.bitmap nr = true).card

/-- The first clear bit below `size`. -/
structure LeastClear (bitmap : Nat → Bool) (size nr : Nat) : Prop where
  bound : nr < size
  clear : bitmap nr = false
  least : ∀ bit < nr, bitmap bit = true

/-- A cell of the second half of the index that is FREE. -/
structure FreeCell (i : Itb) (cell : Nat) : Prop where
  low : i.total ≤ cell
  high : cell < 2 * i.total
  free : (i.index cell).flag = .free

section Room

variable {i : Itb} {chain : Nat → List Nat}

/-- The counter of entries counts the ITEs in use. -/
theorem Usage.usedItes (usage : Usage i) : (i.usedItes : Int) = i.entries := by
  have held : (Finset.range i.total).filter (fun nr => i.bitmap nr = true) = i.held := by
    ext nr
    rw [Finset.mem_filter, Finset.mem_range, usage.bits]
    constructor
    · exact And.right
    · exact fun member => ⟨usage.bound nr member, member⟩
  unfold Itb.usedItes
  rw [held, usage.distinct, usage.entries]

theorem Usage.leastClear (usage : Usage i) (notFull : i.entries < (i.total : Int)) :
    LeastClear i.bitmap i.total (findFirstZeroBit i.bitmap i.total) where
  bound := (usage.exists_clear notFull).1
  clear := (usage.exists_clear notFull).2
  least bit below := (findZeroBit_spec i.bitmap i.total 0).2.2 bit (Nat.zero_le bit) below

/-- The scan finds a FREE cell wherever it starts. -/
theorem Usage.freeCell (usage : Usage i) (notFull : i.entries < (i.total : Int)) {slot : Nat}
    (bound : slot < i.total) (head : (i.index slot).flag ≠ .free) (nr : Nat) (ite : Ite)
    (inf : Nat) : FreeCell i (itbGetFreeIndex { i.reserve nr ite with inf }).1 := by
  have sameIndex : ({ i.reserve nr ite with inf } : Itb).index = i.index := rfl
  obtain ⟨fresh, next, result, low, high, free⟩ :=
    itbGetFreeIndex_spec usage notFull bound head sameIndex rfl
  rw [result]
  exact ⟨low, high, free⟩

/-- A guarded run from the empty block leaves a block with chains. -/
theorem run_shape {depth : Nat} {calls : List ItbCall}
    (guarded : Guarded itbCall CallGuard (emptyItb depth) calls)
    (reached : run itbCall (emptyItb depth) calls = some i) : ∃ chain, Shape i chain := by
  refine guarded_invariant (fun i => ∃ chain, Shape i chain) ?_ ⟨_, emptyItb_shape depth⟩
    guarded reached
  intro i call next shape guard stepped
  obtain ⟨after, result, -, shapeAfter⟩ := itbCall_shape shape call guard
  rw [result] at stepped
  cases stepped
  exact shapeAfter

end Room

/-! ### Every run -/

/-- In a block that a run has reached with fewer ITEs in use than it has, `itb_add_ite` finds the
first clear bit, and behind a head that is taken `__itb_get_free_index` finds a FREE cell whatever
`inf` is. No addition to a block that a run has reached returns -EINVAL. -/
theorem itb_add_finds_room {depth : Nat} {calls : List ItbCall} {i : Itb}
    (guarded : Guarded itbCall CallGuard (emptyItb depth) calls)
    (reached : run itbCall (emptyItb depth) calls = some i) (hmi : Hmi) (hi : HvfsIndex) :
    (itbAddIte hmi i hi).err ≠ -EINVAL ∧
      (i.usedItes < i.total →
        (itbAddIte hmi i hi).err = 0 ∧
        LeastClear i.bitmap i.total (findFirstZeroBit i.bitmap i.total) ∧
        ((i.index (hashSlot i hi.hash)).flag ≠ .free → ∀ nr ite inf,
          FreeCell i (itbGetFreeIndex { i.reserve nr ite with inf }).1)) := by
  obtain ⟨chain, shape⟩ := run_shape guarded reached
  refine ⟨?_, fun fewer => ?_⟩
  · rcases (itbAddIte_shape shape hmi hi).1 with ok | split
    · rw [ok]
      decide
    · rw [split]
      decide
  · have notFull : i.entries < (i.total : Int) := by
      rw [← shape.usage.usedItes]
      exact Int.ofNat_lt.mpr fewer
    obtain ⟨nr, after, chainAfter, result, -⟩ := itbAddIte_added shape notFull hmi hi
    refine ⟨?_, shape.usage.leastClear notFull, fun head nr ite inf => ?_⟩
    · rw [result]
    · exact shape.usage.freeCell notFull (hashSlot_lt i hi.hash) head nr ite inf

/-- A second entry for a head that is taken, with the scan to start behind the last cell. -/
theorem itb_add_finds_room_colliding :
    FreeCell (itbAddIte ⟨0, 0⟩ (emptyItb 3) (collidingIndex INDEX_CREATE 0 97)).itb
      (itbGetFreeIndex { (itbAddIte ⟨0, 0⟩ (emptyItb 3)
        (collidingIndex INDEX_CREATE 0 97)).itb.reserve 1 {} with inf := 65535 }).1 := by
  have guarded : Guarded itbCall CallGuard (emptyItb 3)
      [.add ⟨0, 0⟩ (collidingIndex INDEX_CREATE 0 97)] :=
    ⟨trivial, fun _ _ => trivial⟩
  have found := itb_add_finds_room guarded rfl ⟨0, 0⟩ (collidingIndex INDEX_CREATE 8 98)
  exact (found.2 (by decide)).2.2 (by decide) 1 {} 65535

end Hvfs
