/-
This file proves the representation invariant of a block along every run of
`itb_add_ite`, `ite_unlink` and `async_unlink_ite` from the empty block.
-/

import Hvfs.ItbPass
import Hvfs.Library.Transition

namespace Hvfs

open Transition

/-! ### The calls -/

/-- A call of one of the functions that change a block. -/
inductive ItbCall
  | add (hmi : Hmi) (hi : HvfsIndex)
  | unlink (cell slot : Nat)
  | async (limit : Nat) (count : UnlinkCount)

/-- The block after a call. -/
def itbCall (i : Itb) : ItbCall → Option Itb
  | .add hmi hi => some (itbAddIte hmi i hi).itb
  | .unlink cell slot => iteUnlink i cell slot
  | .async limit count => (asyncUnlinkIte limit i count).map Prod.fst

/-- `ite_unlink` is called for a cell that a search of the chain of `slot` found. -/
def CallGuard (i : Itb) : ItbCall → Prop
  | .unlink cell slot => OnChain i cell slot
  | _ => True

/-! ### One call -/

/-- `ite_unlink` marks a normal entry, and takes a link entry off its chain. -/
theorem iteUnlink_shape {i : Itb} {chain : Nat → List Nat} (shape : Shape i chain)
    {cell slot : Nat} (member : cell ∈ chain slot) :
    ∃ after chainAfter, iteUnlink i cell slot = some after ∧ after.adepth = i.adepth ∧
      Shape after chainAfter := by
  unfold iteUnlink
  by_cases normal : Flag.has (i.ite (i.index cell).entry).flag ITE_FLAG_NORMAL = true
  · refine ⟨_, chain, if_pos normal, rfl, ?_⟩
    exact (shape.setIte (i.index cell).entry _).setUnlink _
  · simp only [if_neg normal]
    by_cases link : Flag.has (i.ite (i.index cell).entry).flag ITE_FLAG_LS = true
    · obtain ⟨after, chainAfter, result, dropped⟩ := itbDelIte_dropped shape member
      exact ⟨after, chainAfter, by rw [if_pos link, result], dropped.adepth, dropped.shape⟩
    · exact ⟨i, chain, if_neg link, rfl, shape⟩

/-- Each call goes through and keeps the shape. -/
theorem itbCall_shape {i : Itb} (shape : ∃ chain, Shape i chain) (call : ItbCall)
    (guard : CallGuard i call) :
    ∃ after, itbCall i call = some after ∧ after.adepth = i.adepth ∧
      ∃ chain, Shape after chain := by
  obtain ⟨chain, shape⟩ := shape
  cases call with
  | add hmi hi =>
    refine ⟨_, rfl, ?_⟩
    by_cases notFull : i.entries < (i.total : Int)
    · obtain ⟨_, after, chainAfter, result, _, added, _⟩ := itbAddIte_added shape notFull hmi hi
      rw [result]
      exact ⟨added.adepth, chainAfter, added.shape⟩
    · rw [itbAddIte_full (not_lt.mp notFull) hmi hi]
      exact ⟨rfl, chain, shape⟩
  | unlink cell slot =>
    obtain ⟨after, chainAfter, result, depth, shape⟩ :=
      iteUnlink_shape shape (shape.chains.onChain_iff.mp guard)
    exact ⟨after, result, depth, chainAfter, shape⟩
  | async limit count =>
    obtain ⟨after, chainAfter, countAfter, result, passed⟩ := asyncUnlinkIte_passed
      shape limit count
    refine ⟨after, ?_, passed.adepth, chainAfter, passed.shape⟩
    rw [itbCall, result]
    rfl

/-! ### Every run -/

/-- The representation invariant of a block. -/
structure Represents (i : Itb) : Prop where
  /-- Every head that is not FREE has its chain, the chains are disjoint and cover the cells in
  use. -/
  chains : ∃ chain, Chains i chain
  /-- The cells in use name distinct entries. -/
  distinct : ∀ first ∈ i.used, ∀ second ∈ i.used,
    (i.index first).entry = (i.index second).entry → first = second
  bits : ∀ nr, i.bitmap nr = true ↔ ∃ cell ∈ i.used, (i.index cell).entry = nr
  entries : i.entries = i.used.card
  itu : i.itu = i.spilled.card
  pseudoConflicts : i.pseudoConflicts = i.spilled.card
  maxOffset : ∀ cell ∈ i.used, ((i.index cell).entry : Int) ≤ i.maxOffset
  len : ∀ cell ∈ i.used,
    sizeofItb i.adepth + (((i.index cell).entry : Int) + 1) * sizeofIte ≤ i.len
  /-- An addition that fails changes nothing. -/
  failed : ∀ hmi hi, (itbAddIte hmi i hi).err ≠ 0 → (itbAddIte hmi i hi).itb = i

theorem Shape.represents {i : Itb} {chain : Nat → List Nat} (shape : Shape i chain) :
    Represents i where
  chains := ⟨chain, shape.chains⟩
  distinct _ memberFirst _ memberSecond same := shape.usage.injective memberFirst memberSecond same
  bits nr := by rw [shape.usage.bits, mem_held]
  entries := shape.usage.entries
  itu := shape.usage.itu
  pseudoConflicts := shape.usage.pseudoConflicts
  maxOffset _ member := shape.usage.maxOffset _ (Usage.entry_mem_held member)
  len cell member := by
    have most := shape.usage.maxOffset _ (Usage.entry_mem_held member)
    have len := shape.usage.len ⟨cell, member⟩
    unfold sizeofIte at len ⊢
    omega
  failed hmi hi failed := by rw [itbAddIte_failed shape hmi hi failed]

/-- Every run of the three functions from the empty block goes through, and the block it leaves
has its representation. -/
theorem itb_runs_represent (depth : Nat) (calls : List ItbCall)
    (guarded : Guarded itbCall CallGuard (emptyItb depth) calls) :
    ∃ i, run itbCall (emptyItb depth) calls = some i ∧
      i.adepth = depth ∧ Represents i := by
  have initial : (emptyItb depth).adepth = depth ∧ ∃ chain, Shape (emptyItb depth) chain :=
    ⟨rfl, _, emptyItb_shape depth⟩
  have progress : ∀ i call, (i.adepth = depth ∧ ∃ chain, Shape i chain) → CallGuard i call →
      ∃ after, itbCall i call = some after ∧
        (after.adepth = depth ∧ ∃ chain, Shape after chain) := by
    rintro i call ⟨sameDepth, shape⟩ guard
    obtain ⟨after, result, depthAfter, shapeAfter⟩ := itbCall_shape shape call guard
    exact ⟨after, result, depthAfter.trans sameDepth, shapeAfter⟩
  obtain ⟨i, reached, sameDepth, chain, shape⟩ := guarded_progress _ progress initial guarded
  exact ⟨i, reached, sameDepth, shape.represents⟩

/-- Two entries collide in the slot 0 and the second one is unlinked, then the pass runs. -/
def collidingCalls : List ItbCall :=
  [.add ⟨0, 0⟩ (collidingIndex INDEX_CREATE 0 97), .add ⟨0, 0⟩ (collidingIndex INDEX_CREATE 8 98),
    .unlink 8 0, .async 4 ⟨0, 0⟩]

theorem itb_runs_represent_colliding :
    ∃ i, run itbCall (emptyItb 3) collidingCalls = some i ∧ i.adepth = 3 ∧ Represents i := by
  refine itb_runs_represent 3 collidingCalls ⟨trivial, fun first added => ?_⟩
  cases added
  refine ⟨trivial, fun second added => ?_⟩
  cases added
  refine ⟨⟨by decide, by decide, [0, 8], .link (by decide) (.last (by decide)), by decide⟩, ?_⟩
  exact fun third _ => ⟨trivial, fun _ _ => trivial⟩

end Hvfs
