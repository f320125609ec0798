/-
This file embeds the two halves of a copy apart: `itb_cow` copies the header
while others may still change the block, and `itb_cow_recopy` copies the rest
later, under the write locks, with the header once more only if the length has
changed. It says after which changes the copy is exact.
-/

import Hvfs.ItbCow
import Hvfs.ItbRuns

namespace Hvfs

open Transition

/-! ### The two halves -/

/-- `itb_cow`: a free block, of which the entries hold what its memory held before, with the header
of `i`. -/
def itbCowHeader (i : Itb) (memory : Nat → Ite) : Itb :=
  { i with
    unlink := false
    bitmap := fun _ => false
    index := fun _ => {}
    ite := memory }

/-- `itb_cow_recopy`. -/
def itbCowRecopy (oi ni : Itb) : Itb :=
  let ni := { ni with
    bitmap := oi.bitmap
    index := oi.index
    ite := fun nr =>
      if sizeofItb oi.adepth + ((nr : Int) + 1) * sizeofIte ≤ oi.len then oi.ite nr else ni.ite nr }
  if ni.len ≠ oi.len then
    { ni with
      len := oi.len
      inf := oi.inf
      itu := oi.itu
      entries := oi.entries
      maxOffset := oi.maxOffset
      pseudoConflicts := oi.pseudoConflicts }
  else ni

/-! ### When the copy is exact -/

/-- The fields of the header that additions and removals change. -/
structure SameCounters (i other : Itb) : Prop where
  entries : i.entries = other.entries
  inf : i.inf = other.inf
  itu : i.itu = other.itu
  maxOffset : i.maxOffset = other.maxOffset
  pseudoConflicts : i.pseudoConflicts = other.pseudoConflicts

/-- The new block equals the old one in all that is in use, and is a block. -/
structure CopyExact (oi ni : Itb) : Prop where
  bitmap : ni.bitmap = oi.bitmap
  index : ni.index = oi.index
  ite : ∀ cell ∈ oi.used, ni.ite (oi.index cell).entry = oi.ite (oi.index cell).entry
  counters : SameCounters ni oi
  len : ni.len = oi.len
  represents : Represents ni

/-- The changes between the two halves show in the length, or they leave the counters as they
were. -/
def Refreshed (before oi : Itb) : Prop := oi.len ≠ before.len ∨ SameCounters before oi

section Halves

variable {before oi : Itb} {memory : Nat → Ite}

theorem itbCowRecopy_refreshed (depth : oi.adepth = before.adepth)
    (refreshed : Refreshed before oi) :
    itbCowRecopy oi (itbCowHeader before memory) = itbCow oi memory := by
  unfold itbCowRecopy itbCowHeader itbCow
  by_cases same : before.len = oi.len
  · have counters := refreshed.resolve_left (not_not_intro same.symm)
    simp only [same, ne_eq, not_true_eq_false, if_false, depth, counters.entries, counters.inf,
      counters.itu, counters.maxOffset, counters.pseudoConflicts]
  · simp only [ne_eq, same, not_false_eq_true, if_true, depth]

/-- Without a change of length the copy keeps the counters of the first half. -/
theorem itbCowRecopy_stale (same : before.len = oi.len) :
    SameCounters (itbCowRecopy oi (itbCowHeader before memory)) before := by
  have kept : ¬(before.len ≠ oi.len) := not_not_intro same
  unfold itbCowRecopy itbCowHeader
  simp only [if_neg kept]
  exact ⟨rfl, rfl, rfl, rfl, rfl⟩

theorem SameCounters.symm {i other : Itb} (same : SameCounters i other) : SameCounters other i :=
  ⟨same.entries.symm, same.inf.symm, same.itu.symm, same.maxOffset.symm, same.pseudoConflicts.symm⟩

theorem SameCounters.trans {i middle other : Itb} (first : SameCounters i middle)
    (second : SameCounters middle other) : SameCounters i other :=
  ⟨first.entries.trans second.entries, first.inf.trans second.inf, first.itu.trans second.itu,
    first.maxOffset.trans second.maxOffset, first.pseudoConflicts.trans second.pseudoConflicts⟩

/-- A copy in one go is exact. -/
theorem itbCow_exact {chain : Nat → List Nat} (shape : Shape oi chain) (memory : Nat → Ite) :
    CopyExact oi (itbCow oi memory) where
  bitmap := rfl
  index := rfl
  ite cell member := by
    obtain ⟨slot, onChain⟩ := shape.chains.mem_used.mp member
    exact itbCow_ite shape memory ⟨cell, onChain, rfl⟩
  counters := ⟨rfl, rfl, rfl, rfl, rfl⟩
  len := rfl
  represents := (itbCow_shape shape memory).represents

end Halves

/-- After any additions and removals between its two halves, the copy is exact exactly when they
changed the length or left the counters. -/
theorem cow_copy_exact_iff (before : Itb) (represented : ∃ chain, Shape before chain)
    (memory : Nat → Ite) (calls : List ItbCall)
    (guarded : Guarded itbCall CallGuard before calls) :
    ∃ oi, run itbCall before calls = some oi ∧
      (CopyExact oi (itbCowRecopy oi (itbCowHeader before memory)) ↔ Refreshed before oi) := by
  have progress : ∀ i call, (i.adepth = before.adepth ∧ ∃ chain, Shape i chain) →
      CallGuard i call → ∃ after, itbCall i call = some after ∧
        (after.adepth = before.adepth ∧ ∃ chain, Shape after chain) := by
    rintro i call ⟨sameDepth, shape⟩ guard
    obtain ⟨after, result, depthAfter, shapeAfter⟩ := itbCall_shape shape call guard
    exact ⟨after, result, depthAfter.trans sameDepth, shapeAfter⟩
  obtain ⟨oi, reached, depth, chain, shape⟩ :=
    guarded_progress _ progress ⟨rfl, represented⟩ guarded
  refine ⟨oi, reached, fun exact => ?_, fun refreshed => ?_⟩
  · by_cases same : oi.len = before.len
    · exact Or.inr ((itbCowRecopy_stale same.symm).symm.trans exact.counters)
    · exact Or.inl same
  · rw [itbCowRecopy_refreshed depth refreshed]
    exact itbCow_exact shape memory

/-- A block with one link entry. -/
def linkBlock : Itb :=
  (itbAddIte ⟨0, 0⟩ (emptyItb 3) (collidingIndex (INDEX_CREATE ||| INDEX_CREATE_LINK) 0 97)).itb

theorem linkBlock_shape : ∃ chain, Shape linkBlock chain := by
  obtain ⟨after, added, _, shape⟩ := itbCall_shape ⟨_, emptyItb_shape 3⟩
    (.add ⟨0, 0⟩ (collidingIndex (INDEX_CREATE ||| INDEX_CREATE_LINK) 0 97)) trivial
  cases added
  exact shape

theorem linkBlock_onChain : OnChain linkBlock 0 0 :=
  ⟨by decide, by decide, [0], .last (by decide), by decide⟩

theorem cow_copy_exact_iff_removed :
    ∃ oi, run itbCall linkBlock [.unlink 0 0] = some oi ∧
      (CopyExact oi (itbCowRecopy oi (itbCowHeader linkBlock fun _ => {})) ↔
        Refreshed linkBlock oi) :=
  cow_copy_exact_iff linkBlock linkBlock_shape (fun _ => {}) [.unlink 0 0]
    ⟨linkBlock_onChain, fun _ _ => trivial⟩

/-- The only entry is removed between the two halves, and the copy still counts it. -/
theorem cow_copy_not_exact :
    (∃ chain, Shape linkBlock chain) ∧ Guarded itbCall CallGuard linkBlock [.unlink 0 0] ∧
      ∀ oi, run itbCall linkBlock [.unlink 0 0] = some oi →
        ¬CopyExact oi (itbCowRecopy oi (itbCowHeader linkBlock fun _ => {})) := by
  refine ⟨linkBlock_shape, ⟨linkBlock_onChain, fun _ _ => trivial⟩, fun oi reached exact => ?_⟩
  have entries := exact.counters.entries
  cases reached
  exact absurd entries (by decide)

end Hvfs
