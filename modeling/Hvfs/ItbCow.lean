/-
This file embeds `itb_cow` with `itb_cow_recopy`, and the search of a request
that runs alone: `itb_dirty` hands it the block itself, or the copy that it put
in the block's place, and in that case the search starts again on the copy.

The copy takes over the header, the bitmap, the index and the entries up to the
length in the header. Behind that length it keeps what its memory held before.
-/

import Hvfs.ItbChange
import Mathlib.Data.List.Find

namespace Hvfs

/-- The copy that `itb_cow` and `itb_cow_recopy` make of `i` over a block whose entries were
`memory`. -/
def itbCow (i : Itb) (memory : Nat → Ite) : Itb :=
  { i with
    unlink := false
    ite := fun nr =>
      if sizeofItb i.adepth + ((nr : Int) + 1) * sizeofIte ≤ i.len then i.ite nr else memory nr }

/-- `itb_search` of a request that runs alone. With `memory`, `itb_dirty` copies the block over a
free block with these entries; the copy is DIRTY in the request's transaction group, so the second
round stays on it. -/
def itbSearchCow (hmi : Hmi) (i : Itb) (hi : HvfsIndex) (memory : Option (Nat → Ite)) :
    Option SearchResult :=
  match itbPlan i hi with
  | none => none
  | some (.done err data) => some ⟨err, data, hmi, i⟩
  | some (.dirty act) =>
    match memory with
    | none => itbAct hmi i hi act
    | some memory => itbSearch hmi (itbCow i memory) hi

/-- The block that the last round of a search runs on. -/
def searchBlock (i : Itb) (hi : HvfsIndex) (memory : Option (Nat → Ite)) : Itb :=
  match itbPlan i hi, memory with
  | some (.dirty _), some memory => itbCow i memory
  | _, _ => i

theorem itbSearchCow_eq (hmi : Hmi) (i : Itb) (hi : HvfsIndex) (memory : Option (Nat → Ite)) :
    itbSearchCow hmi i hi memory = itbSearch hmi (searchBlock i hi memory) hi := by
  unfold itbSearchCow searchBlock
  cases plan : itbPlan i hi with
  | none => simp only [itbSearch, plan]
  | some next =>
    cases next with
    | done err data => simp only [itbSearch, plan]
    | dirty act =>
      cases memory with
      | none => simp only [itbSearch, plan]
      | some memory => rfl

section Copy

variable {i : Itb} {chain : Nat → List Nat} {slot nr : Nat}

/-- A copy is a block like the original, on the same chains. -/
theorem itbCow_shape (shape : Shape i chain) (memory : Nat → Ite) :
    Shape (itbCow i memory) chain :=
  ⟨⟨shape.chains.empty, shape.chains.path, shape.chains.used, shape.chains.spill,
      shape.chains.disjoint, shape.chains.cover⟩,
    ⟨shape.usage.bound, shape.usage.distinct, shape.usage.bits, shape.usage.entries,
      shape.usage.itu, shape.usage.pseudoConflicts, shape.usage.maxOffset, shape.usage.maxEmpty,
      shape.usage.len⟩⟩

/-- The length in the header covers every used entry, so the copy has them all. -/
theorem itbCow_ite (shape : Shape i chain) (memory : Nat → Ite) (holds : Holds i chain slot nr) :
    (itbCow i memory).ite nr = i.ite nr := by
  have held : nr ∈ i.held := shape.chains.mem_held.mpr ⟨slot, holds⟩
  obtain ⟨cell, used, _⟩ := mem_held.mp held
  have below := shape.usage.maxOffset nr held
  have covered := shape.usage.len ⟨cell, used⟩
  refine if_pos (le_trans ?_ covered)
  unfold sizeofIte
  omega

theorem itbCow_find (shape : Shape i chain) (memory : Nat → Ite) (hi : HvfsIndex) :
    (chain slot).find? ((itbCow i memory).matchAt hi) = (chain slot).find? (i.matchAt hi) := by
  refine List.find?_congr fun cell member => ?_
  have same : (itbCow i memory).ite (i.index cell).entry = i.ite (i.index cell).entry :=
    itbCow_ite shape memory ⟨cell, member, rfl⟩
  change iteMatch ((itbCow i memory).ite (i.index cell).entry) hi = _
  rw [same]
  rfl

theorem searchBlock_cases (i : Itb) (hi : HvfsIndex) (memory : Option (Nat → Ite)) :
    searchBlock i hi memory = i ∨ ∃ copied, searchBlock i hi memory = itbCow i copied := by
  unfold searchBlock
  split
  · exact Or.inr ⟨_, rfl⟩
  · exact Or.inl rfl

end Copy

end Hvfs
