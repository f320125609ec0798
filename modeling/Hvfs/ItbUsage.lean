/-
This file proves the accounting of a block: the entries its cells name are
distinct and are the set bits of the bitmap, and the counters of the header
count the cells in use.

The accounting does not look at chains. It reads the index only through two
finite sets, the cells in use and the entries they name, so a write of the
index is judged by what it does to these two.
-/

import Hvfs.ItbChains
import Mathlib.Data.Finset.Card
import Mathlib.Data.Finset.Image

namespace Hvfs

/-! ### Cells in use and entries held -/

/-- The cells of the index that are not FREE. -/
def Itb.used (i : Itb) : Finset Nat :=
  (Finset.range (2 * i.total)).filter fun cell => (i.index cell).flag ≠ .free

/-- The cells in use in the second half of the index. -/
def Itb.spilled (i : Itb) : Finset Nat := i.used.filter fun cell => i.total ≤ cell

/-- The entries that the cells in use name. -/
def Itb.held (i : Itb) : Finset Nat := i.used.image fun cell => (i.index cell).entry

theorem mem_used {i : Itb} {cell : Nat} :
    cell ∈ i.used ↔ cell < 2 * i.total ∧ (i.index cell).flag ≠ .free := by
  simp [Itb.used]

theorem mem_held {i : Itb} {nr : Nat} :
    nr ∈ i.held ↔ ∃ cell ∈ i.used, (i.index cell).entry = nr := by
  simp [Itb.held]

/-- The accounting of a block. -/
structure Usage (i : Itb) : Prop where
  bound : ∀ nr ∈ i.held, nr < i.total
  distinct : i.held.card = i.used.card
  bits : ∀ nr, i.bitmap nr = true ↔ nr ∈ i.held
  entries : i.entries = i.used.card
  itu : i.itu = i.spilled.card
  pseudoConflicts : i.pseudoConflicts = i.spilled.card
  maxOffset : ∀ nr ∈ i.held, (nr : Int) ≤ i.maxOffset
  maxEmpty : i.used = ∅ → i.maxOffset = 0
  len : i.used.Nonempty → sizeofItb i.adepth + (i.maxOffset + 1) * sizeofIte ≤ i.len

namespace Usage

variable {i after : Itb}

theorem injective (usage : Usage i) {first second : Nat} (memberFirst : first ∈ i.used)
    (memberSecond : second ∈ i.used)
    (same : (i.index first).entry = (i.index second).entry) : first = second :=
  Finset.card_image_iff.mp usage.distinct memberFirst memberSecond same

theorem entry_mem_held {cell : Nat} (member : cell ∈ i.used) : (i.index cell).entry ∈ i.held :=
  mem_held.mpr ⟨cell, member, rfl⟩

/-- A write of the index that keeps both sets keeps the accounting. -/
theorem reindex (usage : Usage i) (index : Nat → ItbIndex)
    (used : ({ i with index } : Itb).used = i.used)
    (held : ({ i with index } : Itb).held = i.held) : Usage { i with index } where
  bound := held ▸ usage.bound
  distinct := by
    rw [held, used]
    exact usage.distinct
  bits := held ▸ usage.bits
  entries := used ▸ usage.entries
  itu := by
    unfold Itb.spilled
    rw [used]
    exact usage.itu
  pseudoConflicts := by
    unfold Itb.spilled
    rw [used]
    exact usage.pseudoConflicts
  maxOffset := held ▸ usage.maxOffset
  maxEmpty := used ▸ usage.maxEmpty
  len := used ▸ usage.len

/-! ### One entry less -/

theorem iteUnlinkInternal_used (i : Itb) (cell : Nat) :
    (iteUnlinkInternal i cell).used = i.used.erase cell := by
  ext other
  rw [Finset.mem_erase, mem_used, mem_used, iteUnlinkInternal_index, iteUnlinkInternal_total,
    Function.update_apply]
  split_ifs with same
  · simp [same]
  · simp [same]

theorem iteUnlinkInternal_held (usage : Usage i) {cell : Nat} (member : cell ∈ i.used) :
    (iteUnlinkInternal i cell).held = i.held.erase (i.index cell).entry := by
  have entry : ∀ other, ((iteUnlinkInternal i cell).index other).entry = (i.index other).entry := by
    intro other
    rw [iteUnlinkInternal_index, Function.update_apply]
    split_ifs with same
    · rw [same]
    · rfl
  ext nr
  rw [Finset.mem_erase, mem_held, mem_held, iteUnlinkInternal_used]
  constructor
  · rintro ⟨other, inside, rfl⟩
    rw [entry]
    obtain ⟨different, inside⟩ := Finset.mem_erase.mp inside
    exact ⟨fun same => different (usage.injective inside member same), other, inside, rfl⟩
  · rintro ⟨different, other, inside, rfl⟩
    refine ⟨other, Finset.mem_erase.mpr ⟨?_, inside⟩, entry other⟩
    rintro rfl
    exact different rfl

/-- `__ite_unlink` of a cell in use keeps the accounting. -/
theorem iteUnlinkInternal (usage : Usage i) {cell : Nat} (member : cell ∈ i.used) :
    Usage (iteUnlinkInternal i cell) := by
  have held := usage.iteUnlinkInternal_held member
  have used := iteUnlinkInternal_used i cell
  have count : (i.used.erase cell).card + 1 = i.used.card :=
    Finset.card_erase_add_one member
  have spilled : (Hvfs.iteUnlinkInternal i cell).spilled = i.spilled.erase cell := by
    unfold Itb.spilled
    rw [used, Finset.filter_erase]
    rfl
  have spilledCount : ((Hvfs.iteUnlinkInternal i cell).spilled.card : Int) =
      if cell ≥ i.total then (i.spilled.card : Int) - 1 else i.spilled.card := by
    rw [spilled]
    split_ifs with high
    · have inside : cell ∈ i.spilled := Finset.mem_filter.mpr ⟨member, high⟩
      have := Finset.card_erase_add_one inside
      omega
    · have outside : cell ∉ i.spilled := fun inside => high (Finset.mem_filter.mp inside).2
      rw [Finset.erase_eq_of_notMem outside]
  have emptyNow : i.entries - 1 = 0 ↔ i.used.erase cell = ∅ := by
    rw [usage.entries, ← Finset.card_eq_zero]
    omega
  refine ⟨?_, ?_, ?_, ?_, ?_, ?_, ?_, ?_, ?_⟩
  · intro nr inside
    rw [held] at inside
    exact usage.bound nr (Finset.mem_of_mem_erase inside)
  · rw [held, used, Finset.card_erase_of_mem member,
      Finset.card_erase_of_mem (entry_mem_held member), usage.distinct]
  · intro nr
    rw [held, Finset.mem_erase, ← usage.bits]
    change Function.update i.bitmap (i.index cell).entry false nr = true ↔ _
    rw [Function.update_apply]
    split_ifs with same
    · simp [same]
    · simp [same]
  · change i.entries - 1 = _
    rw [used, usage.entries]
    omega
  · change (if cell ≥ i.total then i.itu - 1 else i.itu) = _
    rw [spilledCount, usage.itu]
  · change (if cell ≥ i.total then i.pseudoConflicts - 1 else i.pseudoConflicts) = _
    rw [spilledCount, usage.pseudoConflicts]
  · intro nr inside
    have insideUsed : (Hvfs.iteUnlinkInternal i cell).used ≠ ∅ := by
      obtain ⟨other, memberOther, _⟩ := mem_held.mp inside
      exact Finset.ne_empty_of_mem memberOther
    rw [held, Finset.mem_erase] at inside
    have le := usage.maxOffset nr inside.2
    change (nr : Int) ≤ if i.entries - 1 = 0 then 0
      else if i.maxOffset = (i.index cell).entry then i.maxOffset - 1 else i.maxOffset
    rw [if_neg fun zero => insideUsed (used.trans (emptyNow.mp zero))]
    split_ifs with most
    · have := inside.1
      omega
    · exact le
  · intro none
    exact if_pos (emptyNow.mpr (used.symm.trans none))
  · intro some
    have before := usage.len ⟨cell, member⟩
    rw [used, Finset.nonempty_iff_ne_empty] at some
    refine le_trans ?_ before
    change sizeofItb i.adepth + ((if i.entries - 1 = 0 then 0
      else if i.maxOffset = (i.index cell).entry then i.maxOffset - 1 else i.maxOffset) + 1) *
        sizeofIte ≤ _
    rw [if_neg fun zero => some (emptyNow.mp zero)]
    unfold sizeofIte
    split_ifs <;> omega

/-! ### One entry more -/

/-- A new cell for a new entry keeps the accounting. -/
theorem grow (usage : Usage i) {cell nr : Nat} (fresh : cell ∉ i.used)
    (clear : i.bitmap nr = false) (low : nr < i.total) (first : i.used = ∅ → nr = 0)
    (sameDepth : after.adepth = i.adepth) (used : after.used = insert cell i.used)
    (held : after.held = insert nr i.held)
    (bitmap : after.bitmap = Function.update i.bitmap nr true)
    (entries : after.entries = i.entries + 1)
    (itu : after.itu = if cell ≥ i.total then i.itu + 1 else i.itu)
    (pseudoConflicts : after.pseudoConflicts =
      if cell ≥ i.total then i.pseudoConflicts + 1 else i.pseudoConflicts)
    (maxOffset : after.maxOffset = if i.maxOffset ≤ nr then (nr : Int) else i.maxOffset)
    (len : after.len = if i.maxOffset ≤ nr then
      sizeofItb i.adepth + ((nr : Int) + 1) * sizeofIte else i.len) : Usage after := by
  have outside : nr ∉ i.held := by
    rw [← usage.bits, clear]
    decide
  have sameTotal : after.total = i.total := by
    unfold Itb.total
    rw [sameDepth]
  have spilled : (after.spilled.card : Int) =
      if cell ≥ i.total then (i.spilled.card : Int) + 1 else i.spilled.card := by
    unfold Itb.spilled
    rw [used, sameTotal, Finset.filter_insert]
    split_ifs with high
    · rw [Finset.card_insert_of_notMem fun inside => fresh (Finset.mem_filter.mp inside).1]
      norm_cast
    · rfl
  refine ⟨?_, ?_, ?_, ?_, ?_, ?_, ?_, ?_, ?_⟩
  · intro other inside
    rw [sameTotal]
    rw [held] at inside
    rcases Finset.mem_insert.mp inside with rfl | inside
    · exact low
    · exact usage.bound other inside
  · rw [held, used, Finset.card_insert_of_notMem outside, Finset.card_insert_of_notMem fresh,
      usage.distinct]
  · intro other
    rw [held, bitmap, Finset.mem_insert, ← usage.bits, Function.update_apply]
    split_ifs with same
    · simp [same]
    · simp [same]
  · rw [entries, used, Finset.card_insert_of_notMem fresh, usage.entries]
    norm_cast
  · rw [itu, spilled, usage.itu]
  · rw [pseudoConflicts, spilled, usage.pseudoConflicts]
  · intro other inside
    rw [held] at inside
    rw [maxOffset]
    rcases Finset.mem_insert.mp inside with rfl | inside
    · split_ifs with le <;> omega
    · have := usage.maxOffset other inside
      split_ifs with le <;> omega
  · intro none
    rw [used] at none
    exact absurd none (Finset.insert_ne_empty _ _)
  · intro _
    rw [maxOffset, len, sameDepth]
    split_ifs with le
    · exact le_refl _
    · refine usage.len (Finset.nonempty_iff_ne_empty.mpr fun none => le ?_)
      rw [usage.maxEmpty none, first none]
      exact le_refl _

end Usage

end Hvfs
