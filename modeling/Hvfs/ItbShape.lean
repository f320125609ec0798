/-
This file joins the chains of a block with its accounting and says what adding
an entry and taking a cell off its chain do to both.

`Holds i chain slot nr` says that the entry `nr` hangs on the chain of the head
`slot`. A removal pattern moves entries between cells, but as a relation
between heads and entries its effect is only that one entry is gone, and that
is how the patterns are described to the loops above them.
-/

import Hvfs.ItbUsage
import Mathlib.Order.Interval.Finset.Nat

namespace Hvfs

/-- A block whose index is made of chains and whose accounting is right. -/
structure Shape (i : Itb) (chain : Nat → List Nat) : Prop where
  chains : Chains i chain
  usage : Usage i

/-- The entry hangs on the chain of the head. -/
def Holds (i : Itb) (chain : Nat → List Nat) (slot nr : Nat) : Prop :=
  ∃ cell ∈ chain slot, (i.index cell).entry = nr

/-- The chain of the head `slot` has the cell. -/
def OnChain (i : Itb) (cell slot : Nat) : Prop :=
  slot < i.total ∧ (i.index slot).flag ≠ .free ∧ ∃ cells, CellPath i.next slot cells ∧ cell ∈ cells

theorem mem_of_cells {chain : Nat → List Nat} {slot cell : Nat} {front rest : List Nat}
    (cells : chain slot = front ++ cell :: rest) : cell ∈ chain slot := by
  rw [cells]
  exact List.mem_append_right _ List.mem_cons_self

namespace Chains

variable {i : Itb} {chain : Nat → List Nat} {slot cell nr : Nat}

theorem mem_used (chains : Chains i chain) : cell ∈ i.used ↔ ∃ slot, cell ∈ chain slot := by
  rw [Hvfs.mem_used]
  constructor
  · rintro ⟨bound, flag⟩
    exact chains.exists_mem bound flag
  · rintro ⟨slot, member⟩
    exact ⟨chains.lt_of_mem member, chains.used_ne_free member⟩

theorem mem_held (chains : Chains i chain) : nr ∈ i.held ↔ ∃ slot, Holds i chain slot nr := by
  rw [Hvfs.mem_held]
  constructor
  · rintro ⟨cell, member, entry⟩
    obtain ⟨slot, member⟩ := chains.mem_used.mp member
    exact ⟨slot, cell, member, entry⟩
  · rintro ⟨slot, cell, member, entry⟩
    exact ⟨cell, chains.mem_used.mpr ⟨slot, member⟩, entry⟩

/-- A chain has its head and at most every cell of the second half. -/
theorem length_le (chains : Chains i chain) (slot : Nat) :
    (chain slot).length ≤ i.total + 1 := by
  have inside : (chain slot).toFinset ⊆ insert slot (Finset.Ico i.total (2 * i.total)) := by
    intro cell member
    rcases chains.mem_head_or_spill (List.mem_toFinset.mp member) with rfl | ⟨low, high⟩
    · exact Finset.mem_insert_self _ _
    · exact Finset.mem_insert_of_mem (Finset.mem_Ico.mpr ⟨low, high⟩)
  have count := (Finset.card_le_card inside).trans (Finset.card_insert_le _ _)
  rw [List.toFinset_card_of_nodup (chains.nodup slot), Nat.card_Ico] at count
  omega

theorem conflict_lt (chains : Chains i chain) (front : List Nat) {rest : List Nat}
    (shape : chain slot = front ++ cell :: rest) (flag : (i.index cell).flag = .conflict) :
    ∃ later, rest = (i.index cell).conflict :: later ∧ (i.index cell).conflict < 2 * i.total := by
  have member := mem_of_cells shape
  have path := chains.path_of_mem member
  rw [shape] at path
  obtain ⟨later, rfl⟩ := path.rest_eq_cons (next_of_conflict flag)
  have behind : (i.index cell).conflict ∈ chain slot := by
    rw [shape]
    simp
  exact ⟨later, rfl, chains.lt_of_mem behind⟩

theorem unique_last (chains : Chains i chain) (front : List Nat) {rest : List Nat}
    (shape : chain slot = front ++ cell :: rest) (flag : (i.index cell).flag = .unique) :
    rest = [] := by
  have member := mem_of_cells shape
  have path := chains.path_of_mem member
  rw [shape] at path
  exact path.rest_eq_nil (next_of_unique flag)

theorem flag_of_last (chains : Chains i chain) (front : List Nat)
    (shape : chain slot = front ++ [cell]) : (i.index cell).flag = .unique := by
  have member := mem_of_cells shape
  rcases chains.used slot cell member with flag | flag
  · exact flag
  · obtain ⟨later, absurdity, _⟩ := chains.conflict_lt front shape flag
    cases absurdity

theorem flag_of_more (chains : Chains i chain) (front : List Nat) {rest : List Nat} {behind : Nat}
    (shape : chain slot = front ++ cell :: behind :: rest) :
    (i.index cell).flag = .conflict ∧ (i.index cell).conflict = behind := by
  have member := mem_of_cells shape
  rcases chains.used slot cell member with flag | flag
  · cases chains.unique_last front shape flag
  · obtain ⟨later, same, _⟩ := chains.conflict_lt front shape flag
    cases same
    exact ⟨flag, rfl⟩

/-- What the index says about a cell of a chain is what the ghost table says. -/
theorem onChain_iff (chains : Chains i chain) : OnChain i cell slot ↔ cell ∈ chain slot := by
  constructor
  · rintro ⟨bound, notFree, cells, path, member⟩
    rw [(chains.path slot bound notFree).unique path]
    exact member
  · intro member
    obtain ⟨bound, notFree⟩ := chains.head_of_mem member
    exact ⟨bound, notFree, chain slot, chains.path slot bound notFree, member⟩

end Chains

namespace Shape

variable {i : Itb} {chain : Nat → List Nat} {slot cell nr : Nat}

/-- An entry hangs on one chain only. -/
theorem holds_slot (shape : Shape i chain) {first second : Nat} (here : Holds i chain first nr)
    (there : Holds i chain second nr) : first = second := by
  obtain ⟨cell, member, rfl⟩ := here
  obtain ⟨other, memberOther, same⟩ := there
  have := shape.usage.injective (shape.chains.mem_used.mpr ⟨_, memberOther⟩)
    (shape.chains.mem_used.mpr ⟨_, member⟩) same
  exact shape.chains.disjoint first second cell member (this ▸ memberOther)

theorem entry_inj (shape : Shape i chain) {first second other : Nat} (here : first ∈ chain slot)
    (there : second ∈ chain other) (same : (i.index first).entry = (i.index second).entry) :
    first = second :=
  shape.usage.injective (shape.chains.mem_used.mpr ⟨_, here⟩)
    (shape.chains.mem_used.mpr ⟨_, there⟩) same

/-- The entries without a set bit hang on no chain. -/
theorem not_holds_of_clear (shape : Shape i chain) (clear : i.bitmap nr = false) :
    ¬Holds i chain slot nr := by
  intro holds
  have set := (shape.usage.bits nr).mpr (shape.chains.mem_held.mpr ⟨slot, holds⟩)
  rw [clear] at set
  cases set

end Shape

/-- The empty block has no chain and holds nothing. -/
theorem emptyItb_shape (depth : Nat) : Shape (emptyItb depth) fun _ => [] := by
  have used : (emptyItb depth).used = ∅ := by
    ext cell
    rw [mem_used]
    simp [emptyItb]
  have held : (emptyItb depth).held = ∅ := by
    unfold Itb.held
    rw [used]
    rfl
  have spilled : (emptyItb depth).spilled = ∅ := by
    unfold Itb.spilled
    rw [used]
    rfl
  refine ⟨⟨?_, ?_, ?_, ?_, ?_, ?_⟩, ⟨?_, ?_, ?_, ?_, ?_, ?_, ?_, ?_, ?_⟩⟩
  · exact fun _ _ => rfl
  · exact fun slot _ flag => absurd rfl flag
  · exact fun _ _ member => nomatch member
  · exact fun _ _ member => nomatch member
  · exact fun _ _ _ member => nomatch member
  · exact fun cell _ _ flag => absurd rfl flag
  · exact fun nr member => absurd (held ▸ member) (Finset.notMem_empty nr)
  · rw [held, used]
  · exact fun nr => ⟨fun set => (nomatch set),
      fun member => absurd (held ▸ member) (Finset.notMem_empty nr)⟩
  · rw [used]
    rfl
  · rw [spilled]
    rfl
  · rw [spilled]
    rfl
  · exact fun nr member => absurd (held ▸ member) (Finset.notMem_empty nr)
  · exact fun _ => rfl
  · exact fun some => absurd used some.ne_empty

/-! ### Taking entries off -/

/-- What a removal leaves: the same entries hang on the same heads, except the one that is
`gone`. -/
structure Dropped (i : Itb) (chain : Nat → List Nat) (gone : Nat) (after : Itb)
    (chainAfter : Nat → List Nat) : Prop where
  shape : Shape after chainAfter
  adepth : after.adepth = i.adepth
  ite : after.ite = i.ite
  unlink : after.unlink = i.unlink
  holds : ∀ slot nr, Holds after chainAfter slot nr ↔ Holds i chain slot nr ∧ nr ≠ gone

/-- An exchange of entries along one chain: nothing moves between heads. -/
structure Exchanged (i : Itb) (chain : Nat → List Nat) (after : Itb) : Prop where
  shape : Shape after chain
  adepth : after.adepth = i.adepth
  ite : after.ite = i.ite
  unlink : after.unlink = i.unlink
  holds : ∀ slot nr, Holds after chain slot nr ↔ Holds i chain slot nr

section Removal

variable {i : Itb} {chain : Nat → List Nat} {slot : Nat}

/-- What hangs on the heads after one list changed and lost a cell. -/
theorem Shape.holds_update (shape : Shape i chain) {after : Itb} {cells : List Nat} {victim : Nat}
    (member : victim ∈ chain slot) (nodup : (chain slot).Nodup)
    (split : ∀ cell, cell ∈ chain slot ↔ cell = victim ∨ cell ∈ cells) (outside : victim ∉ cells)
    (entry : ∀ cell, (after.index cell).entry = (i.index cell).entry) (other nr : Nat) :
    Holds after (Function.update chain slot cells) other nr ↔
      Holds i chain other nr ∧ nr ≠ (i.index victim).entry := by
  unfold Holds
  simp only [entry]
  rcases eq_or_ne other slot with rfl | different
  · rw [Function.update_self]
    constructor
    · rintro ⟨cell, inside, rfl⟩
      have inChain := (split cell).mpr (Or.inr inside)
      refine ⟨⟨cell, inChain, rfl⟩, fun same => outside ?_⟩
      rw [← shape.entry_inj inChain member same]
      exact inside
    · rintro ⟨⟨cell, inside, rfl⟩, kept⟩
      rcases (split cell).mp inside with rfl | inside
      · exact absurd rfl kept
      · exact ⟨cell, inside, rfl⟩
  · rw [Function.update_of_ne different]
    refine ⟨?_, And.left⟩
    rintro ⟨cell, inside, rfl⟩
    refine ⟨⟨cell, inside, rfl⟩, fun same => different ?_⟩
    have := shape.entry_inj inside member same
    exact shape.chains.disjoint other slot cell inside (this ▸ member)

/-- A cell behind another one leaves the chain. -/
theorem Shape.unlinkBehind_dropped (shape : Shape i chain) {front rest : List Nat}
    {prev victim : Nat}
    (cells : chain slot = front ++ prev :: victim :: rest) :
    Dropped i chain (i.index victim).entry (unlinkBehind i prev victim)
      (Function.update chain slot (front ++ prev :: rest)) := by
  have memberPrev : prev ∈ chain slot := mem_of_cells cells
  have memberVictim : victim ∈ chain slot := by
    rw [cells]
    simp
  have nodup := shape.chains.nodup slot
  have order : (chain slot).Perm (victim :: (front ++ prev :: rest)) := by
    rw [cells]
    exact (List.perm_middle.trans ((List.perm_middle.cons prev).trans (List.Perm.swap _ _ _))).trans
      (List.perm_middle.symm.cons victim)
  have outside : victim ∉ front ++ prev :: rest :=
    (List.nodup_cons.mp (order.nodup_iff.mp nodup)).1
  have different : prev ≠ victim := by
    rintro rfl
    exact outside (by simp)
  -- the write of `prev`, and the link it leaves there
  obtain ⟨value, write, entry, flag, taken⟩ : ∃ value : ItbIndex,
      unlinkBehind i prev victim = iteUnlinkInternal (i.setIndex prev value) victim ∧
      value.entry = (i.index prev).entry ∧ (value.flag = .unique ∨ value.flag = .conflict) ∧
      ∀ after : Itb, after.index prev = value → after.next prev = i.next victim := by
    by_cases last : (i.index victim).flag = .unique
    · refine ⟨_, if_pos last, rfl, Or.inl rfl, fun after same => ?_⟩
      rw [next_of_unique last, next_of_unique (by rw [same])]
    · refine ⟨_, if_neg last, rfl, shape.chains.used slot prev memberPrev, fun after same => ?_⟩
      have flagVictim := (shape.chains.used slot victim memberVictim).resolve_left last
      have flagPrev := (shape.chains.flag_of_more front cells).1
      rw [next_of_conflict flagVictim, next_of_conflict (by rw [same]; exact flagPrev), same]
  have index : ∀ cell, (unlinkBehind i prev victim).index cell =
      if cell = victim then { i.index victim with flag := .free }
      else if cell = prev then value else i.index cell := by
    intro cell
    rw [write, iteUnlinkInternal_index, Function.update_apply, setIndex_index,
      Function.update_apply, Function.update_apply, if_neg different.symm]
  have usedMid : (i.setIndex prev value).used = i.used := by
    ext cell
    rw [mem_used, mem_used, setIndex_total, setIndex_index, Function.update_apply]
    split_ifs with same
    · have := shape.chains.used_ne_free memberPrev
      rw [same]
      rcases flag with flag | flag <;> simp [flag, this]
    · rfl
  have heldMid : (i.setIndex prev value).held = i.held := by
    ext nr
    rw [mem_held, mem_held, usedMid]
    refine exists_congr fun cell => and_congr_right fun _ => ?_
    rw [setIndex_index, Function.update_apply]
    split_ifs with same
    · rw [entry, same]
    · rfl
  refine ⟨⟨?_, ?_⟩, ?_, ?_, ?_, ?_⟩
  · refine shape.chains.removeBehind ?_ cells ?_ ?_ ?_ ?_
    · rw [write]
      rfl
    · intro cell notPrev notVictim
      rw [index, if_neg notVictim, if_neg notPrev]
    · rw [index, if_pos rfl]
    · rw [index, if_neg different, if_pos rfl]
      exact flag
    · refine taken _ ?_
      rw [index, if_neg different, if_pos rfl]
  · rw [write]
    refine (shape.usage.reindex _ usedMid heldMid).iteUnlinkInternal ?_
    exact usedMid ▸ shape.chains.mem_used.mpr ⟨slot, memberVictim⟩
  · rw [write]
    rfl
  · rw [write]
    rfl
  · rw [write]
    rfl
  · refine shape.holds_update memberVictim nodup ?_ outside ?_
    · intro cell
      rw [order.mem_iff, List.mem_cons]
    · intro cell
      rw [index]
      split_ifs with same samePrev
      · rw [same]
      · rw [entry, samePrev]
      · rfl

/-- The only cell of a head leaves. -/
theorem Shape.iteUnlinkInternal_dropped (shape : Shape i chain) (cells : chain slot = [slot]) :
    Dropped i chain (i.index slot).entry (iteUnlinkInternal i slot)
      (Function.update chain slot []) := by
  have member : slot ∈ chain slot := by
    rw [cells]
    exact List.mem_cons_self
  refine ⟨⟨?_, ?_⟩, rfl, rfl, rfl, ?_⟩
  · refine shape.chains.removeSole rfl cells ?_ ?_
    · intro cell different
      rw [iteUnlinkInternal_index, Function.update_of_ne different]
    · rw [iteUnlinkInternal_index, Function.update_self]
  · exact shape.usage.iteUnlinkInternal (shape.chains.mem_used.mpr ⟨slot, member⟩)
  · refine shape.holds_update member (shape.chains.nodup slot) ?_ (by simp) ?_
    · intro cell
      rw [cells]
      simp
    · intro cell
      rw [iteUnlinkInternal_index, Function.update_apply]
      split_ifs with same
      · rw [same]
      · rfl

theorem swapEntries_index {saved offset : Nat} (different : offset ≠ saved) (cell : Nat) :
    (swapEntries i offset saved).index cell =
      if cell = saved then { i.index saved with entry := (i.index offset).entry }
      else if cell = offset then { i.index offset with entry := (i.index saved).entry }
      else i.index cell := by
  change Function.update (Function.update i.index offset _) saved _ cell = _
  rw [Function.update_apply, Function.update_apply, setIndex_index,
    Function.update_of_ne different.symm]

/-- Two cells of one chain exchange their entries. -/
theorem Shape.swapEntries_exchanged (shape : Shape i chain) {saved offset : Nat}
    (memberSaved : saved ∈ chain slot) (memberOffset : offset ∈ chain slot)
    (different : offset ≠ saved) : Exchanged i chain (swapEntries i offset saved) := by
  have index := swapEntries_index (i := i) different
  have same : ∀ cell, SameLink i (swapEntries i offset saved) cell := by
    intro cell
    unfold SameLink
    rw [index]
    split_ifs with first second
    · rw [first]
      exact ⟨rfl, rfl⟩
    · rw [second]
      exact ⟨rfl, rfl⟩
    · exact ⟨rfl, rfl⟩
  have together : ∀ head, saved ∈ chain head ↔ offset ∈ chain head := fun head =>
    ⟨fun member => shape.chains.disjoint _ _ _ member memberSaved ▸ memberOffset,
      fun member => shape.chains.disjoint _ _ _ member memberOffset ▸ memberSaved⟩
  -- each cell has a partner on its chain that carries its entry on the other side of the swap
  have partner : ∀ cell, ∃ other, (∀ head, other ∈ chain head ↔ cell ∈ chain head) ∧
      ((swapEntries i offset saved).index other).entry = (i.index cell).entry ∧
      ((swapEntries i offset saved).index cell).entry = (i.index other).entry := by
    intro cell
    rcases eq_or_ne cell saved with rfl | notSaved
    · refine ⟨offset, fun head => (together head).symm, ?_, ?_⟩
      · rw [index, if_neg different, if_pos rfl]
      · rw [index, if_pos rfl]
    rcases eq_or_ne cell offset with rfl | notOffset
    · refine ⟨saved, together, ?_, ?_⟩
      · rw [index, if_pos rfl]
      · rw [index, if_neg different, if_pos rfl]
    · have kept : (swapEntries i offset saved).index cell = i.index cell := by
        rw [index, if_neg notSaved, if_neg notOffset]
      exact ⟨cell, fun _ => Iff.rfl, by rw [kept], by rw [kept]⟩
  have holds : ∀ head nr, Holds (swapEntries i offset saved) chain head nr ↔
      Holds i chain head nr := by
    intro head nr
    constructor
    · rintro ⟨cell, member, rfl⟩
      obtain ⟨other, same, _, entry⟩ := partner cell
      exact ⟨other, (same head).mpr member, entry.symm⟩
    · rintro ⟨cell, member, rfl⟩
      obtain ⟨other, same, entry, _⟩ := partner cell
      exact ⟨other, (same head).mpr member, entry⟩
  have chains : Chains (swapEntries i offset saved) chain := shape.chains.congr rfl same
  refine ⟨⟨chains, ?_⟩, rfl, rfl, rfl, holds⟩
  refine shape.usage.reindex (swapEntries i offset saved).index ?_ ?_
  · change (swapEntries i offset saved).used = i.used
    ext cell
    rw [chains.mem_used, shape.chains.mem_used]
  · change (swapEntries i offset saved).held = i.held
    ext nr
    rw [chains.mem_held, shape.chains.mem_held]
    exact exists_congr fun head => holds head nr

end Removal

end Hvfs
