/-
This file verifies the loop of `itb_del_ite`, which deletes one cell of a
chain.

A head cannot leave its chain while another cell follows it, so the loop lets
the head change its entry with the next cell and delete that cell instead. What
it leaves is said of the list of the entries along the chain, which does not
show the change: exactly the deleted entry is gone from it, and the others are
there in their order.
-/

import Hvfs.ItbAdd

namespace Hvfs

/-! ### The entries along a chain -/

/-- The entries that the listed cells name, in the order of the cells. -/
def Itb.entriesOn (i : Itb) (cells : List Nat) : List Nat :=
  cells.map fun cell => (i.index cell).entry

/-- A change of one chain: the chain of `slot` has the listed `entries` now, and the index is as it
was outside this chain. -/
structure Trimmed (i : Itb) (chain : Nat → List Nat) (slot : Nat) (entries : List Nat) (after : Itb)
    (chainAfter : Nat → List Nat) : Prop where
  shape : Shape after chainAfter
  adepth : after.adepth = i.adepth
  ite : after.ite = i.ite
  unlink : after.unlink = i.unlink
  entries : after.entriesOn (chainAfter slot) = entries
  fewer : ∀ cell ∈ chainAfter slot, cell ∈ chain slot
  chains : ∀ other, other ≠ slot → chainAfter other = chain other
  cells : ∀ cell, cell ∉ chain slot → after.index cell = i.index cell

section Entries

variable {i middle after : Itb} {chain chainMiddle chainAfter : Nat → List Nat} {slot nr : Nat}
  {entries entriesAfter : List Nat}

theorem entriesOn_congr {cells : List Nat}
    (same : ∀ cell ∈ cells, (after.index cell).entry = (i.index cell).entry) :
    after.entriesOn cells = i.entriesOn cells :=
  List.map_congr_left same

theorem holds_iff_entriesOn : Holds i chain slot nr ↔ nr ∈ i.entriesOn (chain slot) :=
  List.mem_map.symm

theorem Shape.entriesOn_nodup (shape : Shape i chain) (slot : Nat) :
    (i.entriesOn (chain slot)).Nodup :=
  (List.nodup_map_iff_inj_on (shape.chains.nodup slot)).mpr fun _ first _ second same =>
    shape.entry_inj first second same

namespace Trimmed

theorem refl (shape : Shape i chain) (slot : Nat) :
    Trimmed i chain slot (i.entriesOn (chain slot)) i chain :=
  ⟨shape, rfl, rfl, rfl, rfl, fun _ => id, fun _ _ => rfl, fun _ _ => rfl⟩

theorem trans (first : Trimmed i chain slot entries middle chainMiddle)
    (second : Trimmed middle chainMiddle slot entriesAfter after chainAfter) :
    Trimmed i chain slot entriesAfter after chainAfter where
  shape := second.shape
  adepth := second.adepth.trans first.adepth
  ite := second.ite.trans first.ite
  unlink := second.unlink.trans first.unlink
  entries := second.entries
  fewer cell member := first.fewer cell (second.fewer cell member)
  chains other different := (second.chains other different).trans (first.chains other different)
  cells cell outside := (second.cells cell fun member => outside (first.fewer cell member)).trans
    (first.cells cell outside)

/-- The entries of another chain stay. -/
theorem entriesOn_other (trimmed : Trimmed i chain slot entries after chainAfter)
    (shape : Shape i chain) {other : Nat} (different : other ≠ slot) :
    after.entriesOn (chainAfter other) = i.entriesOn (chain other) := by
  rw [trimmed.chains other different]
  refine entriesOn_congr fun cell member => ?_
  rw [trimmed.cells cell fun here => different (shape.chains.disjoint other slot cell member here)]

theorem holds (trimmed : Trimmed i chain slot entries after chainAfter) (shape : Shape i chain)
    (other nr : Nat) :
    Holds after chainAfter other nr ↔
      if other = slot then nr ∈ entries else Holds i chain other nr := by
  rw [holds_iff_entriesOn, holds_iff_entriesOn]
  split_ifs with same
  · rw [same, trimmed.entries]
  · rw [trimmed.entriesOn_other shape same]

/-- The bits that are left are those of the entries that are left. -/
theorem bitmap (trimmed : Trimmed i chain slot entries after chainAfter) (shape : Shape i chain)
    (kept : ∀ nr ∈ entries, nr ∈ i.entriesOn (chain slot)) (nr : Nat) :
    after.bitmap nr = true ↔
      i.bitmap nr = true ∧ (nr ∈ i.entriesOn (chain slot) → nr ∈ entries) := by
  rw [trimmed.shape.usage.bits, shape.usage.bits, trimmed.shape.chains.mem_held,
    shape.chains.mem_held]
  constructor
  · rintro ⟨other, there⟩
    rw [trimmed.holds shape] at there
    split_ifs at there with same
    · exact ⟨⟨slot, holds_iff_entriesOn.mpr (kept nr there)⟩, fun _ => there⟩
    · refine ⟨⟨other, there⟩, fun here => absurd ?_ same⟩
      exact shape.holds_slot there (holds_iff_entriesOn.mpr here)
  · rintro ⟨⟨other, there⟩, stays⟩
    refine ⟨other, (trimmed.holds shape other nr).mpr ?_⟩
    split_ifs with same
    · subst same
      exact stays (holds_iff_entriesOn.mp there)
    · exact there

/-- A chain without one of its entries. -/
theorem dropped {gone : Nat}
    (trimmed : Trimmed i chain slot ((i.entriesOn (chain slot)).erase gone) after chainAfter)
    (shape : Shape i chain) (holds : Holds i chain slot gone) :
    Dropped i chain gone after chainAfter where
  shape := trimmed.shape
  adepth := trimmed.adepth
  ite := trimmed.ite
  unlink := trimmed.unlink
  holds other nr := by
    rw [trimmed.holds shape]
    split_ifs with same
    · rw [same, (shape.entriesOn_nodup slot).mem_erase_iff, holds_iff_entriesOn]
      exact and_comm
    · refine ⟨fun there => ⟨there, ?_⟩, And.left⟩
      rintro rfl
      exact same (shape.holds_slot there holds)

end Trimmed

end Entries

section Shapes

variable {i : Itb} {chain : Nat → List Nat} {slot : Nat}

/-- The head of a chain of several cells. -/
theorem Shape.head_conflict (shape : Shape i chain) (bound : slot < i.total)
    (notFree : (i.index slot).flag ≠ .free) (notUnique : (i.index slot).flag ≠ .unique) :
    (i.index slot).flag = .conflict ∧ ∃ rest, chain slot = slot :: (i.index slot).conflict :: rest ∧
      (i.index slot).conflict < 2 * i.total ∧ (i.index slot).conflict ≠ slot := by
  have path := shape.chains.path slot bound notFree
  obtain ⟨others, cells⟩ := path.exists_tail
  have flag := (shape.chains.used slot slot path.start_mem).resolve_left notUnique
  obtain ⟨rest, rfl, high⟩ := shape.chains.conflict_lt [] cells flag
  refine ⟨flag, rest, cells, high, fun same => ?_⟩
  have nodup := shape.chains.nodup slot
  rw [cells] at nodup
  exact (List.nodup_cons.mp nodup).1 (by rw [same]; exact List.mem_cons_self)

/-- The head of a chain of one cell. -/
theorem Shape.head_unique (shape : Shape i chain) (bound : slot < i.total)
    (unique : (i.index slot).flag = .unique) : chain slot = [slot] := by
  have path := shape.chains.path slot bound (by rw [unique]; decide)
  obtain ⟨others, cells⟩ := path.exists_tail
  rw [cells, shape.chains.unique_last [] cells unique]

theorem Shape.head_ne (shape : Shape i chain) {front rest : List Nat} {prev cell : Nat}
    (cells : chain slot = front ++ prev :: cell :: rest) : cell ≠ slot := by
  rintro rfl
  have nodup := shape.chains.nodup cell
  have member : cell ∈ chain cell := by
    rw [cells]
    simp
  obtain ⟨others, start⟩ := shape.chains.exists_tail member
  rw [start] at nodup
  rw [start] at cells
  cases front with
  | nil =>
    cases cells
    exact (List.nodup_cons.mp nodup).1 List.mem_cons_self
  | cons head front =>
    cases cells
    exact (List.nodup_cons.mp nodup).1 (by simp)

/-- Neighbours on a chain are different cells. -/
theorem Shape.prev_ne (shape : Shape i chain) {front rest : List Nat} {prev cell : Nat}
    (cells : chain slot = front ++ prev :: cell :: rest) : prev ≠ cell := by
  rintro rfl
  have nodup := shape.chains.nodup slot
  rw [cells] at nodup
  exact (List.nodup_cons.mp (List.nodup_append.mp nodup).2.1).1 List.mem_cons_self

end Shapes

/-! ### The three writes -/

section Writes

variable {i : Itb} {chain : Nat → List Nat} {slot : Nat}

/-- Taking a cell off names no entry anew. -/
theorem unlinkBehind_entries {prev victim : Nat} (different : prev ≠ victim) (cell : Nat) :
    ((unlinkBehind i prev victim).index cell).entry = (i.index cell).entry := by
  unfold unlinkBehind
  split_ifs <;> rw [iteUnlinkInternal_index, Function.update_apply, setIndex_index]
  all_goals
    split_ifs with same
    · rw [same, Function.update_of_ne different.symm]
    · rw [Function.update_apply]
      split_ifs with samePrev
      · rw [samePrev]
      · rfl

theorem unlinkBehind_index {prev victim cell : Nat} (notPrev : cell ≠ prev)
    (notVictim : cell ≠ victim) : (unlinkBehind i prev victim).index cell = i.index cell := by
  unfold unlinkBehind
  split_ifs <;> rw [iteUnlinkInternal_index, Function.update_of_ne notVictim, setIndex_index,
    Function.update_of_ne notPrev]

theorem Shape.unlinkBehind_trimmed (shape : Shape i chain) {front rest : List Nat}
    {prev victim : Nat} (cells : chain slot = front ++ prev :: victim :: rest) :
    Trimmed i chain slot (i.entriesOn (front ++ prev :: rest)) (unlinkBehind i prev victim)
      (Function.update chain slot (front ++ prev :: rest)) := by
  have dropped := shape.unlinkBehind_dropped cells
  have different := shape.prev_ne cells
  refine ⟨dropped.shape, dropped.adepth, dropped.ite, dropped.unlink, ?_, ?_, ?_, ?_⟩
  · rw [Function.update_self]
    exact entriesOn_congr fun cell _ => unlinkBehind_entries different cell
  · intro cell member
    rw [Function.update_self] at member
    rw [cells]
    exact ((List.sublist_cons_self victim rest).cons_cons prev).append_left front |>.subset member
  · exact fun other otherSlot => Function.update_of_ne otherSlot _ _
  · intro cell outside
    rw [cells] at outside
    simp only [List.mem_append, List.mem_cons, not_or] at outside
    exact unlinkBehind_index outside.2.1 outside.2.2.1

theorem Shape.iteUnlinkInternal_trimmed (shape : Shape i chain) (cells : chain slot = [slot]) :
    Trimmed i chain slot [] (iteUnlinkInternal i slot) (Function.update chain slot []) := by
  have dropped := shape.iteUnlinkInternal_dropped cells
  refine ⟨dropped.shape, dropped.adepth, dropped.ite, dropped.unlink, ?_, ?_, ?_, ?_⟩
  · rw [Function.update_self]
    rfl
  · intro cell member
    rw [Function.update_self] at member
    cases member
  · exact fun other otherSlot => Function.update_of_ne otherSlot _ _
  · intro cell outside
    rw [cells, List.mem_singleton] at outside
    rw [iteUnlinkInternal_index, Function.update_of_ne outside]

/-- The head and the second cell exchange their entries. -/
theorem Shape.swapEntries_trimmed (shape : Shape i chain) {second : Nat} {rest : List Nat}
    (cells : chain slot = slot :: second :: rest) :
    Trimmed i chain slot
      ((i.index second).entry :: (i.index slot).entry :: i.entriesOn rest)
      (swapEntries i second slot) chain := by
  have nodup := shape.chains.nodup slot
  rw [cells] at nodup
  have outsideSlot := (List.nodup_cons.mp nodup).1
  have outsideSecond := (List.nodup_cons.mp (List.nodup_cons.mp nodup).2).1
  have different : second ≠ slot := fun same => outsideSlot (same ▸ List.mem_cons_self)
  have exchanged := shape.swapEntries_exchanged (by rw [cells]; exact List.mem_cons_self)
    (by rw [cells]; exact List.mem_cons_of_mem _ List.mem_cons_self) different
  refine ⟨exchanged.shape, exchanged.adepth, exchanged.ite, exchanged.unlink, ?_, fun _ => id,
    fun _ _ => rfl, ?_⟩
  · have behind : (swapEntries i second slot).entriesOn rest = i.entriesOn rest := by
      refine entriesOn_congr fun cell member => ?_
      rw [swapEntries_index different, if_neg, if_neg]
      · rintro rfl
        exact outsideSecond member
      · rintro rfl
        exact outsideSlot (List.mem_cons_of_mem _ member)
    rw [cells, Itb.entriesOn, List.map_cons, List.map_cons, swapEntries_index different,
      swapEntries_index different, if_pos rfl, if_neg different, if_pos rfl]
    exact congrArg _ (congrArg _ behind)
  · intro cell outside
    rw [cells] at outside
    simp only [List.mem_cons, not_or] at outside
    rw [swapEntries_index different, if_neg outside.1, if_neg outside.2.1]

end Writes

/-! ### Deleting one cell -/

section Delete

variable {i : Itb} {chain : Nat → List Nat} {slot : Nat}

/-- Behind the head the loop walks to its target and unlinks it there. -/
theorem itbDelLoop_behind (shape : Shape i chain) {target : Nat} (fuel : Nat)
    {front rest : List Nat} {prev offset : Nat}
    (cells : chain slot = front ++ prev :: offset :: rest)
    (ahead : target ∈ offset :: rest) (enough : rest.length < fuel) :
    ∃ before behind last, chain slot = before ++ last :: target :: behind ∧
      itbDelLoop slot target fuel i offset prev false false =
        some (unlinkBehind i last target, false) := by
  induction rest generalizing fuel front prev offset with
  | nil =>
    obtain ⟨fuel, rfl⟩ := Nat.exists_eq_succ_of_ne_zero (Nat.ne_of_gt enough)
    cases List.mem_singleton.mp ahead
    refine ⟨front, [], prev, cells, ?_⟩
    have member : target ∈ chain slot := by
      rw [cells]
      simp
    rw [itbDelLoop, if_neg (shape.chains.used_ne_free member), if_pos (Or.inl rfl),
      if_neg (shape.head_ne cells)]
  | cons follower rest inductionHypothesis =>
    obtain ⟨fuel, rfl⟩ := Nat.exists_eq_succ_of_ne_zero (Nat.ne_of_gt (Nat.zero_lt_of_lt enough))
    have member : offset ∈ chain slot := by
      rw [cells]
      simp
    by_cases found : target = offset
    · subst found
      refine ⟨front, follower :: rest, prev, cells, ?_⟩
      rw [itbDelLoop, if_neg (shape.chains.used_ne_free member), if_pos (Or.inl rfl),
        if_neg (shape.head_ne cells)]
    · have later := (List.mem_cons.mp ahead).resolve_left found
      have shifted : chain slot = (front ++ [prev]) ++ offset :: follower :: rest := by
        rw [cells, List.append_assoc]
        rfl
      obtain ⟨flag, next⟩ := shape.chains.flag_of_more _ shifted
      obtain ⟨_, _, low⟩ := shape.chains.conflict_lt _ shifted flag
      obtain ⟨before, behind, last, found', result⟩ := inductionHypothesis fuel shifted later
        (by simp only [List.length_cons] at enough; omega)
      refine ⟨before, behind, last, found', ?_⟩
      rw [itbDelLoop, if_neg (shape.chains.used_ne_free member), if_neg (by simpa using found),
        if_neg (by decide), if_neg (by rw [flag]; decide), if_pos low, next, result]

/-- How `itb_del_ite` of a cell of the chain goes: the only cell is freed, a cell behind another one
is taken off, and for a head with a second cell the two swap and the second one is taken off. The
loop ends, and its assertion is not reached. -/
theorem itbDelIte_cases (shape : Shape i chain) {target : Nat} (member : target ∈ chain slot) :
    (target = slot ∧ chain slot = [slot] ∧
        itbDelIte i target slot = some (iteUnlinkInternal i slot)) ∨
      (∃ front prev rest, chain slot = front ++ prev :: target :: rest ∧
        itbDelIte i target slot = some (unlinkBehind i prev target)) ∨
      (target = slot ∧ ∃ second rest, chain slot = slot :: second :: rest ∧
        itbDelIte i target slot = some (unlinkBehind (swapEntries i second slot) slot second)) := by
  obtain ⟨bound, notFree⟩ := shape.chains.head_of_mem member
  unfold itbDelIte
  by_cases unique : (i.index slot).flag = .unique
  · left
    have cells := shape.head_unique bound unique
    rw [cells] at member
    obtain rfl := List.mem_singleton.mp member
    refine ⟨rfl, cells, ?_⟩
    rw [unique]
    exact if_pos rfl
  right
  obtain ⟨flag, rest, cells, low, different⟩ := shape.head_conflict bound notFree unique
  generalize next : (i.index slot).conflict = second at cells low different
  have length := shape.chains.length_le slot
  rw [cells] at length
  simp only [List.length_cons] at length
  obtain ⟨fuel, fuelEq⟩ : ∃ fuel, 4 * i.total = fuel + 3 := ⟨4 * i.total - 3, by omega⟩
  have secondMember : second ∈ chain slot := by
    rw [cells]
    simp
  have pairs : chain slot = [] ++ slot :: second :: rest := cells
  rw [flag, fuelEq]
  by_cases head : target = slot
  · -- the head is the target: swap with the second cell and unlink that one
    right
    subst head
    have swapped := (shape.swapEntries_trimmed cells).shape.chains.used_ne_free secondMember
    refine ⟨rfl, second, rest, cells, ?_⟩
    simp only
    rw [itbDelLoop, if_neg notFree, if_pos (Or.inl rfl), if_pos rfl,
      if_pos (by rw [next]; exact low), next, itbDelLoop,
      if_neg (shape.chains.used_ne_free secondMember), if_neg (by simpa using different.symm),
      if_pos rfl, itbDelLoop, if_neg swapped, if_pos (Or.inr rfl), if_neg different]
    rfl
  · left
    have later : target ∈ second :: rest := by
      rw [cells] at member
      exact (List.mem_cons.mp member).resolve_left head
    obtain ⟨before, behind, last, found, result⟩ :=
      itbDelLoop_behind shape (fuel + 2) pairs later (by omega)
    refine ⟨before, last, behind, found, ?_⟩
    simp only
    rw [itbDelLoop, if_neg notFree, if_neg (by simpa using head), if_neg (by decide),
      if_neg unique, if_pos (by rw [next]; exact low), next, result]
    rfl

/-- `itb_del_ite` of a cell of the chain takes exactly the entry of that cell off. -/
theorem itbDelIte_trimmed (shape : Shape i chain) {target : Nat} (member : target ∈ chain slot) :
    ∃ after chainAfter, itbDelIte i target slot = some after ∧
      Trimmed i chain slot ((i.entriesOn (chain slot)).erase (i.index target).entry) after
        chainAfter := by
  have nodup := shape.entriesOn_nodup slot
  rcases itbDelIte_cases shape member with ⟨rfl, cells, result⟩ |
    ⟨front, prev, rest, cells, result⟩ | ⟨rfl, second, rest, cells, result⟩
  · refine ⟨_, Function.update chain target [], result, ?_⟩
    rw [cells]
    unfold Itb.entriesOn
    rw [List.map_singleton, List.erase_cons_head]
    exact shape.iteUnlinkInternal_trimmed cells
  · refine ⟨_, Function.update chain slot (front ++ prev :: rest), result, ?_⟩
    have trimmed := shape.unlinkBehind_trimmed cells
    rw [cells] at nodup ⊢
    unfold Itb.entriesOn at nodup trimmed ⊢
    have outside : (i.index target).entry ∉ (front ++ [prev]).map
      fun cell => (i.index cell).entry := by
      rw [List.append_cons, List.map_append, List.map_cons] at nodup
      exact fun inside => (List.nodup_append.mp nodup).2.2 _ inside _ List.mem_cons_self rfl
    rw [List.append_cons, List.map_append, List.map_cons, List.erase_append_right _ outside,
      List.erase_cons_head, ← List.map_append, ← List.append_cons]
    exact trimmed
  · refine ⟨_, Function.update chain target (target :: rest), result, ?_⟩
    have swapped := shape.swapEntries_trimmed cells
    have pairs : chain target = [] ++ target :: second :: rest := cells
    have trimmed := swapped.trans (swapped.shape.unlinkBehind_trimmed pairs)
    have left : (swapEntries i second target).entriesOn ([] ++ target :: rest) =
        (i.entriesOn (chain target)).erase (i.index target).entry := by
      have entries := swapped.entries
      rw [cells] at entries ⊢
      unfold Itb.entriesOn at entries ⊢
      rw [List.map_cons, List.map_cons] at entries
      rw [List.nil_append, List.map_cons, List.map_cons, List.erase_cons_head, List.map_cons]
      exact List.cons_eq_cons.mpr ⟨(List.cons.inj entries).1,
        (List.cons.inj (List.cons.inj entries).2).2⟩
    rw [left] at trimmed
    exact trimmed

theorem itbDelIte_dropped (shape : Shape i chain) {target : Nat} (member : target ∈ chain slot) :
    ∃ after chainAfter, itbDelIte i target slot = some after ∧
      Dropped i chain (i.index target).entry after chainAfter := by
  obtain ⟨after, chainAfter, result, trimmed⟩ := itbDelIte_trimmed shape member
  exact ⟨after, chainAfter, result, trimmed.dropped shape ⟨target, member, rfl⟩⟩

/-- What is left of a block when exactly the entry `gone` has left the chain of `slot`. -/
structure RemovedExactly (i : Itb) (chain : Nat → List Nat) (slot gone : Nat) (after : Itb)
    (chainAfter : Nat → List Nat) : Prop where
  shape : Shape after chainAfter
  /-- The chain has exactly the other entries, in their order. -/
  entries : after.entriesOn (chainAfter slot) = (i.entriesOn (chain slot)).erase gone
  bitmap : after.bitmap = Function.update i.bitmap gone false
  chains : ∀ other, other ≠ slot → chainAfter other = chain other
  cells : ∀ cell, cell ∉ chain slot → after.index cell = i.index cell
  ite : after.ite = i.ite

/-- `itb_del_ite` of any cell of any chain ends, with its assertion, and removes exactly the entry
of that cell. -/
theorem itb_del_ite_exact (shape : Shape i chain) {target : Nat} (member : target ∈ chain slot) :
    ∃ after chainAfter, itbDelIte i target slot = some after ∧
      RemovedExactly i chain slot (i.index target).entry after chainAfter := by
  obtain ⟨after, chainAfter, result, trimmed⟩ := itbDelIte_trimmed shape member
  have here : (i.index target).entry ∈ i.entriesOn (chain slot) := List.mem_map_of_mem member
  refine ⟨after, chainAfter, result, trimmed.shape, trimmed.entries, ?_, trimmed.chains,
    trimmed.cells, trimmed.ite⟩
  funext nr
  rw [Bool.eq_iff_iff, trimmed.bitmap shape fun _ => List.mem_of_mem_erase,
    (shape.entriesOn_nodup slot).mem_erase_iff, Function.update_apply]
  split_ifs with same
  · simp [same, here]
  · simp [same]

end Delete

/-- A block with two entries on one chain. -/
def collidingBlock : Itb :=
  (itbAddIte ⟨0, 0⟩ (itbAddIte ⟨0, 0⟩ (emptyItb 3) (collidingIndex INDEX_CREATE 0 97)).itb
    (collidingIndex INDEX_CREATE 8 98)).itb

theorem collidingBlock_shape : ∃ chain, Shape collidingBlock chain := by
  obtain ⟨chain, shape⟩ :=
    (itbAddIte_shape (emptyItb_shape 3) ⟨0, 0⟩ (collidingIndex INDEX_CREATE 0 97)).2
  exact (itbAddIte_shape shape _ _).2

theorem collidingBlock_onChain : OnChain collidingBlock 0 0 :=
  ⟨by decide, by decide, [0, 8], .link (by decide) (.last (by decide)), by decide⟩

/-- The head of the chain is deleted. -/
theorem itb_del_ite_exact_head : ∃ chain after chainAfter,
    itbDelIte collidingBlock 0 0 = some after ∧
    RemovedExactly collidingBlock chain 0 (collidingBlock.index 0).entry after chainAfter := by
  obtain ⟨chain, shape⟩ := collidingBlock_shape
  exact ⟨chain, itb_del_ite_exact shape (shape.chains.onChain_iff.mp collidingBlock_onChain)⟩

end Hvfs
