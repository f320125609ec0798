/-
This file verifies adding an entry to a block: a block that is not full has a
clear bit and, under a head in use, a FREE cell in the second half, and
`itb_add_ite` hangs the new entry on the chain of its hash slot and changes no
other entry.
-/

import Hvfs.ItbShape

namespace Hvfs

/-! ### The scans -/

theorem scanFreeIndex_some {index : Nat → ItbIndex} {total count nr found : Nat}
    (start : nr < total) (result : scanFreeIndex index total count nr = some found) :
    found < total ∧ (index (found + total)).flag = .free := by
  induction count generalizing nr with
  | zero => cases result
  | succ count inductionHypothesis =>
    rw [scanFreeIndex] at result
    split_ifs at result with free last
    · cases result
      exact ⟨start, free⟩
    · exact inductionHypothesis (by omega) result
    · exact inductionHypothesis (by omega) result

/-- A scan that finds nothing has looked at each cell of its round. -/
theorem scanFreeIndex_none {index : Nat → ItbIndex} {total count nr : Nat} (start : nr < total)
    (result : scanFreeIndex index total count nr = none) (ahead : Nat) (within : ahead < count) :
    (index ((nr + ahead) % total + total)).flag ≠ .free := by
  induction count generalizing nr ahead with
  | zero => omega
  | succ count inductionHypothesis =>
    rw [scanFreeIndex] at result
    split_ifs at result with free last
    · cases ahead with
      | zero => rwa [Nat.add_zero, Nat.mod_eq_of_lt start]
      | succ ahead =>
        have later := inductionHypothesis (by omega) result ahead (by omega)
        have wrap : (nr + (ahead + 1)) % total = (0 + ahead) % total := by
          rw [show nr + (ahead + 1) = 0 + ahead + total by omega, Nat.add_mod_right]
        rwa [wrap]
    · cases ahead with
      | zero => rwa [Nat.add_zero, Nat.mod_eq_of_lt start]
      | succ ahead =>
        have := inductionHypothesis (by omega) result ahead (by omega)
        rwa [show nr + 1 + ahead = nr + (ahead + 1) by omega] at this

/-- The scan over the whole second half finds a FREE cell when there is one. -/
theorem scanFreeIndex_total (index : Nat → ItbIndex) {total nr cell : Nat} (start : nr < total)
    (bound : cell < total) (free : (index (cell + total)).flag = .free) :
    ∃ found, scanFreeIndex index total total nr = some found := by
  rcases result : scanFreeIndex index total total nr with _ | found
  · have ahead : (nr + (cell + total - nr) % total) % total = cell := by
      rw [Nat.add_mod_mod, show nr + (cell + total - nr) = cell + total by omega,
        Nat.add_mod_right, Nat.mod_eq_of_lt bound]
    have used := scanFreeIndex_none start result _ (Nat.mod_lt (cell + total - nr) (by omega))
    rw [ahead] at used
    exact absurd free used
  · exact ⟨found, rfl⟩

theorem findZeroBit_spec (bitmap : Nat → Bool) (count nr : Nat) :
    nr ≤ findZeroBit bitmap count nr ∧
      (findZeroBit bitmap count nr < nr + count → bitmap (findZeroBit bitmap count nr) = false) ∧
      ∀ bit, nr ≤ bit → bit < findZeroBit bitmap count nr → bitmap bit = true := by
  induction count generalizing nr with
  | zero => exact ⟨Nat.le_refl _, fun less => absurd less (Nat.lt_irrefl _), fun bit _ _ => by
      simp only [findZeroBit] at *
      omega⟩
  | succ count inductionHypothesis =>
    rw [findZeroBit]
    split_ifs with set
    · obtain ⟨le, clear, below⟩ := inductionHypothesis (nr + 1)
      refine ⟨by omega, fun less => clear (by omega), fun bit low high => ?_⟩
      rcases Nat.eq_or_lt_of_le low with rfl | later
      · exact set
      · exact below bit later high
    · exact ⟨Nat.le_refl _, fun _ => by simpa using set, fun bit _ _ => by omega⟩

/-! ### Room -/

section Room

variable {i : Itb} {chain : Nat → List Nat} {slot : Nat}

theorem Itb.total_pos (i : Itb) : 0 < i.total := Nat.two_pow_pos i.adepth

theorem hashSlot_congr {i after : Itb} (sameDepth : after.adepth = i.adepth) (hash : U64) :
    hashSlot after hash = hashSlot i hash := by
  unfold hashSlot Itb.total
  rw [sameDepth]

theorem hashSlot_lt (i : Itb) (hash : U64) : hashSlot i hash < i.total :=
  Nat.mod_lt _ i.total_pos

/-- A block that is not full has a clear bit. -/
theorem Usage.exists_clear (usage : Usage i) (notFull : i.entries < (i.total : Int)) :
    findFirstZeroBit i.bitmap i.total < i.total ∧
      i.bitmap (findFirstZeroBit i.bitmap i.total) = false := by
  obtain ⟨_, clear, below⟩ := findZeroBit_spec i.bitmap i.total 0
  rw [Nat.zero_add] at clear
  have bound : findFirstZeroBit i.bitmap i.total < i.total := by
    by_contra beyond
    have all : Finset.range i.total ⊆ i.held := by
      intro bit member
      refine (usage.bits bit).mp (below bit (Nat.zero_le _) ?_)
      exact Nat.lt_of_lt_of_le (Finset.mem_range.mp member) (Nat.le_of_not_lt beyond)
    have count := Finset.card_le_card all
    rw [Finset.card_range, usage.distinct] at count
    have := usage.entries
    omega
  exact ⟨bound, clear bound⟩

theorem Usage.first_clear (usage : Usage i) (none : i.used = ∅) :
    findFirstZeroBit i.bitmap i.total = 0 := by
  obtain ⟨count, total⟩ := Nat.exists_eq_succ_of_ne_zero (Nat.ne_of_gt i.total_pos)
  have clear : ¬i.bitmap 0 = true := by
    rw [usage.bits, mem_held, none]
    simp
  rw [findFirstZeroBit, total, findZeroBit, if_neg clear]

/-- Under a head in use, a block that is not full has a FREE cell in its second half. -/
theorem Usage.exists_free (usage : Usage i) (notFull : i.entries < (i.total : Int))
    (bound : slot < i.total) (head : (i.index slot).flag ≠ .free) :
    ∃ cell, cell < i.total ∧ (i.index (cell + i.total)).flag = .free := by
  by_contra none
  have all : insert slot (Finset.Ico i.total (2 * i.total)) ⊆ i.used := by
    intro cell member
    rcases Finset.mem_insert.mp member with rfl | member
    · exact mem_used.mpr ⟨by omega, head⟩
    · obtain ⟨low, high⟩ := Finset.mem_Ico.mp member
      refine mem_used.mpr ⟨high, fun free => none ⟨cell - i.total, by omega, ?_⟩⟩
      rwa [Nat.sub_add_cancel low]
  have count := Finset.card_le_card all
  have outside : slot ∉ Finset.Ico i.total (2 * i.total) := by
    rw [Finset.mem_Ico]
    omega
  rw [Finset.card_insert_of_notMem outside, Nat.card_Ico] at count
  have := usage.entries
  omega

/-- What `__itb_get_free_index` does to a block that is not full. -/
theorem itbGetFreeIndex_spec (usage : Usage i) (notFull : i.entries < (i.total : Int))
    (bound : slot < i.total) (head : (i.index slot).flag ≠ .free) {after : Itb}
    (sameIndex : after.index = i.index) (sameTotal : after.total = i.total) :
    ∃ fresh inf, itbGetFreeIndex after = (fresh, { after with inf := inf, itu := after.itu + 1 }) ∧
      i.total ≤ fresh ∧ fresh < 2 * i.total ∧ (i.index fresh).flag = .free := by
  obtain ⟨cell, low, free⟩ := usage.exists_free notFull bound head
  have start : (if after.inf ≥ after.total then 0 else after.inf) < after.total := by
    have := i.total_pos
    split_ifs <;> omega
  obtain ⟨found, result⟩ := scanFreeIndex_total after.index start
    (sameTotal ▸ low) (by rw [sameIndex, sameTotal]; exact free)
  obtain ⟨foundLow, foundFree⟩ := scanFreeIndex_some start result
  refine ⟨found + after.total, found + 1, ?_, by omega, by omega, ?_⟩
  · simp only [itbGetFreeIndex, result]
  · rw [← sameIndex]
    exact foundFree

end Room

/-! ### Hanging the entry on its chain -/

/-- What an addition leaves: one more entry hangs on its head. -/
structure Added (i : Itb) (chain : Nat → List Nat) (slot nr : Nat) (after : Itb)
    (chainAfter : Nat → List Nat) : Prop where
  shape : Shape after chainAfter
  adepth : after.adepth = i.adepth
  unlink : after.unlink = i.unlink
  entries : after.entries = i.entries + 1
  holds : ∀ head other, Holds after chainAfter head other ↔
    Holds i chain head other ∨ (head = slot ∧ other = nr)

/-- The block once `itb_add_ite` has taken an entry, before it hangs the entry on a chain. -/
def Itb.reserve (i : Itb) (nr : Nat) (ite : Ite) : Itb :=
  (({ i with entries := i.entries + 1 } : Itb).setBit nr true).setIte nr ite

/-- What a write of the index makes when it hangs one entry with one cell more on a head. -/
structure Hooked (i : Itb) (chain : Nat → List Nat) (slot nr cell : Nat) (after : Itb)
    (chainAfter : Nat → List Nat) : Prop where
  chains : Chains after chainAfter
  cells : ∀ other, (∃ head, other ∈ chainAfter head) ↔ other = cell ∨ ∃ head, other ∈ chain head
  holds : ∀ head other, Holds after chainAfter head other ↔
    Holds i chain head other ∨ (head = slot ∧ other = nr)

section Link

variable {i after : Itb} {chain : Nat → List Nat} {slot nr : Nat}

/-- The first entry of a head. -/
theorem Chains.linkHead (chains : Chains i chain) (bound : slot < i.total)
    (sameTotal : after.total = i.total) (free : (i.index slot).flag = .free)
    (others : ∀ cell, cell ≠ slot → after.index cell = i.index cell)
    (unique : (after.index slot).flag = .unique) (entry : (after.index slot).entry = nr) :
    Hooked i chain slot nr slot after (Function.update chain slot [slot]) := by
  have none : chain slot = [] := chains.empty slot fun _ => free
  refine ⟨chains.addHead bound sameTotal free others unique, ?_, ?_⟩
  · intro other
    constructor
    · rintro ⟨head, member⟩
      rcases eq_or_ne head slot with rfl | different
      · rw [Function.update_self] at member
        exact Or.inl (List.mem_singleton.mp member)
      · rw [Function.update_of_ne different] at member
        exact Or.inr ⟨head, member⟩
    · rintro (rfl | ⟨head, member⟩)
      · exact ⟨other, by rw [Function.update_self]; exact List.mem_cons_self⟩
      · have different : head ≠ slot := by
          rintro rfl
          rw [none] at member
          cases member
        exact ⟨head, by rw [Function.update_of_ne different]; exact member⟩
  · intro head other
    unfold Holds
    rcases eq_or_ne head slot with rfl | different
    · rw [Function.update_self, none]
      simp [entry, eq_comm]
    · rw [Function.update_of_ne different]
      have same : ∀ cell ∈ chain head, after.index cell = i.index cell := fun cell member =>
        others cell fun same => chains.used_ne_free member (same ▸ free)
      constructor
      · rintro ⟨cell, member, named⟩
        exact Or.inl ⟨cell, member, by rw [← named, ← same cell member]⟩
      · rintro (⟨cell, member, named⟩ | ⟨absurdity, _⟩)
        · exact ⟨cell, member, by rw [← named, ← same cell member]⟩
        · exact absurd absurdity different

/-- A further entry: the head and the fresh cell carry the old and the new entry, either way
round, and the fresh cell takes over what followed the head. -/
theorem Chains.linkBehind (chains : Chains i chain) (bound : slot < i.total)
    (sameTotal : after.total = i.total) (used : (i.index slot).flag ≠ .free) {fresh : Nat}
    (lowFresh : i.total ≤ fresh) (highFresh : fresh < 2 * i.total)
    (free : (i.index fresh).flag = .free) {head second : ItbIndex}
    (write : after.index = Function.update (Function.update i.index slot head) fresh second)
    (headFlag : head.flag = .conflict) (headConflict : head.conflict = fresh)
    (secondFlag : second.flag = (i.index slot).flag)
    (secondConflict : second.flag = .conflict → second.conflict = (i.index slot).conflict)
    (entries : head.entry = (i.index slot).entry ∧ second.entry = nr ∨
      head.entry = nr ∧ second.entry = (i.index slot).entry) :
    Hooked i chain slot nr fresh after
      (Function.update chain slot (slot :: fresh :: (chain slot).tail)) := by
  have different : slot ≠ fresh := by omega
  have atSlot : after.index slot = head := by
    rw [write, Function.update_of_ne different, Function.update_self]
  have atFresh : after.index fresh = second := by
    rw [write, Function.update_self]
  have others : ∀ cell, cell ≠ slot → cell ≠ fresh → after.index cell = i.index cell := by
    intro cell notSlot notFresh
    rw [write, Function.update_of_ne notFresh, Function.update_of_ne notSlot]
  have taken : after.next fresh = i.next slot := by
    unfold Itb.next
    rw [atFresh, ← secondFlag]
    by_cases flag : second.flag = .conflict
    · rw [secondConflict flag, flag]
    · cases other : second.flag <;> first | rfl | exact absurd other flag
  rw [← atSlot] at headFlag headConflict entries
  rw [← atFresh] at secondFlag entries
  have secondUsed : (after.index fresh).flag = .unique ∨ (after.index fresh).flag = .conflict := by
    rw [secondFlag]
    exact chains.used slot slot (chains.path slot bound used).start_mem
  obtain ⟨rest, cells⟩ := (chains.path slot bound used).exists_tail
  have notFresh : ∀ head, fresh ∉ chain head := fun head member =>
    chains.used_ne_free member free
  have same : ∀ head, ∀ cell ∈ chain head, cell ≠ slot → after.index cell = i.index cell :=
    fun head cell member different =>
      others cell different fun same => notFresh head (same ▸ member)
  have headMember : slot ∈ chain slot := by
    rw [cells]
    exact List.mem_cons_self
  have members : ∀ other, other ∈ slot :: fresh :: rest ↔ other = fresh ∨ other ∈ chain slot := by
    intro other
    rw [cells, List.mem_cons, List.mem_cons, List.mem_cons]
    exact or_left_comm
  refine ⟨chains.insertBehind bound sameTotal used lowFresh highFresh free others
    headFlag headConflict secondUsed taken, ?_, ?_⟩
  · intro other
    rw [cells, List.tail_cons]
    constructor
    · rintro ⟨start, member⟩
      rcases eq_or_ne start slot with rfl | different
      · rw [Function.update_self, members] at member
        exact member.imp_right fun member => ⟨start, member⟩
      · rw [Function.update_of_ne different] at member
        exact Or.inr ⟨start, member⟩
    · rintro (rfl | ⟨start, member⟩)
      · exact ⟨slot, by rw [Function.update_self, members]; exact Or.inl rfl⟩
      · rcases eq_or_ne start slot with rfl | different
        · exact ⟨start, by rw [Function.update_self, members]; exact Or.inr member⟩
        · exact ⟨start, by rw [Function.update_of_ne different]; exact member⟩
  · intro start other
    rw [cells, List.tail_cons]
    unfold Holds
    rcases eq_or_ne start slot with rfl | different
    · have nodup := chains.nodup start
      rw [cells] at nodup
      have tail : ∀ cell ∈ rest, after.index cell = i.index cell := by
        intro cell later
        refine same start cell (by rw [cells]; exact List.mem_cons_of_mem _ later) ?_
        rintro rfl
        exact (List.nodup_cons.mp nodup).1 later
      have tailHolds : (∃ cell ∈ rest, (after.index cell).entry = other) ↔
          ∃ cell ∈ rest, (i.index cell).entry = other := by
        refine exists_congr fun cell => and_congr_right fun member => ?_
        rw [tail cell member]
      rw [Function.update_self, cells]
      simp only [List.exists_mem_cons_iff, true_and]
      rw [tailHolds]
      rcases entries with ⟨first, last⟩ | ⟨first, last⟩
      · rw [first, last, @eq_comm _ nr other]
        exact (or_congr_right or_comm).trans or_assoc.symm
      · rw [first, last, @eq_comm _ nr other]
        exact or_comm
    · rw [Function.update_of_ne different]
      have apart : ∀ cell ∈ chain start, after.index cell = i.index cell := by
        intro cell member
        refine same start cell member ?_
        rintro rfl
        exact different (chains.disjoint _ _ _ member headMember)
      have holds : (∃ cell ∈ chain start, (after.index cell).entry = other) ↔
          ∃ cell ∈ chain start, (i.index cell).entry = other := by
        refine exists_congr fun cell => and_congr_right fun member => ?_
        rw [apart cell member]
      rw [holds]
      exact ⟨Or.inl, fun either => either.resolve_right fun both => different both.1⟩

theorem Hooked.used {cell : Nat} {chainAfter : Nat → List Nat}
    (hooked : Hooked i chain slot nr cell after chainAfter) (chains : Chains i chain) :
    after.used = insert cell i.used := by
  ext other
  rw [hooked.chains.mem_used, Finset.mem_insert, chains.mem_used, hooked.cells]

theorem Hooked.held {cell : Nat} {chainAfter : Nat → List Nat}
    (hooked : Hooked i chain slot nr cell after chainAfter) (chains : Chains i chain) :
    after.held = insert nr i.held := by
  ext other
  rw [hooked.chains.mem_held, Finset.mem_insert, chains.mem_held]
  simp only [hooked.holds]
  constructor
  · rintro ⟨head, here | ⟨_, same⟩⟩
    · exact Or.inr ⟨head, here⟩
    · exact Or.inl same
  · rintro (same | ⟨head, here⟩)
    · exact ⟨slot, Or.inr ⟨rfl, same⟩⟩
    · exact ⟨head, Or.inl here⟩

end Link

section Hang

variable {i : Itb} {chain : Nat → List Nat} {slot nr : Nat}

/-- The three ways to hang an entry differ in the index only. -/
theorem added_of_index (shape : Shape i chain) (clear : i.bitmap nr = false) (low : nr < i.total)
    (first : i.used = ∅ → nr = 0) {ite : Ite} {index : Nat → ItbIndex} {inf cell : Nat}
    {itu pseudoConflicts : Int} {chainAfter : Nat → List Nat}
    (hooked : Hooked i chain slot nr cell { i.reserve nr ite with index } chainAfter)
    (fresh : (i.index cell).flag = .free)
    (ituNow : itu = if cell ≥ i.total then i.itu + 1 else i.itu)
    (pseudoConflictsNow : pseudoConflicts =
      if cell ≥ i.total then i.pseudoConflicts + 1 else i.pseudoConflicts) :
    Added i chain slot nr
      (noteOffset { i.reserve nr ite with index, inf, itu, pseudoConflicts } nr) chainAfter := by
  have outside : cell ∉ i.used := fun member => (mem_used.mp member).2 fresh
  refine ⟨⟨hooked.chains.congr rfl fun _ => ⟨rfl, rfl⟩, ?_⟩, rfl, rfl, rfl, hooked.holds⟩
  exact shape.usage.grow outside clear low first rfl (hooked.used shape.chains)
    (hooked.held shape.chains) rfl rfl ituNow pseudoConflictsNow rfl rfl

/-- The first entry of a head. -/
theorem added_head (shape : Shape i chain) (bound : slot < i.total) (clear : i.bitmap nr = false)
    (low : nr < i.total) (first : i.used = ∅ → nr = 0) (free : (i.index slot).flag = .free)
    {ite : Ite} {index : Nat → ItbIndex}
    (others : ∀ cell, cell ≠ slot → index cell = i.index cell)
    (unique : (index slot).flag = .unique) (entry : (index slot).entry = nr) :
    Added i chain slot nr (noteOffset { i.reserve nr ite with index } nr)
      (Function.update chain slot [slot]) := by
  have hooked : Hooked i chain slot nr slot { i.reserve nr ite with index } _ :=
    shape.chains.linkHead bound rfl free others unique entry
  exact added_of_index shape clear low first hooked free (if_neg (by omega)).symm
    (if_neg (by omega)).symm

/-- A further entry: the head and the fresh cell carry the old and the new entry, either way
round, and the fresh cell takes over what followed the head. -/
theorem added_behind (shape : Shape i chain) (bound : slot < i.total) (clear : i.bitmap nr = false)
    (low : nr < i.total) (used : (i.index slot).flag ≠ .free) {fresh inf : Nat}
    (lowFresh : i.total ≤ fresh) (highFresh : fresh < 2 * i.total)
    (free : (i.index fresh).flag = .free) {ite : Ite} {head second : ItbIndex}
    (headFlag : head.flag = .conflict) (headConflict : head.conflict = fresh)
    (secondFlag : second.flag = (i.index slot).flag)
    (secondConflict : second.flag = .conflict → second.conflict = (i.index slot).conflict)
    (entries : head.entry = (i.index slot).entry ∧ second.entry = nr ∨
      head.entry = nr ∧ second.entry = (i.index slot).entry) :
    Added i chain slot nr
      (noteOffset { i.reserve nr ite with
        index := Function.update (Function.update i.index slot head) fresh second
        inf := inf, itu := i.itu + 1, pseudoConflicts := i.pseudoConflicts + 1 } nr)
      (Function.update chain slot (slot :: fresh :: (chain slot).tail)) := by
  have sameTotal : ({ i.reserve nr ite with
      index := Function.update (Function.update i.index slot head) fresh second } : Itb).total =
        i.total := rfl
  have hooked := shape.chains.linkBehind bound sameTotal used lowFresh highFresh free rfl headFlag
    headConflict secondFlag secondConflict entries
  have headMember := (shape.chains.path slot bound used).start_mem
  have notEmpty : i.used ≠ ∅ :=
    Finset.ne_empty_of_mem (shape.chains.mem_used.mpr ⟨slot, headMember⟩)
  exact added_of_index shape clear low (fun none => absurd none notEmpty) hooked free
    (if_pos lowFresh).symm (if_pos lowFresh).symm

/-- `__itb_add_index` hangs a reserved entry on the chain of its slot. -/
theorem itbAddIndex_added (shape : Shape i chain) (notFull : i.entries < (i.total : Int))
    (bound : slot < i.total) (clear : i.bitmap nr = false) (low : nr < i.total)
    (first : i.used = ∅ → nr = 0) (ite : Ite) :
    ∃ chainAfter, Added i chain slot nr (itbAddIndex (i.reserve nr ite) slot nr) chainAfter ∧
      (itbAddIndex (i.reserve nr ite) slot nr).ite = Function.update i.ite nr ite := by
  have sameIndex : (i.reserve nr ite).index = i.index := rfl
  rcases flag : (i.index slot).flag with _ | _ | _ | _
  · -- FREE
    refine ⟨Function.update chain slot [slot], ?_⟩
    rw [itbAddIndex, sameIndex, flag]
    refine ⟨added_head shape bound clear low first flag ?_ ?_ ?_, rfl⟩
    · exact fun cell different => Function.update_of_ne different _ _
    · rw [Function.update_self]
    · rw [Function.update_self]
  · -- UNIQUE: the new entry goes into the fresh cell, which ends the chain now
    have used : (i.index slot).flag ≠ .free := by
      rw [flag]
      decide
    obtain ⟨fresh, inf, result, lowFresh, highFresh, free⟩ :=
      itbGetFreeIndex_spec shape.usage notFull bound used sameIndex rfl
    have different : fresh ≠ slot := by omega
    refine ⟨Function.update chain slot (slot :: fresh :: (chain slot).tail), ?_⟩
    rw [itbAddIndex, sameIndex, flag]
    simp only [result]
    refine ⟨added_behind shape bound clear low used lowFresh highFresh free rfl rfl flag.symm ?_ ?_,
      rfl⟩
    · exact fun absurdity => nomatch absurdity
    · exact Or.inl ⟨rfl, rfl⟩
  · -- CONFLICT: the old head moves into the fresh cell and the new entry takes its place
    have used : (i.index slot).flag ≠ .free := by
      rw [flag]
      decide
    obtain ⟨fresh, inf, result, lowFresh, highFresh, free⟩ :=
      itbGetFreeIndex_spec shape.usage notFull bound used sameIndex rfl
    have different : fresh ≠ slot := by omega
    refine ⟨Function.update chain slot (slot :: fresh :: (chain slot).tail), ?_⟩
    rw [itbAddIndex, sameIndex, flag]
    simp only [result]
    have kept : Function.update i.index fresh (i.index slot) slot = i.index slot :=
      Function.update_of_ne different.symm _ _
    have added : Added i chain slot nr (noteOffset { i.reserve nr ite with
        index := Function.update (Function.update i.index slot
          { Function.update i.index fresh (i.index slot) slot with
            entry := nr, conflict := fresh }) fresh (i.index slot)
        inf := inf, itu := i.itu + 1, pseudoConflicts := i.pseudoConflicts + 1 } nr)
        (Function.update chain slot (slot :: fresh :: (chain slot).tail)) := by
      refine added_behind shape bound clear low used lowFresh highFresh free ?_ rfl rfl ?_ ?_
      · rw [kept]
        exact flag
      · exact fun _ => rfl
      · exact Or.inr ⟨rfl, rfl⟩
    rw [← Function.update_comm different] at added
    exact ⟨added, rfl⟩
  · -- OVERFLOW is never set
    have path := shape.chains.path slot bound (by rw [flag]; decide)
    rcases shape.chains.used slot slot path.start_mem with other | other <;>
      exact absurd (flag.symm.trans other) (by decide)

end Hang

/-! ### The whole addition -/

/-- A write of an entry leaves the shape alone. -/
theorem Shape.setIte {i : Itb} {chain : Nat → List Nat} (shape : Shape i chain) (nr : Nat)
    (ite : Ite) : Shape (i.setIte nr ite) chain where
  chains := shape.chains.congr rfl fun _ => ⟨rfl, rfl⟩
  usage := ⟨shape.usage.bound, shape.usage.distinct, shape.usage.bits, shape.usage.entries,
    shape.usage.itu, shape.usage.pseudoConflicts, shape.usage.maxOffset, shape.usage.maxEmpty,
    shape.usage.len⟩

theorem Shape.setUnlink {i : Itb} {chain : Nat → List Nat} (shape : Shape i chain) (unlink : Bool) :
    Shape { i with unlink } chain where
  chains := shape.chains.congr rfl fun _ => ⟨rfl, rfl⟩
  usage := ⟨shape.usage.bound, shape.usage.distinct, shape.usage.bits, shape.usage.entries,
    shape.usage.itu, shape.usage.pseudoConflicts, shape.usage.maxOffset, shape.usage.maxEmpty,
    shape.usage.len⟩

/-- A full block refuses an entry and is left as it was. -/
theorem itbAddIte_full {i : Itb} (full : (i.total : Int) ≤ i.entries) (hmi : Hmi)
    (hi : HvfsIndex) : itbAddIte hmi i hi = ⟨-ESPLIT, none, hmi, i⟩ := by
  have past : ¬i.entries + 1 ≤ (({ i with entries := i.entries + 1 } : Itb).total : Int) := by
    change ¬i.entries + 1 ≤ (i.total : Int)
    omega
  simp only [itbAddIte, if_neg past, Int.add_sub_cancel]

/-- A block that is not full takes the entry into its first free place, on the chain of its hash
slot. -/
theorem itbAddIte_first {i : Itb} {chain : Nat → List Nat} (shape : Shape i chain)
    (notFull : i.entries < (i.total : Int)) (hmi : Hmi) (hi : HvfsIndex) {nr : Nat}
    (found : findFirstZeroBit i.bitmap i.total = nr) :
    ∃ after chainAfter,
      itbAddIte hmi i hi =
        ⟨0, some (mduReply (iteCreate hi (newIte hmi hi).1)), (newIte hmi hi).2, after⟩ ∧
      i.bitmap nr = false ∧ Added i chain (hashSlot i hi.hash) nr after chainAfter ∧
      after.ite = Function.update i.ite nr (iteCreate hi (newIte hmi hi).1) := by
  obtain ⟨low, clear⟩ := shape.usage.exists_clear notFull
  have first : i.used = ∅ → findFirstZeroBit i.bitmap i.total = 0 := shape.usage.first_clear
  rw [found] at low clear first
  obtain ⟨chainAfter, added, ite⟩ := itbAddIndex_added shape notFull (hashSlot_lt i hi.hash) clear
    low first (newIte hmi hi).1
  refine ⟨_, chainAfter, ?_, clear, ⟨added.shape.setIte nr (iteCreate hi (newIte hmi hi).1),
    added.adepth, added.unlink, added.entries, added.holds⟩, ?_⟩
  · have room : i.entries + 1 ≤ (i.total : Int) := by omega
    have total : ({ i with entries := i.entries + 1 } : Itb).total = i.total := rfl
    simp only [itbAddIte, total, if_pos room, found, if_pos low, setIte_ite, Function.update_self]
    rfl
  · rw [setIte_ite, ite, Function.update_idem]

/-- A block that is not full takes the entry, on the chain of its hash slot. -/
theorem itbAddIte_added {i : Itb} {chain : Nat → List Nat} (shape : Shape i chain)
    (notFull : i.entries < (i.total : Int)) (hmi : Hmi) (hi : HvfsIndex) :
    ∃ nr after chainAfter,
      itbAddIte hmi i hi =
        ⟨0, some (mduReply (iteCreate hi (newIte hmi hi).1)), (newIte hmi hi).2, after⟩ ∧
      i.bitmap nr = false ∧ Added i chain (hashSlot i hi.hash) nr after chainAfter ∧
      after.ite = Function.update i.ite nr (iteCreate hi (newIte hmi hi).1) :=
  ⟨_, itbAddIte_first shape notFull hmi hi rfl⟩

/-- An addition that fails was refused by a full block and changed nothing. -/
theorem itbAddIte_failed {i : Itb} {chain : Nat → List Nat} (shape : Shape i chain) (hmi : Hmi)
    (hi : HvfsIndex) (failed : (itbAddIte hmi i hi).err ≠ 0) :
    itbAddIte hmi i hi = ⟨-ESPLIT, none, hmi, i⟩ := by
  by_cases notFull : i.entries < (i.total : Int)
  · obtain ⟨_, _, _, result, _⟩ := itbAddIte_added shape notFull hmi hi
    rw [result] at failed
    exact absurd rfl failed
  · exact itbAddIte_full (not_lt.mp notFull) hmi hi

/-- The answer of `itb_add_ite`, and that it leaves a block with chains. -/
theorem itbAddIte_shape {i : Itb} {chain : Nat → List Nat} (shape : Shape i chain) (hmi : Hmi)
    (hi : HvfsIndex) :
    ((itbAddIte hmi i hi).err = 0 ∨ (itbAddIte hmi i hi).err = -ESPLIT) ∧
      ∃ chainAfter, Shape (itbAddIte hmi i hi).itb chainAfter := by
  by_cases notFull : i.entries < (i.total : Int)
  · obtain ⟨nr, after, chainAfter, result, _, added, _⟩ := itbAddIte_added shape notFull hmi hi
    rw [result]
    exact ⟨Or.inl rfl, chainAfter, added.shape⟩
  · rw [itbAddIte_full (not_lt.mp notFull)]
    exact ⟨Or.inr rfl, chain, shape⟩

/-- A request with a name of one byte and no payload. -/
def collidingIndex (flag : U32) (hash : U64) (letter : U8) : HvfsIndex where
  flag := flag
  uuid := 0
  hash := hash
  itbid := 0
  puuid := 0
  data := ⟨0, none, {}, ⟨0, 0, 0⟩, 0⟩
  name := [letter]

end Hvfs
