/-
This file verifies the pass of `async_unlink_ite`, which deletes the UNLINKED
entries of a block, chain after chain.

The loop over one chain is followed along the cells that are still ahead; that
list, and the one swap, bound the number of its rounds. What a chain keeps is
the list of its entries without the UNLINKED ones. What the pass counts for it
is their number, and one more when the head was UNLINKED and another entry was
not: then the head's entry is counted where it is met first and again in the
cell that it was swapped into.
-/

import Hvfs.ItbRemove
import Mathlib.Algebra.BigOperators.Intervals

namespace Hvfs

/-! ### What a chain is to keep, and what is counted for it -/

/-- The entry is not UNLINKED. -/
def Itb.live (i : Itb) (nr : Nat) : Bool := (i.ite nr).state != ITE_UNLINKED

/-- The number of UNLINKED entries among the cells. -/
def Itb.deadOn (i : Itb) (cells : List Nat) : Nat :=
  (i.entriesOn cells).countP fun nr => !i.live nr

/-- The entry of the head is UNLINKED and another one of the chain is not. -/
def Itb.swapsHead (i : Itb) (cells : List Nat) : Bool :=
  match i.entriesOn cells with
  | [] => false
  | head :: rest => !i.live head && rest.any i.live

/-- What a pass adds to its counters for a chain. -/
def Itb.bumpsOn (i : Itb) (cells : List Nat) : Nat :=
  i.deadOn cells + (i.swapsHead cells).toNat

/-- Both counters after `k` entries. -/
def UnlinkCount.add (count : UnlinkCount) (k : Nat) : UnlinkCount := ⟨count.dc + k, count.prof + k⟩

theorem UnlinkCount.add_dc (count : UnlinkCount) (k : Nat) : (count.add k).dc = count.dc + k := rfl

theorem UnlinkCount.add_prof (count : UnlinkCount) (k : Nat) :
    (count.add k).prof = count.prof + k := rfl

theorem UnlinkCount.bump_add (count : UnlinkCount) (k : Nat) :
    count.bump.add k = count.add (k + 1) := by
  unfold UnlinkCount.bump UnlinkCount.add
  rw [Nat.add_right_comm, Nat.add_right_comm count.prof]
  rfl

theorem UnlinkCount.add_add (count : UnlinkCount) (first second : Nat) :
    (count.add first).add second = count.add (first + second) := by
  unfold UnlinkCount.add
  rw [Nat.add_assoc, Nat.add_assoc]

section Live

variable {i : Itb} {cell : Nat}

theorem live_eq_false : i.live (i.index cell).entry = false ↔
    (i.ite (i.index cell).entry).state = ITE_UNLINKED := by
  unfold Itb.live
  rw [bne_eq_false_iff_eq]

theorem live_eq_true : i.live (i.index cell).entry = true ↔
    (i.ite (i.index cell).entry).state ≠ ITE_UNLINKED := by
  unfold Itb.live
  rw [bne_iff_ne]

theorem live_congr_ite {after : Itb} (same : after.ite = i.ite) : after.live = i.live := by
  funext nr
  unfold Itb.live
  rw [same]

theorem entriesOn_cons (cells : List Nat) :
    i.entriesOn (cell :: cells) = (i.index cell).entry :: i.entriesOn cells := rfl

theorem entriesOn_append (front cells : List Nat) :
    i.entriesOn (front ++ cells) = i.entriesOn front ++ i.entriesOn cells := List.map_append

theorem deadOn_cons_dead (dead : i.live (i.index cell).entry = false) (cells : List Nat) :
    i.deadOn (cell :: cells) = i.deadOn cells + 1 := by
  unfold Itb.deadOn
  rw [entriesOn_cons, List.countP_cons_of_pos (by rw [dead]; rfl)]

theorem deadOn_cons_live (live : i.live (i.index cell).entry = true) (cells : List Nat) :
    i.deadOn (cell :: cells) = i.deadOn cells := by
  unfold Itb.deadOn
  rw [entriesOn_cons, List.countP_cons_of_neg (by rw [live]; decide)]

theorem filter_cons_dead (dead : i.live (i.index cell).entry = false) (cells : List Nat) :
    (i.entriesOn (cell :: cells)).filter i.live = (i.entriesOn cells).filter i.live := by
  rw [entriesOn_cons, List.filter_cons_of_neg (by rw [dead]; decide)]

theorem filter_cons_live (live : i.live (i.index cell).entry = true) (cells : List Nat) :
    (i.entriesOn (cell :: cells)).filter i.live =
      (i.index cell).entry :: (i.entriesOn cells).filter i.live := by
  rw [entriesOn_cons, List.filter_cons_of_pos live]

theorem unlinkBehind_ite (prev victim : Nat) : (unlinkBehind i prev victim).ite = i.ite := by
  unfold unlinkBehind
  split_ifs <;> rfl

/-- A cell that is taken off does not change what is read of the other cells. -/
theorem unlinkBehind_reads {prev victim : Nat} (different : prev ≠ victim) (cells : List Nat) :
    (unlinkBehind i prev victim).entriesOn cells = i.entriesOn cells ∧
      (unlinkBehind i prev victim).live = i.live ∧
      (unlinkBehind i prev victim).deadOn cells = i.deadOn cells := by
  have entries : (unlinkBehind i prev victim).entriesOn cells = i.entriesOn cells :=
    entriesOn_congr fun cell _ => unlinkBehind_entries different cell
  have live := live_congr_ite (unlinkBehind_ite (i := i) prev victim)
  refine ⟨entries, live, ?_⟩
  unfold Itb.deadOn
  rw [entries, live]

end Live

/-! ### The loop over one chain -/

section Loop

/-- Behind a head that stays, the loop takes off every UNLINKED entry and counts it once. -/
theorem asyncUnlinkLoop_behind {i : Itb} {chain : Nat → List Nat} {slot : Nat}
    (shape : Shape i chain) (fuel : Nat) (front : List Nat) {rest : List Nat} {prev offset : Nat}
    (cells : chain slot = front ++ prev :: offset :: rest) (enough : rest.length < fuel)
    (count : UnlinkCount) :
    ∃ after chainAfter,
      asyncUnlinkLoop slot fuel i offset prev false count =
        some (after, false, count.add (i.deadOn (offset :: rest))) ∧
      Trimmed i chain slot
        (i.entriesOn (front ++ [prev]) ++ (i.entriesOn (offset :: rest)).filter i.live)
        after chainAfter := by
  induction rest generalizing i chain fuel front prev offset count with
  | nil =>
    obtain ⟨fuel, rfl⟩ := Nat.exists_eq_succ_of_ne_zero (Nat.ne_of_gt enough)
    have shifted : chain slot = (front ++ [prev]) ++ [offset] := by
      rw [cells, List.append_cons]
    have unique := shape.chains.flag_of_last _ shifted
    have notFree : (i.index offset).flag ≠ .free := by
      rw [unique]
      decide
    rw [asyncUnlinkLoop, if_neg notFree]
    cases live : i.live (i.index offset).entry with
    | false =>
      rw [if_pos (live_eq_false.mp live), if_neg (shape.head_ne cells), if_pos unique,
        deadOn_cons_dead live, filter_cons_dead live]
      refine ⟨_, Function.update chain slot (front ++ [prev]), rfl, ?_⟩
      have trimmed := shape.unlinkBehind_trimmed cells
      rw [← List.append_nil (i.entriesOn _)] at trimmed
      exact trimmed
    | true =>
      rw [if_neg (live_eq_true.mp live), if_neg (by decide), if_pos unique, deadOn_cons_live live,
        filter_cons_live live]
      refine ⟨_, chain, rfl, ?_⟩
      have same := Trimmed.refl shape slot
      rw [shifted, entriesOn_append] at same
      exact same
  | cons follower rest inductionHypothesis =>
    obtain ⟨fuel, rfl⟩ := Nat.exists_eq_succ_of_ne_zero (Nat.ne_of_gt (Nat.zero_lt_of_lt enough))
    have fewer : rest.length < fuel := by
      simp only [List.length_cons] at enough
      omega
    have shifted : chain slot = (front ++ [prev]) ++ offset :: follower :: rest := by
      rw [cells, List.append_cons]
    obtain ⟨flag, next⟩ := shape.chains.flag_of_more _ shifted
    have notFree : (i.index offset).flag ≠ .free := by
      rw [flag]
      decide
    have notUnique : (i.index offset).flag ≠ .unique := by
      rw [flag]
      decide
    obtain ⟨_, _, low⟩ := shape.chains.conflict_lt _ shifted flag
    rw [asyncUnlinkLoop, if_neg notFree]
    cases live : i.live (i.index offset).entry with
    | false =>
      have trimmed := shape.unlinkBehind_trimmed cells
      have bypassed : Function.update chain slot (front ++ prev :: follower :: rest) slot =
          front ++ prev :: follower :: rest := Function.update_self _ _ _
      obtain ⟨after, chainAfter, result, later⟩ := inductionHypothesis trimmed.shape fuel front
        bypassed fewer count.bump
      have different := shape.prev_ne cells
      obtain ⟨entries, reads, dead⟩ := unlinkBehind_reads (i := i) different (follower :: rest)
      rw [dead, UnlinkCount.bump_add] at result
      rw [(unlinkBehind_reads different (front ++ [prev])).1, entries, reads] at later
      rw [if_pos (live_eq_false.mp live), if_neg (shape.head_ne cells), if_neg notUnique,
        if_pos low, next, result, deadOn_cons_dead live, filter_cons_dead live]
      exact ⟨after, chainAfter, rfl, trimmed.trans later⟩
    | true =>
      obtain ⟨after, chainAfter, result, later⟩ := inductionHypothesis shape fuel _ shifted fewer
        count
      rw [if_neg (live_eq_true.mp live), if_neg (by decide), if_neg notUnique, if_pos low, next,
        result, deadOn_cons_live live, filter_cons_live live]
      refine ⟨after, chainAfter, rfl, ?_⟩
      rw [entriesOn_append, List.append_assoc] at later
      exact later

/-- The first entry behind an UNLINKED head that is not UNLINKED: it takes the head's place, and the
head's old entry goes with the cell. -/
theorem asyncUnlinkLoop_swapped {i : Itb} {chain : Nat → List Nat} {slot : Nat}
    (shape : Shape i chain) (fuel : Nat) {rest : List Nat} {offset : Nat}
    (cells : chain slot = slot :: offset :: rest) (enough : rest.length + 1 < fuel)
    (headDead : i.live (i.index slot).entry = false)
    (live : i.live (i.index offset).entry = true) (count : UnlinkCount) :
    ∃ after chainAfter,
      asyncUnlinkLoop slot fuel i offset slot true count =
        some (after, false, count.add (i.deadOn (offset :: rest) + 1)) ∧
      Trimmed i chain slot ((i.entriesOn (offset :: rest)).filter i.live) after chainAfter := by
  obtain ⟨fuel, rfl⟩ := Nat.exists_eq_succ_of_ne_zero (Nat.ne_of_gt (Nat.zero_lt_of_lt enough))
  have member : offset ∈ chain slot := by
    rw [cells]
    exact List.mem_cons_of_mem _ List.mem_cons_self
  have swapped := shape.swapEntries_trimmed cells
  have entries := swapped.entries
  rw [cells, entriesOn_cons, entriesOn_cons] at entries
  obtain ⟨atSlot, entries⟩ := List.cons.inj entries
  obtain ⟨atOffset, behind⟩ := List.cons.inj entries
  have reads : (swapEntries i offset slot).live = i.live := rfl
  have pairs : chain slot = [] ++ slot :: offset :: rest := cells
  obtain ⟨after, chainAfter, result, trimmed⟩ :=
    asyncUnlinkLoop_behind swapped.shape fuel [] pairs (by omega) count
  have dead : (swapEntries i offset slot).live ((swapEntries i offset slot).index offset).entry =
      false := by
    rw [reads, atOffset]
    exact headDead
  have deadRest : (swapEntries i offset slot).deadOn rest = i.deadOn rest := by
    unfold Itb.deadOn
    rw [behind, reads]
  rw [deadOn_cons_dead dead, deadRest] at result
  rw [filter_cons_dead dead, behind, reads, List.nil_append, entriesOn_cons, atSlot] at trimmed
  rw [asyncUnlinkLoop, if_neg (shape.chains.used_ne_free member), if_neg (live_eq_true.mp live),
    if_pos rfl, result, deadOn_cons_live live, filter_cons_live live]
  exact ⟨after, chainAfter, rfl, swapped.trans trimmed⟩

/-- Behind an UNLINKED head the loop ends with the head's entry swapped away and taken off, which
counts it a second time, or with no other cell left. -/
theorem asyncUnlinkLoop_swap {i : Itb} {chain : Nat → List Nat} {slot : Nat}
    (shape : Shape i chain) (fuel : Nat) {rest : List Nat} {offset : Nat}
    (cells : chain slot = slot :: offset :: rest) (enough : rest.length + 1 < fuel)
    (headDead : i.live (i.index slot).entry = false) (count : UnlinkCount) :
    ((i.entriesOn (offset :: rest)).filter i.live = [] ∧ ∃ after chainAfter,
      asyncUnlinkLoop slot fuel i offset slot true count =
        some (after, true, count.add (i.deadOn (offset :: rest))) ∧
      chainAfter slot = [slot] ∧ Trimmed i chain slot [(i.index slot).entry] after chainAfter) ∨
    ((i.entriesOn (offset :: rest)).filter i.live ≠ [] ∧ ∃ after chainAfter,
      asyncUnlinkLoop slot fuel i offset slot true count =
        some (after, false, count.add (i.deadOn (offset :: rest) + 1)) ∧
      Trimmed i chain slot ((i.entriesOn (offset :: rest)).filter i.live) after chainAfter) := by
  induction rest generalizing i chain fuel offset count with
  | nil =>
    cases live : i.live (i.index offset).entry with
    | true =>
      right
      refine ⟨?_, asyncUnlinkLoop_swapped shape fuel cells enough headDead live count⟩
      rw [filter_cons_live live]
      exact List.cons_ne_nil _ _
    | false =>
      left
      obtain ⟨fuel, rfl⟩ := Nat.exists_eq_succ_of_ne_zero (Nat.ne_of_gt (Nat.zero_lt_of_lt enough))
      have pairs : chain slot = [] ++ slot :: offset :: [] := cells
      have unique := shape.chains.flag_of_last [slot] cells
      have notFree : (i.index offset).flag ≠ .free := by
        rw [unique]
        decide
      rw [asyncUnlinkLoop, if_neg notFree, if_pos (live_eq_false.mp live),
        if_neg (shape.head_ne pairs), if_pos unique, deadOn_cons_dead live, filter_cons_dead live]
      exact ⟨rfl, _, _, rfl, Function.update_self _ _ _, shape.unlinkBehind_trimmed pairs⟩
  | cons follower rest inductionHypothesis =>
    cases live : i.live (i.index offset).entry with
    | true =>
      right
      refine ⟨?_, asyncUnlinkLoop_swapped shape fuel cells enough headDead live count⟩
      rw [filter_cons_live live]
      exact List.cons_ne_nil _ _
    | false =>
      obtain ⟨fuel, rfl⟩ := Nat.exists_eq_succ_of_ne_zero (Nat.ne_of_gt (Nat.zero_lt_of_lt enough))
      have fewer : rest.length + 1 < fuel := by
        simp only [List.length_cons] at enough
        omega
      have pairs : chain slot = [] ++ slot :: offset :: follower :: rest := cells
      obtain ⟨flag, next⟩ := shape.chains.flag_of_more [slot] cells
      have notFree : (i.index offset).flag ≠ .free := by
        rw [flag]
        decide
      have notUnique : (i.index offset).flag ≠ .unique := by
        rw [flag]
        decide
      obtain ⟨_, _, low⟩ := shape.chains.conflict_lt [slot] cells flag
      have different := shape.prev_ne pairs
      have trimmed := shape.unlinkBehind_trimmed pairs
      obtain ⟨entries, reads, dead⟩ := unlinkBehind_reads (i := i) different (follower :: rest)
      have head : ((unlinkBehind i slot offset).index slot).entry = (i.index slot).entry :=
        unlinkBehind_entries different slot
      have later := inductionHypothesis trimmed.shape fuel (Function.update_self _ _ _) fewer
        (by rw [head, reads]; exact headDead) count.bump
      rw [entries, reads, dead, head, UnlinkCount.bump_add, UnlinkCount.bump_add] at later
      rw [asyncUnlinkLoop, if_neg notFree, if_pos (live_eq_false.mp live),
        if_neg (shape.head_ne pairs), if_neg notUnique, if_pos low, next, deadOn_cons_dead live,
        filter_cons_dead live]
      rcases later with ⟨none, after, chainAfter, result, sole, more⟩ |
        ⟨some, after, chainAfter, result, more⟩
      · exact Or.inl ⟨none, after, chainAfter, result, sole, trimmed.trans more⟩
      · exact Or.inr ⟨some, after, chainAfter, result, trimmed.trans more⟩

/-- One chain of a pass: its UNLINKED entries are taken off, the others stay in their order, and
the assertion on the head holds. -/
theorem asyncUnlinkChain_trimmed {i : Itb} {chain : Nat → List Nat} {slot : Nat}
    (shape : Shape i chain) (bound : slot < i.total) (notFree : (i.index slot).flag ≠ .free)
    (count : UnlinkCount) :
    ∃ after chainAfter,
      asyncUnlinkChain i slot count = some (after, count.add (i.bumpsOn (chain slot))) ∧
      Trimmed i chain slot ((i.entriesOn (chain slot)).filter i.live) after chainAfter := by
  unfold asyncUnlinkChain Itb.bumpsOn
  by_cases unique : (i.index slot).flag = .unique
  · have cells := shape.head_unique bound unique
    have single : i.swapsHead [slot] = false := Bool.and_false _
    rw [if_pos unique, cells, single]
    cases live : i.live (i.index slot).entry with
    | false =>
      rw [if_pos (live_eq_false.mp live), deadOn_cons_dead live, filter_cons_dead live]
      exact ⟨_, _, rfl, shape.iteUnlinkInternal_trimmed cells⟩
    | true =>
      rw [if_neg (live_eq_true.mp live), deadOn_cons_live live, filter_cons_live live]
      refine ⟨_, chain, rfl, ?_⟩
      have same := Trimmed.refl shape slot
      rw [cells] at same
      exact same
  rw [if_neg unique]
  obtain ⟨flag, rest, cells, low, different⟩ := shape.head_conflict bound notFree unique
  have length := shape.chains.length_le slot
  rw [cells] at length
  simp only [List.length_cons] at length
  obtain ⟨fuel, fuelEq⟩ : ∃ fuel, 4 * i.total = fuel + 1 := ⟨4 * i.total - 1, by omega⟩
  rw [fuelEq, asyncUnlinkLoop, if_neg notFree, cells]
  have swaps : i.swapsHead (slot :: (i.index slot).conflict :: rest) =
      (!i.live (i.index slot).entry &&
        (i.entriesOn ((i.index slot).conflict :: rest)).any i.live) := rfl
  cases live : i.live (i.index slot).entry with
  | true =>
    obtain ⟨after, chainAfter, result, trimmed⟩ :=
      asyncUnlinkLoop_behind shape fuel [] cells (by omega) count
    rw [if_neg (live_eq_true.mp live), if_neg (by decide), if_neg unique, if_pos low, result, swaps,
      live, deadOn_cons_live live, filter_cons_live live]
    exact ⟨after, chainAfter, rfl, trimmed⟩
  | false =>
    rw [if_pos (live_eq_false.mp live), if_pos rfl, if_pos low, swaps, live, deadOn_cons_dead live,
      filter_cons_dead live]
    rcases asyncUnlinkLoop_swap shape fuel cells (by omega) live count.bump with
      ⟨none, after, chainAfter, result, sole, trimmed⟩ | ⟨some, after, chainAfter, result, trimmed⟩
    · have unique := trimmed.shape.chains.flag_of_last [] sole
      have freed := trimmed.shape.iteUnlinkInternal_trimmed sole
      have dead : (i.entriesOn ((i.index slot).conflict :: rest)).any i.live = false := by
        rw [List.any_eq_false]
        exact List.filter_eq_nil_iff.mp none
      rw [result, dead, none, UnlinkCount.bump_add]
      refine ⟨_, _, ?_, trimmed.trans freed⟩
      simp only [if_true, freeHead, if_pos unique, Option.map_some]
      rfl
    · have lives : (i.entriesOn ((i.index slot).conflict :: rest)).any i.live = true := by
        rw [List.any_eq_true]
        obtain ⟨nr, member⟩ := List.exists_mem_of_ne_nil _ some
        exact ⟨nr, List.mem_filter.mp member⟩
      rw [result, lives, UnlinkCount.bump_add]
      exact ⟨after, chainAfter, rfl, trimmed⟩

end Loop

/-! ### The pass over the heads -/

/-- What the chains of the heads from `start` to before `stop` add to the counters. -/
def Itb.bumpsFrom (i : Itb) (chain : Nat → List Nat) (start stop : Nat) : Nat :=
  ∑ slot ∈ Finset.Ico start stop, i.bumpsOn (chain slot)

/-- The chains of the heads from `start` to before `stop` have lost exactly their UNLINKED entries,
and nothing else has changed in the index. -/
structure Cleared (i : Itb) (chain : Nat → List Nat) (start stop : Nat) (after : Itb)
    (chainAfter : Nat → List Nat) : Prop where
  shape : Shape after chainAfter
  adepth : after.adepth = i.adepth
  ite : after.ite = i.ite
  unlink : after.unlink = i.unlink
  cleared : ∀ slot, start ≤ slot → slot < stop →
    after.entriesOn (chainAfter slot) = (i.entriesOn (chain slot)).filter i.live
  chains : ∀ slot, slot < start ∨ stop ≤ slot → chainAfter slot = chain slot
  cells : ∀ slot, slot < start ∨ stop ≤ slot → ∀ cell ∈ chain slot,
    after.index cell = i.index cell

section Heads

variable {i middle after : Itb} {chain chainMiddle chainAfter : Nat → List Nat} {start stop : Nat}

theorem bumpsFrom_self (start : Nat) : i.bumpsFrom chain start start = 0 := by
  unfold Itb.bumpsFrom
  rw [Finset.Ico_self, Finset.sum_empty]

theorem bumpsFrom_first (before : start < stop) :
    i.bumpsFrom chain start stop =
      i.bumpsOn (chain start) + i.bumpsFrom chain (start + 1) stop :=
  Finset.sum_eq_sum_Ico_succ_bot before _

theorem bumpsFrom_next (start : Nat) :
    i.bumpsFrom chain start (start + 1) = i.bumpsOn (chain start) := by
  rw [bumpsFrom_first (Nat.lt_succ_self start), bumpsFrom_self, Nat.add_zero]

theorem bumpsOn_nil : i.bumpsOn [] = 0 := rfl

namespace Cleared

theorem refl (shape : Shape i chain) (start : Nat) : Cleared i chain start start i chain where
  shape := shape
  adepth := rfl
  ite := rfl
  unlink := rfl
  cleared _ low high := absurd low (Nat.not_le.mpr high)
  chains _ _ := rfl
  cells _ _ _ _ := rfl

theorem total (cleared : Cleared i chain start stop after chainAfter) : after.total = i.total := by
  unfold Itb.total
  rw [cleared.adepth]

/-- One chain that is cleared. -/
theorem ofTrimmed (shape : Shape i chain)
    (trimmed : Trimmed i chain start ((i.entriesOn (chain start)).filter i.live) after chainAfter) :
    Cleared i chain start (start + 1) after chainAfter where
  shape := trimmed.shape
  adepth := trimmed.adepth
  ite := trimmed.ite
  unlink := trimmed.unlink
  cleared slot low high := by
    obtain rfl : slot = start := Nat.le_antisymm (Nat.le_of_lt_succ high) low
    exact trimmed.entries
  chains slot outside := trimmed.chains slot (by omega)
  cells slot outside cell member := trimmed.cells cell fun here => by
    have same := shape.chains.disjoint slot start cell member here
    omega

/-- A head without a chain. -/
theorem free (shape : Shape i chain) (empty : chain start = []) :
    Cleared i chain start (start + 1) i chain := by
  refine ofTrimmed shape ?_
  have same := Trimmed.refl shape start
  rw [empty] at same ⊢
  exact same

/-- What is read of a chain that is still ahead. -/
theorem entriesOn_ahead (cleared : Cleared i chain start stop after chainAfter) {slot : Nat}
    (ahead : slot < start ∨ stop ≤ slot) :
    after.entriesOn (chainAfter slot) = i.entriesOn (chain slot) := by
  rw [cleared.chains slot ahead]
  exact entriesOn_congr fun cell member => by rw [cleared.cells slot ahead cell member]

theorem bumpsOn_ahead (cleared : Cleared i chain start stop after chainAfter) {slot : Nat}
    (ahead : slot < start ∨ stop ≤ slot) :
    after.bumpsOn (chainAfter slot) = i.bumpsOn (chain slot) := by
  unfold Itb.bumpsOn Itb.deadOn Itb.swapsHead
  rw [cleared.entriesOn_ahead ahead, live_congr_ite cleared.ite]

theorem bumpsFrom_ahead (cleared : Cleared i chain start stop after chainAfter) (last : Nat) :
    after.bumpsFrom chainAfter stop last = i.bumpsFrom chain stop last :=
  Finset.sum_congr rfl fun _ member =>
    cleared.bumpsOn_ahead (Or.inr (Finset.mem_Ico.mp member).1)

/-- Some heads and the heads behind them. -/
theorem trans (first : Cleared i chain start stop middle chainMiddle) {last : Nat}
    (order : start ≤ stop ∧ stop ≤ last)
    (second : Cleared middle chainMiddle stop last after chainAfter) :
    Cleared i chain start last after chainAfter where
  shape := second.shape
  adepth := second.adepth.trans first.adepth
  ite := second.ite.trans first.ite
  unlink := second.unlink.trans first.unlink
  cleared slot low high := by
    rcases Nat.lt_or_ge slot stop with before | behind
    · rw [second.entriesOn_ahead (Or.inl before)]
      exact first.cleared slot low before
    · rw [second.cleared slot behind high, first.entriesOn_ahead (Or.inr behind),
        live_congr_ite first.ite]
  chains slot outside := by
    rw [second.chains slot (by omega), first.chains slot (by omega)]
  cells slot outside cell member := by
    rw [second.cells slot (by omega) cell (by rw [first.chains slot (by omega)]; exact member),
      first.cells slot (by omega) cell member]

end Cleared

/-- Where the loop over the heads from `start` on ends: the chains before `stop` are cleared and
counted; with heads left it ends only at a head that has a chain, and there at the limit. -/
structure PassEnds (limit : Nat) (i : Itb) (chain : Nat → List Nat) (start : Nat)
    (count : UnlinkCount) (stop : Nat) (after : Itb) (chainAfter : Nat → List Nat) : Prop where
  low : start ≤ stop
  high : stop ≤ i.total
  cleared : Cleared i chain start stop after chainAfter
  /-- Behind every head but the last one the limit is not reached. -/
  going : ∀ slot, start ≤ slot → slot + 1 < stop → (i.index slot).flag ≠ .free →
    count.dc + i.bumpsFrom chain start (slot + 1) < limit
  stopped : stop < i.total → ∃ last, stop = last + 1 ∧ start ≤ last ∧ (i.index last).flag ≠ .free ∧
    limit ≤ count.dc + i.bumpsFrom chain start stop

/-- The pass over the last heads of a block. -/
theorem asyncUnlinkHeads_ends (shape : Shape i chain) (limit left : Nat) (within : left ≤ i.total)
    (count : UnlinkCount) :
    ∃ stop after chainAfter,
      asyncUnlinkHeads limit left i count =
        some (after, count.add (i.bumpsFrom chain (i.total - left) stop)) ∧
      PassEnds limit i chain (i.total - left) count stop after chainAfter := by
  induction left generalizing i chain count with
  | zero =>
    refine ⟨i.total, i, chain, ?_, Nat.sub_le _ _, Nat.le_refl _, .refl shape _, ?_, ?_⟩
    · rw [Nat.sub_zero, bumpsFrom_self]
      rfl
    · intro slot low high
      omega
    · exact fun less => absurd less (Nat.lt_irrefl _)
  | succ left inductionHypothesis =>
    obtain ⟨start, startEq⟩ : ∃ start, start = i.total - (left + 1) := ⟨_, rfl⟩
    have behind : i.total - left = start + 1 := by omega
    have bound : start < i.total := by omega
    unfold asyncUnlinkHeads
    rw [← startEq]
    by_cases free : (i.index start).flag = .free
    · obtain ⟨stop, after, chainAfter, result, ends⟩ :=
        inductionHypothesis shape (Nat.le_of_succ_le within) count
      have empty := shape.chains.empty start fun _ => free
      have passed := Cleared.free shape empty
      rw [behind] at result ends
      have first : ∀ last, start + 1 ≤ last →
          i.bumpsFrom chain start last = i.bumpsFrom chain (start + 1) last := by
        intro last order
        rw [bumpsFrom_first order, empty, bumpsOn_nil, Nat.zero_add]
      simp only [if_pos free]
      refine ⟨stop, after, chainAfter, ?_, Nat.le_of_succ_le ends.low, ends.high,
        passed.trans ⟨Nat.le_succ _, ends.low⟩ ends.cleared, ?_, ?_⟩
      · rw [result, first stop ends.low]
      · intro slot low high notFree
        have different : slot ≠ start := fun same => notFree (same ▸ free)
        rw [first (slot + 1) (by omega)]
        exact ends.going slot (by omega) high notFree
      · intro less
        obtain ⟨last, stopEq, low, notFree, reached⟩ := ends.stopped less
        rw [first stop ends.low]
        exact ⟨last, stopEq, Nat.le_of_succ_le low, notFree, reached⟩
    · obtain ⟨middle, chainMiddle, result, trimmed⟩ :=
        asyncUnlinkChain_trimmed shape bound free count
      have passed := Cleared.ofTrimmed shape trimmed
      simp only [if_neg free, result]
      by_cases enough : (count.add (i.bumpsOn (chain start))).dc ≥ limit
      · rw [if_pos enough]
        refine ⟨start + 1, middle, chainMiddle, ?_, Nat.le_succ _, bound, passed, ?_, ?_⟩
        · rw [bumpsFrom_next]
        · intro slot low high
          omega
        · intro _
          refine ⟨start, rfl, Nat.le_refl _, free, ?_⟩
          rw [bumpsFrom_next]
          exact enough
      · rw [if_neg enough]
        obtain ⟨stop, after, chainAfter, resultRest, ends⟩ :=
          inductionHypothesis passed.shape (by rw [passed.total]; omega)
            (count.add (i.bumpsOn (chain start)))
        rw [passed.total, behind] at resultRest ends
        have ahead : ∀ last, start + 1 ≤ last → i.bumpsFrom chain start last =
            i.bumpsOn (chain start) + middle.bumpsFrom chainMiddle (start + 1) last := by
          intro last order
          rw [bumpsFrom_first order, passed.bumpsFrom_ahead]
        have high := ends.high
        rw [passed.total] at high
        -- the cells of the heads that are still ahead are as they were
        have sameHead : ∀ slot, start + 1 ≤ slot → slot < i.total →
            ((middle.index slot).flag ≠ .free ↔ (i.index slot).flag ≠ .free) := by
          intro slot low inside
          have chains := passed.chains slot (Or.inr low)
          rw [← shape.chains.ne_nil_iff inside,
            ← passed.shape.chains.ne_nil_iff (by rw [passed.total]; exact inside), chains]
        refine ⟨stop, after, chainAfter, ?_, Nat.le_of_succ_le ends.low, high,
          passed.trans ⟨Nat.le_succ _, ends.low⟩ ends.cleared, ?_, ?_⟩
        · rw [resultRest, UnlinkCount.add_add, ahead stop ends.low]
        · intro slot low inside notFree
          rcases Nat.lt_or_ge start slot with later | first
          · have going := ends.going slot later inside
              ((sameHead slot later (by omega)).mpr notFree)
            rw [ahead (slot + 1) (by omega), ← Nat.add_assoc]
            exact going
          · obtain rfl : slot = start := Nat.le_antisymm first low
            rw [bumpsFrom_next]
            exact Nat.not_le.mp enough
        · intro less
          obtain ⟨last, stopEq, low, notFree, reached⟩ :=
            ends.stopped (by rw [passed.total]; exact less)
          refine ⟨last, stopEq, Nat.le_of_succ_le low,
            (sameHead last low (by omega)).mp notFree, ?_⟩
          rw [ahead stop ends.low, ← Nat.add_assoc]
          exact reached

/-- `async_unlink_ite` ends, and its assertion holds. -/
theorem asyncUnlinkIte_ends (shape : Shape i chain) (limit : Nat) (count : UnlinkCount) :
    ∃ stop after chainAfter,
      asyncUnlinkIte limit i count = some (after, count.add (i.bumpsFrom chain 0 stop)) ∧
      PassEnds limit i chain 0 count stop after chainAfter := by
  have ends := asyncUnlinkHeads_ends shape limit i.total (Nat.le_refl _) count
  rw [Nat.sub_self] at ends
  exact ends

end Heads

/-! ### What the pass leaves -/

/-- What an asynchronous pass leaves: no entry comes or moves between heads, and what goes was
UNLINKED. -/
structure Passed (i : Itb) (chain : Nat → List Nat) (after : Itb) (chainAfter : Nat → List Nat) :
    Prop where
  shape : Shape after chainAfter
  adepth : after.adepth = i.adepth
  ite : after.ite = i.ite
  unlink : after.unlink = i.unlink
  held : ∀ slot nr, Holds after chainAfter slot nr → Holds i chain slot nr
  kept : ∀ slot nr, Holds i chain slot nr → (i.ite nr).state ≠ ITE_UNLINKED →
    Holds after chainAfter slot nr

section Passes

variable {i after : Itb} {chain chainAfter : Nat → List Nat}

theorem Passed.total (passed : Passed i chain after chainAfter) : after.total = i.total := by
  unfold Itb.total
  rw [passed.adepth]

theorem Passed.entries_le (shape : Shape i chain) (passed : Passed i chain after chainAfter) :
    after.entries ≤ i.entries := by
  have fewer : after.held ⊆ i.held := by
    intro nr member
    obtain ⟨slot, holds⟩ := passed.shape.chains.mem_held.mp member
    exact shape.chains.mem_held.mpr ⟨slot, passed.held slot nr holds⟩
  have count := Finset.card_le_card fewer
  rw [shape.usage.entries, passed.shape.usage.entries, ← shape.usage.distinct,
    ← passed.shape.usage.distinct]
  exact_mod_cast count

theorem Cleared.holds {stop : Nat} (cleared : Cleared i chain 0 stop after chainAfter)
    (slot nr : Nat) :
    Holds after chainAfter slot nr ↔
      Holds i chain slot nr ∧ (slot < stop → (i.ite nr).state ≠ ITE_UNLINKED) := by
  rw [holds_iff_entriesOn, holds_iff_entriesOn]
  rcases Nat.lt_or_ge slot stop with before | behind
  · rw [cleared.cleared slot (Nat.zero_le _) before, List.mem_filter, Itb.live, bne_iff_ne]
    exact and_congr_right fun _ => ⟨fun live _ => live, fun live => live before⟩
  · rw [cleared.entriesOn_ahead (Or.inr behind)]
    exact (and_iff_left fun before => absurd before (Nat.not_lt.mpr behind)).symm

theorem Cleared.passed {stop : Nat} (cleared : Cleared i chain 0 stop after chainAfter) :
    Passed i chain after chainAfter where
  shape := cleared.shape
  adepth := cleared.adepth
  ite := cleared.ite
  unlink := cleared.unlink
  held slot nr holds := ((cleared.holds slot nr).mp holds).1
  kept slot nr holds live := (cleared.holds slot nr).mpr ⟨holds, fun _ => live⟩

/-- `async_unlink_ite` takes off UNLINKED entries only. -/
theorem asyncUnlinkIte_passed (shape : Shape i chain) (limit : Nat) (count : UnlinkCount) :
    ∃ after chainAfter countAfter, asyncUnlinkIte limit i count = some (after, countAfter) ∧
      Passed i chain after chainAfter := by
  obtain ⟨_, after, chainAfter, result, ends⟩ := asyncUnlinkIte_ends shape limit count
  exact ⟨after, chainAfter, _, result, ends.cleared.passed⟩

/-- What a pass has removed when it has been at the heads before `done`: the chains of these have
exactly the entries that were not UNLINKED, in their order, and the others are as they were. -/
structure RemovesUnlinked (limit : Nat) (i : Itb) (chain : Nat → List Nat) (done : Nat)
    (after : Itb) (chainAfter : Nat → List Nat) (countAfter : UnlinkCount) : Prop where
  shape : Shape after chainAfter
  ite : after.ite = i.ite
  cleared : ∀ slot < done,
    after.entriesOn (chainAfter slot) = (i.entriesOn (chain slot)).filter i.live
  chains : ∀ slot, done ≤ slot → chainAfter slot = chain slot
  cells : ∀ slot, done ≤ slot → ∀ cell ∈ chain slot, after.index cell = i.index cell
  /-- Exactly the bits of the removed entries are cleared. -/
  bitmap : ∀ nr, after.bitmap nr = true ↔ i.bitmap nr = true ∧
    ¬ ∃ slot < done, Holds i chain slot nr ∧ (i.ite nr).state = ITE_UNLINKED
  /-- Only at its limit does the pass leave heads out. -/
  limited : countAfter.dc < limit → done = i.total
  /-- Else no UNLINKED entry is left on any chain. -/
  noneLeft : countAfter.dc < limit → ∀ slot nr, Holds after chainAfter slot nr →
    (after.ite nr).state ≠ ITE_UNLINKED

/-- `async_unlink_ite` of any block ends, with its assertion, and removes exactly the UNLINKED
entries of the chains that it reaches. -/
theorem async_unlink_ite_removes (shape : Shape i chain) (limit : Nat) (count : UnlinkCount) :
    ∃ done ≤ i.total, ∃ after chainAfter countAfter,
      asyncUnlinkIte limit i count = some (after, countAfter) ∧
      RemovesUnlinked limit i chain done after chainAfter countAfter := by
  obtain ⟨done, after, chainAfter, result, ends⟩ := asyncUnlinkIte_ends shape limit count
  have holds := ends.cleared.holds
  have limited : (count.add (i.bumpsFrom chain 0 done)).dc < limit → done = i.total := by
    intro below
    refine (Nat.lt_or_eq_of_le ends.high).resolve_left fun less => ?_
    obtain ⟨_, _, _, _, reached⟩ := ends.stopped less
    exact absurd below (Nat.not_lt.mpr reached)
  refine ⟨done, ends.high, after, chainAfter, _, result, ends.cleared.shape, ends.cleared.ite,
    fun slot => ends.cleared.cleared slot (Nat.zero_le _),
    fun slot behind => ends.cleared.chains slot (Or.inr behind),
    fun slot behind => ends.cleared.cells slot (Or.inr behind), ?_, limited, ?_⟩
  · intro nr
    rw [ends.cleared.shape.usage.bits, shape.usage.bits, ends.cleared.shape.chains.mem_held,
      shape.chains.mem_held]
    constructor
    · rintro ⟨slot, there⟩
      obtain ⟨before, live⟩ := (holds slot nr).mp there
      refine ⟨⟨slot, before⟩, ?_⟩
      rintro ⟨other, inside, here, dead⟩
      exact live (shape.holds_slot before here ▸ inside) dead
    · rintro ⟨⟨slot, before⟩, stays⟩
      exact ⟨slot, (holds slot nr).mpr
        ⟨before, fun inside dead => stays ⟨slot, inside, before, dead⟩⟩⟩
  · intro below slot nr there
    obtain ⟨before, live⟩ := (holds slot nr).mp there
    obtain ⟨cell, member, _⟩ := before
    rw [ends.cleared.ite]
    refine live ?_
    rw [limited below]
    exact (shape.chains.head_of_mem member).1

end Passes

/-- The entry at the head of a chain is unlinked, the one behind it is not. -/
def unlinkedHeadBlock : Itb := collidingBlock.setIte 0 (iteUnlinkNormal (collidingBlock.ite 0))

theorem unlinkedHeadBlock_shape : ∃ chain, Shape unlinkedHeadBlock chain := by
  obtain ⟨chain, shape⟩ := collidingBlock_shape
  exact ⟨chain, shape.setIte 0 _⟩

/-- A pass over this block. -/
theorem async_unlink_ite_removes_head : ∃ chain, ∃ done ≤ unlinkedHeadBlock.total,
    ∃ after chainAfter countAfter,
      asyncUnlinkIte 4 unlinkedHeadBlock ⟨0, 0⟩ = some (after, countAfter) ∧
      RemovesUnlinked 4 unlinkedHeadBlock chain done after chainAfter countAfter := by
  obtain ⟨chain, shape⟩ := unlinkedHeadBlock_shape
  exact ⟨chain, async_unlink_ite_removes shape 4 ⟨0, 0⟩⟩

end Hvfs
