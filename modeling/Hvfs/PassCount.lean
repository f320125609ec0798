/-
This file determines when `async_unlink_ite` counts what it removes.

`h.entries` is the number of the cells on the chains, so it goes down by the
UNLINKED entries of the chains that the pass reaches. The counters go up once
more for every such chain that has an UNLINKED head and an entry that is not
UNLINKED.
-/

import Hvfs.ItbPass
import Mathlib.Algebra.BigOperators.Ring.Finset

namespace Hvfs

/-! ### The number of entries -/

section Entries

variable {i after : Itb} {chain chainAfter : Nat → List Nat}

theorem entriesOn_length (cells : List Nat) : (i.entriesOn cells).length = cells.length :=
  List.length_map _

/-- The cells in use are those of the chains. -/
theorem Shape.used_eq (shape : Shape i chain) :
    i.used = (Finset.range i.total).biUnion fun slot => (chain slot).toFinset := by
  ext cell
  rw [shape.chains.mem_used, Finset.mem_biUnion]
  constructor
  · rintro ⟨slot, member⟩
    exact ⟨slot, Finset.mem_range.mpr (shape.chains.head_of_mem member).1,
      List.mem_toFinset.mpr member⟩
  · rintro ⟨slot, _, member⟩
    exact ⟨slot, List.mem_toFinset.mp member⟩

theorem Shape.entries_eq (shape : Shape i chain) :
    i.entries = ∑ slot ∈ Finset.range i.total, ((i.entriesOn (chain slot)).length : Int) := by
  have disjoint : ∀ first ∈ Finset.range i.total, ∀ second ∈ Finset.range i.total,
      first ≠ second → Disjoint (chain first).toFinset (chain second).toFinset := by
    intro first _ second _ different
    rw [Finset.disjoint_left]
    intro cell here there
    exact different (shape.chains.disjoint first second cell (List.mem_toFinset.mp here)
      (List.mem_toFinset.mp there))
  rw [shape.usage.entries, shape.used_eq, Finset.card_biUnion disjoint, Nat.cast_sum]
  refine Finset.sum_congr rfl fun slot _ => ?_
  rw [List.toFinset_card_of_nodup (shape.chains.nodup slot), entriesOn_length]

/-- The UNLINKED entries of the chains of the heads from `start` to before `stop`. -/
def Itb.deadFrom (i : Itb) (chain : Nat → List Nat) (start stop : Nat) : Nat :=
  ∑ slot ∈ Finset.Ico start stop, i.deadOn (chain slot)

/-- The chains among them whose head is UNLINKED before an entry that is not. -/
def Itb.swapsFrom (i : Itb) (chain : Nat → List Nat) (start stop : Nat) : Nat :=
  ∑ slot ∈ Finset.Ico start stop, (i.swapsHead (chain slot)).toNat

theorem bumpsFrom_eq (start stop : Nat) :
    i.bumpsFrom chain start stop = i.deadFrom chain start stop + i.swapsFrom chain start stop :=
  Finset.sum_add_distrib

theorem swapsFrom_eq_zero {start stop : Nat} : i.swapsFrom chain start stop = 0 ↔
    ∀ slot, start ≤ slot → slot < stop → i.swapsHead (chain slot) = false := by
  unfold Itb.swapsFrom
  rw [Finset.sum_eq_zero_iff]
  constructor
  · intro none slot low high
    exact Bool.toNat_eq_zero.mp (none slot (Finset.mem_Ico.mpr ⟨low, high⟩))
  · intro none slot member
    obtain ⟨low, high⟩ := Finset.mem_Ico.mp member
    rw [none slot low high]
    rfl

/-- What a chain keeps and what it loses. -/
theorem length_filter_add_deadOn (cells : List Nat) :
    ((i.entriesOn cells).filter i.live).length + i.deadOn cells = (i.entriesOn cells).length := by
  unfold Itb.deadOn
  rw [List.countP_eq_length_filter, ← List.length_eq_length_filter_add]

/-- `h.entries` goes down by the UNLINKED entries of the chains that the pass has been at. -/
theorem Cleared.entries_eq {stop : Nat} (shape : Shape i chain) (high : stop ≤ i.total)
    (cleared : Cleared i chain 0 stop after chainAfter) :
    i.entries = after.entries + i.deadFrom chain 0 stop := by
  have split : ∀ slot ∈ Finset.range i.total,
      ((i.entriesOn (chain slot)).length : Int) =
        (after.entriesOn (chainAfter slot)).length +
          if slot < stop then (i.deadOn (chain slot) : Int) else 0 := by
    intro slot _
    split_ifs with before
    · rw [cleared.cleared slot (Nat.zero_le _) before, ← length_filter_add_deadOn, Nat.cast_add]
    · rw [cleared.entriesOn_ahead (Or.inr (Nat.not_lt.mp before)), add_zero]
  have reached : (Finset.range i.total).filter (· < stop) = Finset.Ico 0 stop := by
    ext slot
    rw [Finset.mem_filter, Finset.mem_range, Finset.mem_Ico]
    exact ⟨fun inside => ⟨Nat.zero_le _, inside.2⟩,
      fun inside => ⟨Nat.lt_of_lt_of_le inside.2 high, inside.2⟩⟩
  rw [shape.entries_eq, cleared.shape.entries_eq, cleared.total, Finset.sum_congr rfl split,
    Finset.sum_add_distrib, ← Finset.sum_filter, reached, Itb.deadFrom, Nat.cast_sum]

end Entries

/-! ### The counters -/

/-- Both counters have gone up by what `h.entries` has gone down by. -/
structure CountsRemoved (i : Itb) (count : UnlinkCount) (after : Itb) (countAfter : UnlinkCount) :
    Prop where
  dc : (countAfter.dc : Int) - count.dc = i.entries - after.entries
  prof : (countAfter.prof : Int) - count.prof = i.entries - after.entries

/-- Before every chain with an UNLINKED head and an entry that is not UNLINKED there is a head with
a chain where the limit is reached, so that the pass ends there. -/
def SwapsBehindLimit (limit : Nat) (i : Itb) (chain : Nat → List Nat)
    (count : UnlinkCount) : Prop :=
  ∀ slot < i.total, i.swapsHead (chain slot) = true →
    ∃ earlier < slot, (i.index earlier).flag ≠ .free ∧
      limit ≤ count.dc + i.deadFrom chain 0 (earlier + 1)

section Counts

variable {i after : Itb} {chain chainAfter : Nat → List Nat} {limit : Nat} {count : UnlinkCount}

/-- The counters are exact when no chain that the pass has been at swaps its head. -/
theorem countsRemoved_iff {stop : Nat} (shape : Shape i chain) (high : stop ≤ i.total)
    (cleared : Cleared i chain 0 stop after chainAfter) :
    CountsRemoved i count after (count.add (i.bumpsFrom chain 0 stop)) ↔
      i.swapsFrom chain 0 stop = 0 := by
  have entries := cleared.entries_eq shape high
  rw [bumpsFrom_eq]
  constructor
  · intro counts
    have dc := counts.dc
    rw [UnlinkCount.add_dc] at dc
    omega
  · intro none
    refine ⟨?_, ?_⟩
    · rw [UnlinkCount.add_dc]
      omega
    · rw [UnlinkCount.add_prof]
      omega

/-- The pass is at no chain that swaps its head exactly when the limit is reached before each. -/
theorem swapsFrom_iff {stop : Nat} (ends : PassEnds limit i chain 0 count stop after chainAfter) :
    i.swapsFrom chain 0 stop = 0 ↔ SwapsBehindLimit limit i chain count := by
  rw [swapsFrom_eq_zero]
  constructor
  · intro none slot inside swaps
    have behind : stop ≤ slot := by
      refine Nat.not_lt.mp fun before => ?_
      rw [none slot (Nat.zero_le _) before] at swaps
      cases swaps
    obtain ⟨last, rfl, _, notFree, reached⟩ := ends.stopped (Nat.lt_of_le_of_lt behind inside)
    refine ⟨last, behind, notFree, ?_⟩
    rw [bumpsFrom_eq, swapsFrom_eq_zero.mpr none] at reached
    exact reached
  · intro late slot _ before
    rw [← Bool.not_eq_true]
    intro swaps
    obtain ⟨earlier, order, notFree, reached⟩ :=
      late slot (Nat.lt_of_lt_of_le before ends.high) swaps
    have going := ends.going earlier (Nat.zero_le _) (Nat.lt_of_le_of_lt order before) notFree
    rw [bumpsFrom_eq] at going
    omega

/-- `async_unlink_ite` counts exactly what it removes if and only if it ends before the first chain
with an UNLINKED head and an entry that is not UNLINKED. -/
theorem async_unlink_ite_counts (shape : Shape i chain) (limit : Nat) (count : UnlinkCount) :
    (∃ after countAfter, asyncUnlinkIte limit i count = some (after, countAfter) ∧
      CountsRemoved i count after countAfter) ↔ SwapsBehindLimit limit i chain count := by
  obtain ⟨stop, after, chainAfter, result, ends⟩ := asyncUnlinkIte_ends shape limit count
  rw [← swapsFrom_iff ends, ← countsRemoved_iff shape ends.high ends.cleared, result]
  constructor
  · rintro ⟨_, _, same, counts⟩
    cases same
    exact counts
  · exact fun counts => ⟨after, _, rfl, counts⟩

end Counts

/-- A pass over a block whose only chain has an UNLINKED head and another entry. -/
theorem async_unlink_ite_counts_head : ∃ chain,
    ((∃ after countAfter, asyncUnlinkIte 4 unlinkedHeadBlock ⟨0, 0⟩ = some (after, countAfter) ∧
      CountsRemoved unlinkedHeadBlock ⟨0, 0⟩ after countAfter) ↔
      SwapsBehindLimit 4 unlinkedHeadBlock chain ⟨0, 0⟩) := by
  obtain ⟨chain, shape⟩ := unlinkedHeadBlock_shape
  exact ⟨chain, async_unlink_ite_counts shape 4 ⟨0, 0⟩⟩

/-- The pass removes one entry of this block and counts two. -/
theorem async_unlink_ite_miscounts : ¬ ∀ (i : Itb) (chain : Nat → List Nat) (limit : Nat)
    (count : UnlinkCount) (after : Itb) (countAfter : UnlinkCount), Shape i chain →
    asyncUnlinkIte limit i count = some (after, countAfter) →
    CountsRemoved i count after countAfter := by
  intro always
  obtain ⟨chain, shape⟩ := unlinkedHeadBlock_shape
  have one : unlinkedHeadBlock.entries = 2 ∧
      (asyncUnlinkIte 4 unlinkedHeadBlock ⟨0, 0⟩).map (fun result => result.1.entries) = some 1 ∧
      (asyncUnlinkIte 4 unlinkedHeadBlock ⟨0, 0⟩).map (fun result => result.2) = some ⟨2, 2⟩ := by
    decide
  obtain ⟨before, entries, counts⟩ := one
  obtain ⟨_, after, chainAfter, result, _⟩ := asyncUnlinkIte_ends shape 4 ⟨0, 0⟩
  have dc := (always _ _ _ _ _ _ shape result).dc
  rw [result, Option.map_some, Option.some_inj] at entries counts
  change after.entries = 1 at entries
  change UnlinkCount.add _ _ = _ at counts
  rw [counts, entries, before] at dc
  cases dc

end Hvfs
