/-
This file proves that threads that add entries to one block together do not get
into each other's way.

The invariant says what each thread relies on at its stage and counts what the
threads have between them. No thread can be without a bit or a cell: an entry is
counted before it gets either, and under a head in use there are more cells than
entries. The cell that a search is given stays free for other searches to see
until it is written; the cursor of the search keeps it from being given twice.
-/

import Hvfs.ItbThreads

namespace Hvfs

open Threads Cursor

/-! ### What threads have -/

/-- The bit that the thread has set for an entry that is on no chain yet. -/
def AddStage.bit : AddStage → Option Nat
  | .took _ nr | .head _ nr _ | .seek _ nr _ _ _ | .link _ nr _ _ => some nr
  | _ => none

/-- The entry that is the thread's own. -/
def AddStage.owns : AddStage → Option Nat
  | .took _ nr | .head _ nr _ | .seek _ nr _ _ _ | .link _ nr _ _ | .note _ nr _ | .fill _ nr _ =>
    some nr
  | _ => none

/-- The cell that the thread has been given. -/
def AddStage.cell : AddStage → Option Nat
  | .link _ _ _ f => some f
  | _ => none

/-- The entry that is on its chain and not noted in `max_offset` yet. -/
def AddStage.notes : AddStage → Option Nat
  | .note _ nr _ => some nr
  | _ => none

/-- The thread is counted in `entries`, and its entry is on no chain. -/
def AddStage.counts : AddStage → Bool
  | .full _ | .scan _ _ | .test _ _ | .noBit _ | .took _ _ | .head _ _ _ | .seek _ _ _ _ _
  | .link _ _ _ _ => true
  | _ => false

/-- It has been counted while there was room. -/
def AddStage.reserved : AddStage → Bool
  | .scan _ _ | .test _ _ | .noBit _ | .took _ _ | .head _ _ _ | .seek _ _ _ _ _
  | .link _ _ _ _ => true
  | _ => false

/-- It has been given a cell. -/
def AddStage.lends : AddStage → Bool
  | .link _ _ _ _ => true
  | _ => false

/-- Its entry is on a chain, and it has not returned. -/
def AddStage.hangs : AddStage → Bool
  | .note _ _ _ | .fill _ _ _ => true
  | _ => false

/-- Where the search for a free cell begins. -/
def Itb.cursor (i : Itb) : Nat := if i.inf ≥ i.total then 0 else i.inf

theorem Itb.cursor_lt (i : Itb) : i.cursor < i.total := by
  have := i.total_pos
  unfold Itb.cursor
  split_ifs <;> omega

/-- The entry as it was written first. -/
def Prepared (i : Itb) (hi : HvfsIndex) (nr : Nat) (ite : Ite) : Prop :=
  i.ite nr = ite ∧ ∃ hmi, ite = (newIte hmi hi).1

/-- The cells that a search has read are in use. -/
structure Sought (i : Itb) (left pos : Nat) : Prop where
  bound : pos < i.total
  left_le : left ≤ i.total
  passed : ∀ p < i.total, ahead i.total i.cursor p < i.total - left →
    (i.index (p + i.total)).flag ≠ .free
  here : left = 0 ∨ ahead i.total i.cursor pos = i.total - left

/-- What a thread relies on at its stage. -/
def AddServed (i : Itb) (chain : Nat → List Nat) : AddStage → Prop
  | .idle | .enter _ | .full _ | .took _ _ => True
  | .scan _ n => n ≤ i.total ∧ ∀ bit < n, i.bitmap bit = true
  | .test _ nr => nr < i.total
  | .noBit _ => False
  | .head hi nr ite => Prepared i hi nr ite
  | .seek hi nr ite left pos =>
    Prepared i hi nr ite ∧ (i.index (hashSlot i hi.hash)).flag ≠ .free ∧ Sought i left pos
  | .link hi nr ite f =>
    Prepared i hi nr ite ∧ (i.index (hashSlot i hi.hash)).flag ≠ .free ∧
      FreeCell i f
  | .note hi nr ite | .fill hi nr ite =>
    Prepared i hi nr ite ∧ Holds i chain (hashSlot i hi.hash) nr
  | .done _ err => err = 0 ∨ err = -ESPLIT

/-- A thread may rely on what it relied on. -/
theorem AddServed.frame {i after : Itb} {chain chainAfter : Nat → List Nat} {stage : AddStage}
    (served : AddServed i chain stage) (adepth : after.adepth = i.adepth)
    (bits : ∀ bit, i.bitmap bit = true → after.bitmap bit = true)
    (ite : ∀ nr, stage.owns = some nr → after.ite nr = i.ite nr)
    (used : ∀ cell < 2 * i.total, (i.index cell).flag ≠ .free → (after.index cell).flag ≠ .free)
    (cell : ∀ f < 2 * i.total, stage.cell = some f → (i.index f).flag = .free →
      (after.index f).flag = .free)
    (inf : stage.spins = some () → after.inf = i.inf)
    (holds : ∀ slot nr, Holds i chain slot nr → Holds after chainAfter slot nr) :
    AddServed after chainAfter stage := by
  have total : after.total = i.total := by
    unfold Itb.total
    rw [adepth]
  have head : ∀ hi : HvfsIndex, (i.index (hashSlot i hi.hash)).flag ≠ .free →
      (after.index (hashSlot after hi.hash)).flag ≠ .free := by
    intro hi inUse
    rw [hashSlot_congr adepth]
    refine used _ ?_ inUse
    have := hashSlot_lt i hi.hash
    omega
  have prepared : ∀ hi nr ite, stage.owns = some nr → Prepared i hi nr ite →
      Prepared after hi nr ite := by
    rintro hi nr written own ⟨same, fresh⟩
    exact ⟨(ite nr own).trans same, fresh⟩
  cases stage with
  | idle => trivial
  | enter hi => trivial
  | full hi => trivial
  | took hi nr => trivial
  | scan hi n => exact ⟨total ▸ served.1, fun bit below => bits bit (served.2 bit below)⟩
  | test hi nr => exact lt_of_lt_of_eq served total.symm
  | noBit hi => exact served
  | head hi nr written => exact prepared hi nr written rfl served
  | seek hi nr written left pos =>
    obtain ⟨mine, inUse, sought⟩ := served
    have cursor : after.cursor = i.cursor := by
      unfold Itb.cursor
      rw [inf rfl, total]
    refine ⟨prepared hi nr written rfl mine, head hi inUse, ?_, ?_, ?_, ?_⟩
    · rw [total]
      exact sought.bound
    · rw [total]
      exact sought.left_le
    · rw [total, cursor]
      exact fun p bound before => used _ (by omega) (sought.passed p bound before)
    · rw [total, cursor]
      exact sought.here
  | link hi nr written f =>
    obtain ⟨mine, inUse, free⟩ := served
    refine ⟨prepared hi nr written rfl mine, head hi inUse, ?_, ?_, ?_⟩
    · rw [total]
      exact free.low
    · rw [total]
      exact free.high
    · exact cell f free.high rfl free.free
  | note hi nr written =>
    refine ⟨prepared hi nr written rfl served.1, ?_⟩
    rw [hashSlot_congr adepth]
    exact holds _ _ served.2
  | fill hi nr written =>
    refine ⟨prepared hi nr written rfl served.1, ?_⟩
    rw [hashSlot_congr adepth]
    exact holds _ _ served.2
  | done hi err => exact served

/-! ### The invariant -/

section Invariant

variable {Thread : Type} [Fintype Thread]

/-- The counters of the block under the threads. -/
structure Tallied (s : AddSystem Thread) : Prop where
  entries : s.itb.entries = s.itb.used.card + countAt AddStage.counts s.stage
  room : s.itb.used.card + countAt AddStage.reserved s.stage ≤ s.itb.total
  itu : s.itb.itu = s.itb.spilled.card + countAt AddStage.lends s.stage
  pseudoConflicts : s.itb.pseudoConflicts = s.itb.spilled.card

/-- The bitmap and what it stands for. -/
structure Marked (s : AddSystem Thread) : Prop where
  bits : ∀ nr, s.itb.bitmap nr = true ↔ nr ∈ s.itb.held ∨ ∃ t, (s.stage t).bit = some nr
  apart : ∀ t nr, (s.stage t).bit = some nr → nr ∉ s.itb.held ∧ nr < s.itb.total
  bound : ∀ nr ∈ s.itb.held, nr < s.itb.total
  distinct : s.itb.held.card = s.itb.used.card

/-- `max_offset` and `len` under the threads. -/
structure Noted (s : AddSystem Thread) : Prop where
  maxOffset : ∀ nr ∈ s.itb.held, (nr : Int) ≤ s.itb.maxOffset ∨ ∃ t, (s.stage t).notes = some nr
  len : ((∀ nr ∈ s.itb.held, ∃ t, (s.stage t).notes = some nr) ∧ s.itb.maxOffset = 0) ∨
    sizeofItb s.itb.adepth + (s.itb.maxOffset + 1) * sizeofIte ≤ s.itb.len
  empty : s.itb.used = ∅ → s.itb.maxOffset = 0

/-- The additions that have returned, and the entries that were there before. -/
structure Returned (base : Itb) (baseChain : Nat → List Nat) (s : AddSystem Thread)
    (chain : Nat → List Nat) : Prop where
  adepth : s.itb.adepth = base.adepth
  added : ∀ a ∈ s.added, Holds s.itb chain (hashSlot s.itb a.hi.hash) a.nr ∧
    s.itb.ite a.nr = iteCreate a.hi a.ite ∧ (∃ hmi, a.ite = (newIte hmi a.hi).1) ∧
    ∀ t, (s.stage t).owns ≠ some a.nr
  nodup : (s.added.map AddedIte.nr).Nodup
  kept : ∀ slot nr, Holds base baseChain slot nr → Holds s.itb chain slot nr ∧
    s.itb.ite nr = base.ite nr ∧ (∀ t, (s.stage t).owns ≠ some nr) ∧
    nr ∉ s.added.map AddedIte.nr
  grown : s.itb.used.card = base.used.card + s.added.length + countAt AddStage.hangs s.stage

/-- The invariant of the threads. -/
structure Together (base : Itb) (baseChain : Nat → List Nat) (s : AddSystem Thread)
    (chain : Nat → List Nat) : Prop where
  chains : Chains s.itb chain
  marked : Marked s
  tallied : Tallied s
  noted : Noted s
  returned : Returned base baseChain s chain
  fresh : Fresh s.itb.total s.itb.cursor (fun p => (s.itb.index (p + s.itb.total)).flag = .free)
    fun p => ∃ t, (s.stage t).cell = some (p + s.itb.total)
  owners : Exclusive fun t => (s.stage t).owns
  cells : Exclusive fun t => (s.stage t).cell
  locks : Exclusive fun t => (s.stage t).lock s.itb
  spins : Exclusive fun t => (s.stage t).spins
  served : ∀ t, AddServed s.itb chain (s.stage t)

end Invariant

end Hvfs
