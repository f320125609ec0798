/-
This file settles what the asynchronous unlink leaves for the transaction
groups. The pass does not call `itb_dirty`, so a change of its own is written by
a TXG only if a request has brought the block to the dirty list of the open TXG
before.
-/

import Hvfs.ItbDirtied

namespace Hvfs

open Transition

/-! ### A pass that removes nothing -/

/-- No entry of the block is to be removed. -/
def NoneUnlinked (i : Itb) : Prop :=
  ∀ cell, (i.index cell).flag ≠ .free → (i.ite (i.index cell).entry).state ≠ ITE_UNLINKED

theorem asyncUnlinkLoop_none {i after : Itb} (none : NoneUnlinked i) {saved fuel offset prev : Nat}
    {needswap : Bool} {count countAfter : UnlinkCount}
    (loop : asyncUnlinkLoop saved fuel i offset prev false count =
      some (after, needswap, countAfter)) : after = i ∧ needswap = false := by
  induction fuel generalizing offset prev with
  | zero => cases loop
  | succ fuel inductionHypothesis =>
    unfold asyncUnlinkLoop at loop
    simp only at loop
    by_cases free : (i.index offset).flag = .free
    · rw [if_pos free] at loop
      cases loop
      exact ⟨rfl, rfl⟩
    · rw [if_neg free, if_neg (none offset free), if_neg Bool.false_ne_true] at loop
      split_ifs at loop
      · cases loop
        exact ⟨rfl, rfl⟩
      · exact inductionHypothesis loop
      · cases loop
        exact ⟨rfl, rfl⟩

theorem asyncUnlinkChain_none {i after : Itb} (none : NoneUnlinked i) {offset : Nat}
    {count countAfter : UnlinkCount} (used : (i.index offset).flag ≠ .free)
    (chain : asyncUnlinkChain i offset count = some (after, countAfter)) : after = i := by
  unfold asyncUnlinkChain at chain
  rw [if_neg (none offset used)] at chain
  split_ifs at chain
  · cases chain
    rfl
  · rcases loop : asyncUnlinkLoop offset (4 * i.total) i offset offset false count with
      _ | ⟨ended, needswap, counted⟩
    · rw [loop] at chain
      cases chain
    · rw [loop] at chain
      obtain ⟨rfl, rfl⟩ := asyncUnlinkLoop_none none loop
      cases chain
      rfl

theorem asyncUnlinkHeads_none {limit left : Nat} {i after : Itb} (none : NoneUnlinked i)
    {count countAfter : UnlinkCount}
    (heads : asyncUnlinkHeads limit left i count = some (after, countAfter)) : after = i := by
  induction left generalizing count with
  | zero =>
    cases heads
    rfl
  | succ left inductionHypothesis =>
    unfold asyncUnlinkHeads at heads
    simp only at heads
    by_cases free : (i.index (i.total - (left + 1))).flag = .free
    · rw [if_pos free] at heads
      exact inductionHypothesis heads
    · rw [if_neg free] at heads
      rcases chain : asyncUnlinkChain i (i.total - (left + 1)) count with _ | ⟨ended, counted⟩
      · rw [chain] at heads
        cases heads
      · rw [chain] at heads
        obtain rfl := asyncUnlinkChain_none none free chain
        simp only at heads
        split_ifs at heads
        · cases heads
          rfl
        · exact inductionHypothesis heads

/-! ### A pass in a run -/

section Pass

variable {Thread : Type} {c : ItbConfig} {s t : ItbServer Thread}

/-- The pass comes to a block with entries to remove only if `itb_dirty` has returned the block to
a request of the open TXG, and has put it on the dirty list if it is a copy. -/
def UnlinksDirtied (s : ItbServer Thread) (steps : Nat) : Prop :=
  ∀ x, s.unlink.next^[steps + 1] none = some x → (s.head x).state ≠ .cowed →
    ¬NoneUnlinked (s.block x) →
      (s.openTxg, x) ∈ s.dirtied ∧ ∀ thread, ¬(s.stage thread).HasWon x s.openTxg

/-- The block is written with the open TXG. -/
structure InOpenTxg (s : ItbServer Thread) (x : Nat) : Prop where
  dirty : (s.head x).state = .dirty
  txg : (s.head x).txg = s.openTxg
  listed : x ∈ s.dirtyList s.openTxg

/-- A block that `itb_dirty` has returned in the open TXG is written with it. -/
theorem Good.inOpenTxg (good : Good c s) {x : Nat} (dirtied : (s.openTxg, x) ∈ s.dirtied)
    (notWon : ∀ thread, ¬(s.stage thread).HasWon x s.openTxg) (ready : (s.head x).state ≠ .cowed) :
    InOpenTxg s x := by
  obtain ⟨place, sound⟩ := good.sound
  rcases good.recorded.listed s.openTxg x dirtied (Or.inl rfl) with member | ⟨thread, hasWon⟩
  · obtain ⟨-, -, txg, changed, -⟩ := (sound.blocks x).onList s.openTxg member
    refine ⟨?_, txg, member⟩
    rcases state : (s.head x).state with _ | _ | _
    · exact absurd state changed
    · rfl
    · exact absurd state ready
  · exact absurd hasWon (notWon thread)

variable [DecidableEq Thread] [Fintype Thread]

/-- A pass, in any state that a run reaches, changes only blocks that are written with the open
TXG, if `itb_dirty` has returned those with entries to remove to requests of the open TXG. -/
theorem pass_changes_in_open_txg {hmi : Hmi} {txg : Nat} {events : List (ServerEvent Thread)}
    (guarded : Guarded (serverStep c) (Unreused c) (ItbServer.init Thread hmi txg) events)
    (reached : run (serverStep c) (ItbServer.init Thread hmi txg) events = some s)
    {steps limit : Nat} {count : UnlinkCount} (dirtied : UnlinksDirtied s steps)
    (passed : serverStep c s (.reclaim steps limit count) = some t) (x : Nat)
    (changed : t.block x ≠ s.block x) : InOpenTxg t x := by
  have good : Good c s := guarded_invariant (Good c)
    (fun _ _ _ before unreused step => before.step unreused step)
    (ItbServer.init_good hmi txg) guarded reached
  cases moves_of_serverStep passed with
  | stays => exact absurd rfl changed
  | goesOn old new held => exact absurd rfl changed
  | visits comes visited => cases comes
  | @reclaims _ _ y _ result next ready removed =>
    have same : x = y := by
      by_contra apart
      exact changed (Function.update_of_ne apart _ _)
    rw [same] at changed ⊢
    have entries : ¬NoneUnlinked (s.block y) := by
      intro none
      refine changed ?_
      simp only [ItbServer.setBlock, Function.update_self]
      exact asyncUnlinkHeads_none none removed
    obtain ⟨member, notWon⟩ := dirtied y next ready entries
    obtain ⟨dirty, sameTxg, listed⟩ := good.inOpenTxg member notWon ready
    exact ⟨dirty, sameTxg, listed⟩

end Pass

/-- The asynchronous unlink comes to the first block of its list. -/
def firstPass : ServerEvent Unit := .reclaim 0 10 ⟨0, 0⟩

theorem pass_changes_in_open_txg_same :
    ∃ s t, run (serverStep smallConfig) (ItbServer.init Unit ⟨0, 0⟩ 1) unlinkRun = some s ∧
      serverStep smallConfig s firstPass = some t ∧ t.block 0 ≠ s.block 0 ∧ InOpenTxg t 0 := by
  have guarded : Guarded (serverStep smallConfig) (Unreused smallConfig)
      (ItbServer.init Unit ⟨0, 0⟩ 1) unlinkRun := by decide +kernel
  have ends : ((run (serverStep smallConfig) (ItbServer.init Unit ⟨0, 0⟩ 1) unlinkRun).bind
      fun s => (serverStep smallConfig s firstPass).map fun t => decide (s.openTxg = 1 ∧
        (1, 0) ∈ s.dirtied ∧ s.stage () = .returned 1 0 ∧ s.unlink.next none = some 0 ∧
        (s.block 0).entries = 1 ∧ (t.block 0).entries = 0)) = some true := by decide +kernel
  obtain ⟨s, reached, ends⟩ := Option.bind_eq_some_iff.mp ends
  obtain ⟨t, passed, same⟩ := Option.map_eq_some_iff.mp ends
  obtain ⟨openTxg, member, stage, next, before, after⟩ := of_decide_eq_true same
  have changed : t.block 0 ≠ s.block 0 := by
    intro block
    rw [block, before] at after
    cases after
  refine ⟨s, t, reached, passed, changed,
    pass_changes_in_open_txg guarded reached (fun x first _ _ => ?_) passed 0 changed⟩
  rw [Function.iterate_one, next] at first
  cases first
  refine ⟨by rwa [openTxg], fun thread hasWon => ?_⟩
  obtain ⟨request, isStage, -⟩ := hasWon
  rw [stage] at isStage
  cases isStage

/-- The TXG 1 is committed before the pass comes, which changes a CLEAN block. -/
theorem pass_changes_clean_block :
    ∃ s t, run (serverStep smallConfig) (ItbServer.init Unit ⟨0, 0⟩ 1)
        (unlinkRun ++ [.put (), .switch, .commitStart, .commitWalk, .commitEnd]) = some s ∧
      serverStep smallConfig s firstPass = some t ∧ t.block 0 ≠ s.block 0 ∧ ¬InOpenTxg t 0 := by
  have ends : ((run (serverStep smallConfig) (ItbServer.init Unit ⟨0, 0⟩ 1)
      (unlinkRun ++ [.put (), .switch, .commitStart, .commitWalk, .commitEnd])).bind
      fun s => (serverStep smallConfig s firstPass).map fun t =>
        ((t.head 0).state, (s.block 0).entries, (t.block 0).entries)) =
      some (.clean, 1, 0) := by decide +kernel
  obtain ⟨s, reached, ends⟩ := Option.bind_eq_some_iff.mp ends
  obtain ⟨t, passed, same⟩ := Option.map_eq_some_iff.mp ends
  simp only [Prod.mk.injEq] at same
  obtain ⟨clean, before, after⟩ := same
  refine ⟨s, t, reached, passed, fun block => ?_, fun written => ?_⟩
  · rw [block, before] at after
    cases after
  · rw [written.dirty] at clean
    cases clean

end Hvfs
