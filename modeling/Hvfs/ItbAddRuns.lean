/-
This file proves what threads that add entries to one block together leave: no
entry and no cell is given twice, no entry that was there is lost, every
addition that succeeds hangs on the chain of its slot, and once no thread is at
work the block is as good as after the same additions one after another.
-/

import Hvfs.ItbAddHooks

namespace Hvfs

open Threads Cursor Transition

section Runs

variable {Thread : Type} [Fintype Thread] {base : Itb} {baseChain chain : Nat → List Nat}
  {s : AddSystem Thread}

theorem countAt_idle {kind : AddStage → Bool} {stage : Thread → AddStage}
    (idle : ∀ t, stage t = .idle) (no : kind .idle = false) : countAt kind stage = 0 := by
  unfold countAt
  refine Finset.sum_eq_zero fun t _ => ?_
  rw [idle t, no]
  rfl

/-- A block with its chains is good to begin with. -/
theorem Together.init (shape : Shape base baseChain) (hmi : Hmi) :
    Together base baseChain (AddSystem.init Thread base hmi) baseChain := by
  have none : ∀ kind : AddStage → Bool, kind .idle = false →
      countAt kind (AddSystem.init Thread base hmi).stage = 0 := fun kind no =>
    countAt_idle (fun _ => rfl) no
  obtain ⟨chains, usage⟩ := shape
  refine
    { chains := chains
      marked := ⟨fun nr => ?_, by rintro _ _ ⟨⟩, usage.bound, usage.distinct⟩
      tallied := ⟨?_, ?_, ?_, usage.pseudoConflicts⟩
      noted := ⟨fun nr inside => Or.inl (usage.maxOffset nr inside), ?_, usage.maxEmpty⟩
      returned := ⟨rfl, by rintro _ ⟨⟩, List.nodup_nil, fun slot nr holds => ?_, ?_⟩
      fresh := (Fresh.start _ _ _).mark (fun _ _ free => free) (by rintro _ ⟨_, ⟨⟩⟩)
        fun _ _ _ absurdity => absurdity.elim
      owners := by rintro _ _ _ _ ⟨⟩
      cells := by rintro _ _ _ _ ⟨⟩
      locks := by rintro _ _ _ _ ⟨⟩
      spins := by rintro _ _ _ _ ⟨⟩
      served := fun _ => trivial }
  · refine (usage.bits nr).trans (or_iff_left ?_).symm
    rintro ⟨_, ⟨⟩⟩
  · rw [none AddStage.counts rfl]
    exact usage.entries.trans (Int.add_zero _).symm
  · rw [none AddStage.reserved rfl]
    show base.used.card ≤ base.total
    rw [← usage.distinct]
    have below : base.held ⊆ Finset.range base.total := fun nr inside =>
      Finset.mem_range.mpr (usage.bound nr inside)
    have count := Finset.card_le_card below
    rwa [Finset.card_range] at count
  · rw [none AddStage.lends rfl]
    exact usage.itu.trans (Int.add_zero _).symm
  · rcases base.used.eq_empty_or_nonempty with empty | some
    · refine Or.inl ⟨fun nr inside => ?_, usage.maxEmpty empty⟩
      obtain ⟨cell, member, _⟩ := mem_held.mp inside
      rw [show (AddSystem.init Thread base hmi).itb.used = ∅ from empty] at member
      exact absurd member (Finset.notMem_empty cell)
    · exact Or.inr (usage.len some)
  · exact ⟨holds, rfl, by rintro _ ⟨⟩, List.not_mem_nil⟩
  · rw [none AddStage.hangs rfl]
    rfl

/-- What the invariant says when no thread is at work. -/
theorem Together.shape (good : Together base baseChain s chain) (idle : ∀ t, s.stage t = .idle) :
    Shape s.itb chain := by
  have none : ∀ kind : AddStage → Bool, kind .idle = false → countAt kind s.stage = 0 :=
    fun kind no => countAt_idle idle no
  have nobody : ∀ {Item : Type} (holds : AddStage → Option Item), holds .idle = Option.none →
      ∀ item, ¬∃ t, holds (s.stage t) = some item := by
    rintro _ holds no item ⟨t, has⟩
    rw [idle t, no] at has
    cases has
  refine ⟨good.chains, good.marked.bound, good.marked.distinct, fun nr => ?_, ?_, ?_,
    good.tallied.pseudoConflicts, fun nr inside => ?_, good.noted.empty, fun some => ?_⟩
  · exact (good.marked.bits nr).trans (or_iff_left (nobody AddStage.bit rfl nr))
  · have counted := good.tallied.entries
    rw [none AddStage.counts rfl] at counted
    exact counted.trans (Int.add_zero _)
  · have counted := good.tallied.itu
    rw [none AddStage.lends rfl] at counted
    exact counted.trans (Int.add_zero _)
  · exact (good.noted.maxOffset nr inside).resolve_right (nobody AddStage.notes rfl nr)
  · refine good.noted.len.resolve_left ?_
    rintro ⟨all, _⟩
    obtain ⟨cell, member⟩ := some
    have inside : (s.itb.index cell).entry ∈ s.itb.held := mem_held.mpr ⟨cell, member, rfl⟩
    exact nobody AddStage.notes rfl _ (all _ inside)

variable [DecidableEq Thread]

/-- A thread at work has a step unless another one holds `ilock`. -/
theorem addNext_some {thread : Thread} (busy : s.stage thread ≠ .idle)
    (free : ¬s.Spinning ∨ (s.stage thread).spins = some ()) :
    ∃ next, addNext s thread = some next := by
  cases at_ : s.stage thread with
  | idle => exact absurd at_ busy
  | enter hi =>
    simp only [addNext, at_]
    split_ifs <;> exact ⟨_, rfl⟩
  | scan hi n =>
    simp only [addNext, at_]
    split_ifs <;> exact ⟨_, rfl⟩
  | test hi nr =>
    simp only [addNext, at_]
    split_ifs <;> exact ⟨_, rfl⟩
  | head hi nr ite =>
    rw [at_] at free
    have unlocked := free.resolve_right (by rintro ⟨⟩)
    simp only [addNext, at_, if_neg unlocked]
    split <;> exact ⟨_, rfl⟩
  | seek hi nr ite left pos =>
    cases left with
    | zero =>
      simp only [addNext, at_]
      exact ⟨_, rfl⟩
    | succ left =>
      simp only [addNext, at_]
      split_ifs <;> exact ⟨_, rfl⟩
  | note hi nr ite =>
    rw [at_] at free
    have unlocked := free.resolve_right (by rintro ⟨⟩)
    simp only [addNext, at_, if_neg unlocked]
    exact ⟨_, rfl⟩
  | _ =>
    simp only [addNext, at_]
    exact ⟨_, rfl⟩

/-- While a thread is at work, some thread has a step. -/
theorem addThreadStep_progress {thread : Thread} (busy : s.stage thread ≠ .idle) :
    ∃ t next, addThreadStep s (t, .next) = some next := by
  by_cases spinning : s.Spinning
  · obtain ⟨t, spins⟩ := spinning
    refine ⟨t, addNext_some (fun idle => ?_) (Or.inr spins)⟩
    rw [idle] at spins
    cases spins
  · exact ⟨thread, addNext_some busy (Or.inl spinning)⟩

/-- What threads that add entries to a block together leave. -/
structure AddedTogether (base : Itb) (baseChain : Nat → List Nat) (s : AddSystem Thread)
    (chain : Nat → List Nat) : Prop where
  kept : ∀ slot nr, Holds base baseChain slot nr →
    Holds s.itb chain slot nr ∧ s.itb.ite nr = base.ite nr
  added : ∀ a ∈ s.added, Holds s.itb chain (hashSlot base a.hi.hash) a.nr ∧
    s.itb.ite a.nr = iteCreate a.hi a.ite ∧ ∃ hmi, a.ite = (newIte hmi a.hi).1
  distinct : (s.added.map AddedIte.nr).Nodup
  fresh : ∀ a ∈ s.added, ∀ slot, ¬Holds base baseChain slot a.nr
  answers : ∀ t hi err, s.stage t = .done hi err → err = 0 ∨ err = -ESPLIT
  cells : ∀ t hi nr ite f, s.stage t = .link hi nr ite f → FreeCell s.itb f
  apart : Exclusive fun t => (s.stage t).cell
  progress : (∃ t, s.stage t ≠ .idle) → ∃ t next, addThreadStep s (t, .next) = some next
  quiet : (∀ t, s.stage t = .idle) →
    Shape s.itb chain ∧ s.itb.entries = base.entries + s.added.length

theorem Together.together (good : Together base baseChain s chain) (shape : Shape base baseChain) :
    AddedTogether base baseChain s chain where
  kept slot nr before := by
    obtain ⟨there, written, _⟩ := good.returned.kept slot nr before
    exact ⟨there, written⟩
  added a member := by
    obtain ⟨there, written, prepared, _⟩ := good.returned.added a member
    rw [hashSlot_congr good.returned.adepth] at there
    exact ⟨there, written, prepared⟩
  distinct := good.returned.nodup
  fresh a member slot before :=
    (good.returned.kept slot a.nr before).2.2.2 (List.mem_map_of_mem member)
  answers t hi err at_ := by
    have served := good.served t
    rw [at_] at served
    exact served
  cells t hi nr ite f at_ := good.free_of_cell (by rw [at_]; rfl)
  apart := good.cells
  progress := fun ⟨_, busy⟩ => addThreadStep_progress busy
  quiet idle := by
    have quiet := good.shape idle
    have grown := good.returned.grown
    have entries := quiet.usage.entries
    have before := shape.usage.entries
    rw [countAt_idle idle rfl] at grown
    exact ⟨quiet, by omega⟩

/-- Threads that add entries to one block together, in any order of their steps. -/
theorem itb_threads_add_together (shape : Shape base baseChain) (hmi : Hmi)
    (moves : List (Thread × AddAction))
    (ran : run addThreadStep (AddSystem.init Thread base hmi) moves = some s) :
    ∃ chain, AddedTogether base baseChain s chain := by
  obtain ⟨chain, good⟩ := run_invariant
    (fun s => ∃ chain, Together base baseChain s chain)
    (fun state move next ⟨_, good⟩ stepped => good.step move next stepped)
    ⟨baseChain, Together.init shape hmi⟩ ran
  exact ⟨chain, good.together shape⟩

/-- Two threads find the same clear bit, and the one that is late searches again. -/
def addsRacing : List (Bool × AddAction) :=
  [(false, .begin (collidingIndex INDEX_CREATE 0 97) (by decide)),
    (true, .begin (collidingIndex INDEX_CREATE 16 98) (by decide)), (false, .next), (true, .next),
    (false, .next), (true, .next), (false, .next), (true, .next), (true, .next), (true, .next),
    (true, .next), (false, .next), (true, .next), (false, .next), (true, .next), (true, .next),
    (true, .next), (true, .next), (false, .next), (false, .next), (false, .next)]

theorem itb_threads_add_together_racing : ∃ s chain,
    run addThreadStep (AddSystem.init Bool (emptyItb 5) ⟨0, 0⟩) addsRacing = some s ∧
      s.added.map AddedIte.nr = [1, 0] ∧ AddedTogether (emptyItb 5) (fun _ => []) s chain := by
  obtain ⟨s, ran, added⟩ : ∃ s,
      run addThreadStep (AddSystem.init Bool (emptyItb 5) ⟨0, 0⟩) addsRacing = some s ∧
        s.added.map AddedIte.nr = [1, 0] := ⟨_, rfl, rfl⟩
  obtain ⟨chain, together⟩ :=
    itb_threads_add_together (emptyItb_shape 5) ⟨0, 0⟩ addsRacing ran
  exact ⟨s, chain, ran, added, together⟩

end Runs

end Hvfs
