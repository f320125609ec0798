/-
This file proves that groups get through: the invariants of the groups hold
along every run, and from every state that a run reaches the commit threads alone
can finish the group in write-back once nobody holds a reference to it.
-/

import Hvfs.TxgPipeline

namespace Hvfs

open Transition Threads

section Drain

variable {ι κ : Type} [Fintype ι] {s next : WakeSystem ι κ} {interval : Nat}

/-- The invariants of the system with its semaphore and its clock. -/
structure Piped (interval : Nat) (s : WakeSystem ι κ) : Prop where
  kept : TxgKept s.base
  inTurn : InTurn s.base
  signalled : Signalled s
  paced : Paced interval s

variable [DecidableEq ι] [DecidableEq κ]

theorem InTurn.step {first after : TxgSystem ι κ} {event : TxgEvent ι κ} (inTurn : InTurn first)
    (kept : TxgKept first) (stepped : txgEvent first event = some after) : InTurn after := by
  rcases txgEvent_move stepped with ⟨i, move⟩ | move | ⟨c, move⟩
  · exact inTurn.of_thread move
  · exact inTurn.of_switch kept.switching move
  · exact inTurn.of_commit kept.claimed move

/-- An event of the groups. -/
theorem Piped.base_step (piped : Piped interval s) {event : TxgEvent ι κ}
    {base : TxgSystem ι κ} (ready : s.ready event = true)
    (stepped : txgEvent s.base event = some base) :
    Piped interval { s with
      base := base
      woken := s.reads event
      changer := s.changes event
      dirtying := s.dirties event
      openTime := s.opens event } := by
  obtain ⟨kept, inTurn, signalled, paced⟩ := piped
  have goes : (∃ memory, event = .switch memory) → s.base.switcher = .idle →
      s.changer = .goes := by
    rintro ⟨memory, rfl⟩ idle
    have either : s.changer = .goes ∨ s.changer = .switching := of_decide_eq_true ready
    exact either.resolve_right fun switching => signalled.changer.mp switching idle
  refine ⟨kept.step stepped, inTurn.step kept stepped, ?_,
    paced.of_base inTurn (fun both => goes both.2 both.1) ready stepped⟩
  rcases s.event_cases stepped with ⟨i, move, reads, changes, opens⟩ | ⟨memory, rfl, switched⟩ |
    ⟨c, rfl, committed⟩
  · rw [reads, changes, opens]
    exact signalled.of_thread move _
  · exact signalled.of_switch kept.switching (goes ⟨memory, rfl⟩) switched _
  · exact signalled.of_commit committed

omit [Fintype ι] [DecidableEq ι] [DecidableEq κ] in
/-- Outside `txg_switch` there is no step of it to make. -/
theorem Signalled.switcher_idle (signalled : Signalled s) (outside : s.changer ≠ .switching) :
    s.base.switcher = .idle := by
  by_contra inside
  exact outside (signalled.changer.mpr inside)

omit [Fintype ι] [DecidableEq ι] in
/-- A commit thread comes out of `sem_wait`. -/
theorem Signalled.wake (signalled : Signalled s) {c : κ} (sleeps : s.Sleeps c) (commitSem : Nat) :
    Signalled { s with commitSem, woken := Function.update s.woken c true } := by
  refine ⟨signalled.changer, signalled.free, signalled.started, fun d woken => ?_,
    fun t wb state => ?_⟩
  · by_cases here : d = c
    · rw [here]
      exact sleeps.1
    · have before := Function.update_of_ne here true s.woken
      exact signalled.woken d (before.symm.trans woken)
  · exact Or.inr (Or.inr ⟨c, Or.inl ⟨sleeps.1, Function.update_self _ _ _⟩⟩)

omit [Fintype ι] [DecidableEq κ] in
/-- A thread sets dirty the group to whose list it has added. -/
theorem Paced.setDirty (paced : Paced interval s) {i : ι} {t : Nat}
    (dirtying : s.dirtying i = some t) :
    Paced interval { s with
      dirty := Function.update s.dirty t true
      dirtying := Function.update s.dirtying i none } := by
  refine paced.same rfl rfl (Nat.le_refl _) paced.due fun u now => ?_
  show Function.update s.dirty t true u = true ∨
    ∃ j, Function.update s.dirtying i none j = some u
  by_cases here : u = t
  · exact Or.inl (by rw [here, Function.update_self])
  · rw [Function.update_of_ne here]
    refine (paced.noticed u now).imp_right ?_
    rintro ⟨j, other⟩
    refine ⟨j, ?_⟩
    have different : j ≠ i := by
      rintro rfl
      exact here (Option.some.inj (other.symm.trans dirtying))
    rw [Function.update_of_ne different]
    exact other

/-- Every event keeps the invariants. -/
theorem Piped.step (piped : Piped interval s) {event : WakeEvent ι κ}
    (stepped : wakeStep interval s event = some next) : Piped interval next := by
  cases event with
  | base event =>
    simp only [wakeStep] at stepped
    split_ifs at stepped with ready
    obtain ⟨base, moved, rfl⟩ := Option.map_eq_some_iff.mp stepped
    exact piped.base_step ready moved
  | setDirty i =>
    obtain ⟨kept, inTurn, signalled, paced⟩ := piped
    simp only [wakeStep] at stepped
    split at stepped
    · cases stepped
    · rename_i t dirtying
      obtain rfl := Option.some.inj stepped
      exact ⟨kept, inTurn, ⟨signalled.changer, signalled.free, signalled.started,
        signalled.woken, signalled.coming⟩, paced.setDirty dirtying⟩
  | changer =>
    obtain ⟨kept, inTurn, signalled, paced⟩ := piped
    simp only [wakeStep] at stepped
    split_ifs at stepped with idle due
    · obtain rfl := Option.some.inj stepped
      have switcher := signalled.switcher_idle (by rw [idle]; rintro ⟨⟩)
      refine ⟨kept, inTurn, ⟨iff_of_false (by rintro ⟨⟩) (not_not.mpr switcher),
        signalled.free, signalled.started, signalled.woken, fun t wb state => ?_⟩,
        paced.same rfl rfl (Nat.le_refl _) (fun _ => due.2.2) paced.noticed⟩
      refine Or.inr ((signalled.coming t wb state).resolve_left ?_)
      rw [idle]
      exact fun either => either.elim (by rintro ⟨⟩) (by rintro ⟨⟩)
    · obtain rfl := Option.some.inj stepped
      exact ⟨kept, inTurn, signalled, paced⟩
  | post =>
    obtain ⟨kept, inTurn, signalled, paced⟩ := piped
    simp only [wakeStep] at stepped
    split_ifs at stepped with post
    obtain rfl := Option.some.inj stepped
    have switcher := signalled.switcher_idle (by rw [post]; rintro ⟨⟩)
    refine ⟨kept, inTurn, ⟨iff_of_false (by rintro ⟨⟩) (not_not.mpr switcher), signalled.free,
      signalled.started, signalled.woken, fun _ _ _ => Or.inr (Or.inl (Nat.succ_pos _))⟩,
      paced.same rfl rfl (Nat.le_refl _) (fun either => ?_) paced.noticed⟩
    refine either.elim (by rintro ⟨⟩) fun alloc => ?_
    exact absurd (switcher.symm.trans alloc) (by rintro ⟨⟩)
  | wake c interrupted =>
    obtain ⟨kept, inTurn, signalled, paced⟩ := piped
    simp only [wakeStep] at stepped
    split_ifs at stepped with sleeps interrupted units
    · obtain rfl := Option.some.inj stepped
      exact ⟨kept, inTurn, signalled.wake sleeps _,
        paced.same rfl rfl (Nat.le_refl _) paced.due paced.noticed⟩
    · obtain rfl := Option.some.inj stepped
      exact ⟨kept, inTurn, signalled.wake sleeps _,
        paced.same rfl rfl (Nat.le_refl _) paced.due paced.noticed⟩
  | tick =>
    obtain ⟨kept, inTurn, signalled, paced⟩ := piped
    obtain rfl := Option.some.inj stepped
    exact ⟨kept, inTurn, ⟨signalled.changer, signalled.free, signalled.started, signalled.woken,
      signalled.coming⟩, paced.same rfl rfl (Nat.le_succ _) paced.due paced.noticed⟩

/-! ### The commit threads alone -/

/-- How far a commit thread is from `sem_wait`. -/
def CommitStage.rank : CommitStage → Nat
  | .idle => 0
  | .lock _ => 18
  | .test _ => 17
  | .mark _ => 16
  | .unlock _ _ => 15
  | .compare _ => 14
  | .wait _ => 13
  | .walk _ => 12
  | .clear _ => 11
  | .trigger _ => 10

/-- The ITBs that are on the dirty list of some group. -/
def TxgSystem.listed (s : TxgSystem ι κ) : Nat :=
  ∑ t ∈ Finset.range s.total, (s.txg t).dirtyList.length

omit [DecidableEq ι] in
/-- A step of a commit thread brings it closer to `sem_wait` or takes an ITB off a list. -/
theorem commitStep_lower {first after : TxgSystem ι κ} {c : κ} (kept : TxgKept first)
    (unused : ∀ t, first.wbTxg = some t → (first.txg t).txPending = 0)
    (busy : first.commit c ≠ .idle) (stepped : commitStep first c = some after) :
    (after.commit c).rank < (first.commit c).rank ∧ after.listed = first.listed ∨
      after.commit = first.commit ∧ after.listed < first.listed := by
  have lists : ∀ {next : TxgSystem ι κ} {u : Nat} {txg : SharedTxg κ},
      next.total = first.total → next.txg = Function.update first.txg u txg →
      txg.dirtyList = (first.txg u).dirtyList → next.listed = first.listed := by
    intro next u txg total written same
    unfold TxgSystem.listed
    rw [total, written]
    refine Finset.sum_congr rfl fun t _ => ?_
    exact congrArg List.length (setTxg_same SharedTxg.dirtyList same t)
  have moved : ∀ {next : TxgSystem ι κ} {old stage : CommitStage}, first.commit c = old →
      next.commit = Function.update first.commit c stage → stage.rank < old.rank →
      next.listed = first.listed →
      (next.commit c).rank < (first.commit c).rank ∧ next.listed = first.listed ∨
        next.commit = first.commit ∧ next.listed < first.listed := by
    intro next old stage at_ commit lower same
    refine Or.inl ⟨?_, same⟩
    rw [commit, Function.update_self, at_]
    exact lower
  have cleared : ∀ t, (first.commit c).clears = some t → first.wbTxg = some t :=
    kept.claimed.clears c
  unfold commitStep at stepped
  cases stage : first.commit c with
  | idle => exact absurd stage busy
  | lock t =>
    simp only [stage] at stepped
    split_ifs at stepped
    obtain rfl := Option.some.inj stepped
    exact stage ▸ moved stage rfl (by simp [CommitStage.rank]) (lists rfl rfl rfl)
  | test t =>
    simp only [stage] at stepped
    split_ifs at stepped
    · obtain rfl := Option.some.inj stepped
      exact stage ▸ moved stage rfl (by simp [CommitStage.rank]) rfl
    · obtain rfl := Option.some.inj stepped
      exact stage ▸ moved stage rfl (by simp [CommitStage.rank]) rfl
  | mark t =>
    simp only [stage] at stepped
    obtain rfl := Option.some.inj stepped
    exact stage ▸ moved stage rfl (by simp [CommitStage.rank]) (lists rfl rfl rfl)
  | unlock t goes =>
    simp only [stage] at stepped
    obtain rfl := Option.some.inj stepped
    refine stage ▸ moved stage rfl ?_ (lists rfl rfl rfl)
    cases goes
    · simp [CommitStage.rank]
    · simp [CommitStage.rank]
  | wait t =>
    have none := unused t (cleared t (by rw [stage]; rfl))
    simp only [stage, if_pos none] at stepped
    obtain rfl := Option.some.inj stepped
    exact stage ▸ moved stage rfl (by simp [CommitStage.rank]) rfl
  | compare t =>
    have wb := cleared t (by rw [stage]; rfl)
    simp only [stage, if_pos wb] at stepped
    obtain rfl := Option.some.inj stepped
    exact stage ▸ moved stage rfl (by simp [CommitStage.rank]) rfl
  | walk t =>
    simp only [stage] at stepped
    split at stepped
    · obtain rfl := Option.some.inj stepped
      exact stage ▸ moved stage rfl (by simp [CommitStage.rank]) rfl
    · rename_i x rest list
      obtain rfl := Option.some.inj stepped
      refine Or.inr ⟨rfl, ?_⟩
      have bound : t < first.total := kept.allocated.commit c t (by rw [stage]; rfl)
      refine Finset.sum_lt_sum (fun u _ => ?_) ⟨t, Finset.mem_range.mpr bound, ?_⟩
      · by_cases here : u = t
        · simp [TxgSystem.setTxg, here, list]
        · simp [TxgSystem.setTxg, here]
      · simp [TxgSystem.setTxg, list]
  | clear t =>
    simp only [stage] at stepped
    obtain rfl := Option.some.inj stepped
    exact stage ▸ moved stage rfl (by simp [CommitStage.rank]) rfl
  | trigger t =>
    simp only [stage] at stepped
    obtain rfl := Option.some.inj stepped
    exact stage ▸ moved stage rfl (by simp [CommitStage.rank]) rfl

omit [DecidableEq ι] [Fintype ι] in
/-- A commit thread at work, or one that it waits for, has a step. -/
theorem commitStep_some {first : TxgSystem ι κ} (inTurn : InTurn first) {c : κ}
    (busy : first.commit c ≠ .idle) :
    ∃ d after, first.commit d ≠ .idle ∧ commitStep first d = some after := by
  have unlocked : ∀ d, first.commit d ≠ .idle →
      (∀ t, first.commit d = .lock t → (first.txg t).owner = none) →
      ∃ d after, first.commit d ≠ .idle ∧ commitStep first d = some after := by
    intro d atWork free
    suffices enabled : ∃ after, commitStep first d = some after by
      obtain ⟨after, stepped⟩ := enabled
      exact ⟨d, after, atWork, stepped⟩
    unfold commitStep
    cases stage : first.commit d with
    | idle => exact absurd stage atWork
    | lock t =>
      simp only [if_pos (free t stage)]
      exact ⟨_, rfl⟩
    | test t =>
      dsimp only
      split_ifs
      · exact ⟨_, rfl⟩
      · exact ⟨_, rfl⟩
    | wait t =>
      dsimp only
      split_ifs
      · exact ⟨_, rfl⟩
      · exact ⟨_, rfl⟩
    | walk t =>
      dsimp only
      split
      · exact ⟨_, rfl⟩
      · exact ⟨_, rfl⟩
    | _ => exact ⟨_, rfl⟩
  by_cases free : ∀ t, first.commit c = .lock t → (first.txg t).owner = none
  · exact unlocked c busy free
  · -- the owner of the lock has a step
    push Not at free
    obtain ⟨t, _, owned⟩ := free
    obtain ⟨d, owner⟩ := Option.ne_none_iff_exists'.mp owned
    have locked := inTurn.owner t d owner
    refine unlocked d ?_ ?_
    · intro idle
      rw [idle] at locked
      cases locked
    · intro u lock
      rw [lock] at locked
      cases locked

/-- The event of a commit thread that no signal interrupts. -/
def WakeEvent.Commits : WakeEvent ι κ → Prop
  | .base (.commit _) | .wake _ false => True
  | _ => False

/-- Nothing is being switched, and nobody holds the group in write-back. -/
structure Draining (interval openTxg : Nat) (s : WakeSystem ι κ) : Prop where
  piped : Piped interval s
  changer : s.changer = .idle
  opened : s.base.openTxg = openTxg
  unused : ∀ t, s.base.wbTxg = some t → (s.base.txg t).txPending = 0

/-- The commit threads are in `sem_wait`, and there is no unit. -/
def WakeSystem.Quiet (s : WakeSystem ι κ) : Prop := (∀ c, s.Sleeps c) ∧ s.commitSem = 0

omit [DecidableEq ι] [DecidableEq κ] in
/-- Then nothing is in write-back, and everything before the open group has been written. -/
theorem Draining.quiet {openTxg : Nat} (draining : Draining interval openTxg s) (quiet : s.Quiet) :
    s.base.wbTxg = none ∧ s.base.walks = List.range openTxg := by
  obtain ⟨⟨_, inTurn, signalled, _⟩, changer, opened, _⟩ := draining
  have switcher := signalled.switcher_idle (by rw [changer]; rintro ⟨⟩)
  have gone : s.base.gone = openTxg := by
    rw [TxgSystem.gone, switcher, opened]
    rfl
  have free : s.base.wbTxg = none := by
    by_contra some
    obtain ⟨t, wb⟩ := Option.ne_none_iff_exists'.mp some
    cases state : (s.base.txg t).state with
    | opened =>
      have closing := signalled.started t wb state
      rw [switcher] at closing
      cases closing
    | wb =>
      rcases signalled.coming t wb state with (at_ | at_) | units | ⟨c, way⟩
      · rw [changer] at at_
        cases at_
      · rw [changer] at at_
        cases at_
      · exact Nat.ne_of_gt units quiet.2
      · obtain ⟨idle, asleep⟩ := quiet.1 c
        rcases way with ⟨_, awake⟩ | at_ | at_ | at_
        · exact absurd (awake.symm.trans asleep) (by decide)
        · exact absurd (idle.symm.trans at_) (by rintro ⟨⟩)
        · exact absurd (idle.symm.trans at_) (by rintro ⟨⟩)
        · exact absurd (idle.symm.trans at_) (by rintro ⟨⟩)
    | wbing =>
      obtain ⟨c, clears⟩ := inTurn.marked t wb state
      rw [(quiet.1 c).1] at clears
      cases clears
  refine ⟨free, ?_⟩
  rw [inTurn.walks, inTurn.free free, gone]

variable [Fintype κ]

/-- What the commit threads have still to do. -/
def WakeSystem.remaining (s : WakeSystem ι κ) : Nat :=
  30 * s.commitSem + ∑ c, ((s.base.commit c).rank + 20 * (s.woken c).toNat) + s.base.listed

/-- A commit thread at work goes on. -/
theorem Draining.commit {openTxg : Nat} (draining : Draining interval openTxg s) {c : κ}
    {base : TxgSystem ι κ} (busy : ¬s.Sleeps c) (stepped : commitStep s.base c = some base)
    (lower : (base.commit c).rank < (s.base.commit c).rank + 20 * (s.woken c).toNat ∧
        base.listed = s.base.listed ∨
      base.commit = s.base.commit ∧ base.listed < s.base.listed) :
    ∃ label next, WakeEvent.Commits label ∧ wakeStep interval s label = some next ∧
      Draining interval openTxg next ∧ next.remaining < s.remaining := by
  have ready : s.ready (.commit c) = true := decide_eq_true busy
  have frame := (commitStep_move stepped).frame
  have words := (commitStep_move stepped).words.1
  have moved : wakeStep interval s (.base (.commit c)) = some { s with
      base := base
      woken := s.reads (.commit c)
      changer := s.changes (.commit c)
      dirtying := s.dirties (.commit c)
      openTime := s.opens (.commit c) } := by
    simp only [wakeStep, if_pos ready, txgEvent, stepped, Option.map_some]
  refine ⟨.base (.commit c), _, trivial, moved, ⟨draining.piped.step moved, draining.changer,
    frame.openTxg.trans draining.opened, fun t wb => ?_⟩, ?_⟩
  · rw [show _ = (s.base.txg t).txPending from frame.txPending t]
    refine draining.unused t ?_
    rcases words with same | none
    · exact same.symm.trans wb
    · exact absurd (none.symm.trans wb) (by rintro ⟨⟩)
  · have others : ∀ d, d ≠ c →
        (base.commit d).rank + 20 * (Function.update s.woken c false d).toNat =
          (s.base.commit d).rank + 20 * (s.woken d).toNat := by
      intro d other
      rw [frame.others d other, Function.update_of_ne other]
    show 30 * s.commitSem +
        ∑ d, ((base.commit d).rank + 20 * (Function.update s.woken c false d).toNat) + base.listed <
      30 * s.commitSem + ∑ d, ((s.base.commit d).rank + 20 * (s.woken d).toNat) + s.base.listed
    rcases lower with ⟨rank, same⟩ | ⟨same, fewer⟩
    · have less : ∑ d, ((base.commit d).rank + 20 * (Function.update s.woken c false d).toNat) <
          ∑ d, ((s.base.commit d).rank + 20 * (s.woken d).toNat) := by
        refine Finset.sum_lt_sum (fun d _ => ?_) ⟨c, Finset.mem_univ c, ?_⟩
        · by_cases here : d = c
          · rw [here, Function.update_self]
            exact Nat.le_of_lt rank
          · exact (others d here).le
        · rw [Function.update_self]
          exact rank
      omega
    · have less : ∑ d, ((base.commit d).rank + 20 * (Function.update s.woken c false d).toNat) ≤
          ∑ d, ((s.base.commit d).rank + 20 * (s.woken d).toNat) := by
        refine Finset.sum_le_sum fun d _ => ?_
        by_cases here : d = c
        · rw [here, Function.update_self, same]
          exact Nat.le_add_right _ _
        · exact (others d here).le
      omega

omit [DecidableEq ι] [Fintype ι] [Fintype κ] in
/-- A commit thread that has come out of `sem_wait` reads the write-back pointer. -/
theorem commitStep_awake {c : κ} (idle : s.base.commit c = .idle) :
    ∃ base, commitStep s.base c = some base ∧ (base.commit c).rank < 20 ∧
      base.listed = s.base.listed := by
  unfold commitStep
  rw [idle]
  cases wb : s.base.wbTxg with
  | none => exact ⟨_, rfl, by rw [idle]; simp [CommitStage.rank], rfl⟩
  | some t =>
    refine ⟨_, rfl, ?_, rfl⟩
    show (Function.update s.base.commit c (CommitStage.lock t) c).rank < 20
    rw [Function.update_self]
    simp [CommitStage.rank]

/-- While not all is quiet, a commit thread has a step. -/
theorem Draining.progress [Nonempty κ] {openTxg : Nat} (draining : Draining interval openTxg s)
    (busy : ¬s.Quiet) : ∃ label next, WakeEvent.Commits label ∧
      wakeStep interval s label = some next ∧ Draining interval openTxg next ∧
      next.remaining < s.remaining := by
  have inTurn := draining.piped.inTurn
  by_cases asleep : ∀ c, s.Sleeps c
  · -- a unit wakes some thread
    have units : 0 < s.commitSem := Nat.pos_of_ne_zero fun none => busy ⟨asleep, none⟩
    obtain ⟨c⟩ := ‹Nonempty κ›
    have moved : wakeStep interval s (.wake c false) = some { s with
        commitSem := s.commitSem - 1
        woken := Function.update s.woken c true } := by
      simp only [wakeStep, if_pos (asleep c), if_pos units, Bool.false_eq_true, if_false]
    refine ⟨.wake c false, _, trivial, moved, ⟨draining.piped.step moved, draining.changer,
      draining.opened, draining.unused⟩, ?_⟩
    have sum : ∑ d, ((s.base.commit d).rank + 20 * (Function.update s.woken c true d).toNat) ≤
        ∑ d, ((s.base.commit d).rank + 20 * (s.woken d).toNat) + 20 := by
      have parts : ∀ woken : κ → Bool, ∑ d, ((s.base.commit d).rank + 20 * (woken d).toNat) =
          ∑ d, (s.base.commit d).rank + 20 * countAt (fun awake : Bool => awake) woken := by
        intro woken
        rw [Finset.sum_add_distrib, ← Finset.mul_sum]
        rfl
      have counted := countAt_update (fun awake : Bool => awake) s.woken c true
      have one : Bool.toNat true = 1 := rfl
      rw [parts, parts]
      omega
    show 30 * (s.commitSem - 1) +
        ∑ d, ((s.base.commit d).rank + 20 * (Function.update s.woken c true d).toNat) +
          s.base.listed < 30 * s.commitSem +
        ∑ d, ((s.base.commit d).rank + 20 * (s.woken d).toNat) + s.base.listed
    omega
  · push Not at asleep
    obtain ⟨c, atWork⟩ := asleep
    by_cases idle : s.base.commit c = .idle
    · obtain ⟨base, stepped, rank, same⟩ := commitStep_awake idle
      have awake : s.woken c = true := by
        by_contra still
        exact atWork ⟨idle, Bool.eq_false_iff.mpr still⟩
      refine draining.commit atWork stepped (Or.inl ⟨?_, same⟩)
      rw [awake, idle]
      exact rank
    · obtain ⟨d, base, working, stepped⟩ := commitStep_some inTurn idle
      refine draining.commit (fun sleeps => working sleeps.1) stepped ?_
      refine (commitStep_lower draining.piped.kept draining.unused working stepped).imp_left ?_
      exact fun lower => ⟨Nat.lt_of_lt_of_le lower.1 (Nat.le_add_right _ _), lower.2⟩

/-! ### Runs -/

omit [DecidableEq ι] [DecidableEq κ] [Fintype κ] in
theorem init_piped : Piped interval (WakeSystem.init ι κ) where
  kept := ⟨init_allocated, init_counted, init_switching, init_claimed⟩
  inTurn :=
    { walks := rfl
      new := by rintro _ ⟨⟩
      total := fun _ => rfl
      free := fun _ => rfl
      wb := by rintro _ ⟨⟩
      owner := by rintro _ _ ⟨⟩
      marked := by rintro _ ⟨⟩ }
  signalled :=
    { changer := iff_of_false (by rintro ⟨⟩) (not_not.mpr rfl)
      free := fun _ => rfl
      started := by rintro _ ⟨⟩
      woken := by rintro _ ⟨⟩
      coming := by rintro _ ⟨⟩ }
  paced :=
    { pace := fun t more => absurd more (by simp [WakeSystem.init, TxgSystem.init])
      past := fun _ _ => Nat.le_refl _
      due := fun either => either.elim (by rintro ⟨⟩) (by rintro ⟨⟩)
      noticed := fun t more => absurd rfl more }

/-- What every run of the groups leads to. -/
structure PipelineServed (interval : Nat) (s : WakeSystem ι κ) : Prop where
  /-- The dirty lists are walked in the order of the groups. -/
  order : ∃ n, s.base.walks = List.range n
  /-- No group is left out. -/
  complete : ∀ t < s.base.openTxg, t ∈ s.base.walks ∨ s.base.wbTxg = some t
  /-- `ASSERT(hmo->txg[TXG_WB] == NULL)` holds. -/
  asserted : ∀ nt, s.base.switcher = .assertFree nt → s.base.wbTxg = none
  pace : ∀ t < s.base.openTxg, s.openTime t + interval ≤ s.openTime (t + 1)
  noticed : ∀ t, (s.base.txg t).dirtyList ≠ [] → s.dirty t = true ∨ ∃ i, s.dirtying i = some t
  /-- The commit threads alone can finish the group in write-back when nobody holds it. -/
  drained : s.changer = .idle → (∀ t, s.base.wbTxg = some t → (s.base.txg t).txPending = 0) →
    ∃ labels final, (∀ label ∈ labels, WakeEvent.Commits label) ∧
      run (wakeStep interval) s labels = some final ∧ final.base.wbTxg = none ∧
      final.base.walks = List.range s.base.openTxg

/-- Groups get through the pipeline of open and write-back, in every interleaving. -/
theorem txg_pipeline [Nonempty κ] (interval : Nat) (events : List (WakeEvent ι κ))
    (reached : run (wakeStep interval) (WakeSystem.init ι κ) events = some s) :
    PipelineServed interval s := by
  have piped : Piped interval s :=
    run_invariant (Piped interval) (fun _ _ _ piped stepped => piped.step stepped) init_piped
      reached
  obtain ⟨kept, inTurn, signalled, paced⟩ := id piped
  refine ⟨⟨_, inTurn.walks⟩, fun t earlier => ?_,
    fun nt stage => signalled.free (Or.inr ⟨nt, stage⟩), fun t earlier => ?_, paced.noticed,
    fun changer unused => ?_⟩
  · rw [inTurn.walks, List.mem_range]
    have later : s.base.openTxg ≤ s.base.gone := Nat.le_add_right _ _
    cases wb : s.base.wbTxg with
    | none =>
      have := inTurn.free wb
      left
      omega
    | some u =>
      obtain ⟨last, walked⟩ := inTurn.wb u wb
      by_cases here : t = u
      · exact Or.inr (by rw [here])
      · left
        omega
  · refine paced.pace t ?_
    have := kept.allocated.opened
    omega
  · obtain ⟨labels, final, commits, ran, draining, quiet⟩ :=
      exists_run_quiet WakeSystem.remaining
        (fun state draining busy => Draining.progress draining busy)
        (⟨piped, changer, rfl, unused⟩ : Draining interval s.base.openTxg s)
    obtain ⟨free, walks⟩ := draining.quiet quiet
    exact ⟨labels, final, commits, ran, free, walks⟩

end Drain

/-- A thread dirties group 0, the timer thread switches it away, and a signal wakes the commit
thread before the unit does. -/
def switchedAway : List (WakeEvent Unit Unit) :=
  [.base (.call ()), .base (.step ()), .base (.step ()), .base (.step ()),
    .base (.addItb () 0 7), .setDirty (), .base (.put () 0), .tick, .changer] ++
    List.replicate 11 (.base (.switch true)) ++ [.wake () true, .post]

theorem txg_pipeline_switched : ∃ s : WakeSystem Unit Unit,
    run (wakeStep 1) (WakeSystem.init Unit Unit) switchedAway = some s ∧
      s.base.wbTxg = some 0 ∧ s.commitSem = 1 ∧ PipelineServed 1 s :=
  ⟨_, rfl, rfl, rfl, txg_pipeline 1 switchedAway rfl⟩

end Hvfs
