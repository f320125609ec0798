/-
This file proves that groups come into write-back one after another: the dirty
lists are walked in the order of the groups, each once, and none is left out.
-/

import Hvfs.TxgWakes
import Hvfs.Library.Threads

namespace Hvfs

open Transition Threads

section Order

variable {ι κ : Type}

/-- The groups that `txg_switch` has put into write-back are those before this one. -/
def TxgSystem.gone (s : TxgSystem ι κ) : Nat :=
  s.openTxg + (s.switcher.closing || s.switcher.closed).toNat

/-- The order of the groups, and who has a group in write-back. -/
structure InTurn (s : TxgSystem ι κ) : Prop where
  walks : s.walks = List.range s.walks.length
  new : ∀ nt, s.switcher.new = some nt → nt = s.openTxg + 1 ∧ s.total = nt + 1
  total : s.switcher.new = none → s.total = s.openTxg + 1
  free : s.wbTxg = none → s.walks.length = s.gone
  wb : ∀ t, s.wbTxg = some t →
    t + 1 = s.gone ∧ (s.walks.length = t ∨ s.walks.length = t + 1)
  owner : ∀ t c, (s.txg t).owner = some c → (s.commit c).locked = some t
  marked : ∀ t, s.wbTxg = some t → (s.txg t).state = .wbing → ∃ c, (s.commit c).clears = some t

variable [DecidableEq ι] [DecidableEq κ] {s s' : TxgSystem ι κ}

omit [DecidableEq ι] [DecidableEq κ] in
/-- A step that leaves the order as it is. -/
theorem InTurn.same (inTurn : InTurn s) (walks : s'.walks = s.walks) (total : s'.total = s.total)
    (openTxg : s'.openTxg = s.openTxg) (wbTxg : s'.wbTxg = s.wbTxg) (commit : s'.commit = s.commit)
    (new : s'.switcher.new = s.switcher.new) (gone : s'.gone = s.gone)
    (owner : ∀ t, (s'.txg t).owner = (s.txg t).owner)
    (state : ∀ t, (s'.txg t).state = .wbing → (s.txg t).state = .wbing) : InTurn s' := by
  refine ⟨?_, ?_, ?_, ?_, ?_, fun t c => ?_, fun t wb now => ?_⟩
  · rw [walks]
    exact inTurn.walks
  · rw [new, openTxg, total]
    exact inTurn.new
  · rw [new, openTxg, total]
    exact inTurn.total
  · rw [wbTxg, walks, gone]
    exact inTurn.free
  · rw [wbTxg, walks, gone]
    exact inTurn.wb
  · rw [owner, commit]
    exact inTurn.owner t c
  · rw [wbTxg] at wb
    rw [commit]
    exact inTurn.marked t wb (state t now)

omit [DecidableEq κ] in
theorem InTurn.of_thread {i : ι} (inTurn : InTurn s) (move : ThreadMove s i s') : InTurn s' := by
  have frame := move.frame
  refine inTurn.same frame.walks frame.total frame.openTxg frame.wbTxg frame.commit ?_ ?_
    frame.owner fun t now => (frame.state t).symm.trans now
  · rw [frame.switcher]
  · unfold TxgSystem.gone
    rw [frame.openTxg, frame.switcher]

omit [DecidableEq ι] [DecidableEq κ] in
theorem InTurn.of_switch (inTurn : InTurn s) (switching : Switching s) (move : SwitchMove s s') :
    InTurn s' := by
  -- a step of which only the stage matters
  have staged : ∀ {before : SwitchStage} {after : TxgSystem ι κ}, s.switcher = before →
      after.walks = s.walks → after.total = s.total → after.openTxg = s.openTxg →
      after.wbTxg = s.wbTxg → after.commit = s.commit → after.switcher.new = before.new →
      (after.switcher.closing || after.switcher.closed) = (before.closing || before.closed) →
      (∀ t, (after.txg t).owner = (s.txg t).owner) →
      (∀ t, (after.txg t).state = (s.txg t).state) → InTurn after := by
    rintro _ after rfl walks total openTxg wbTxg commit new gone owner state
    refine inTurn.same walks total openTxg wbTxg commit new ?_ owner
      fun t now => (state t).symm.trans now
    unfold TxgSystem.gone
    rw [openTxg, gone]
  cases move with
  | begins stage _ | noMemory stage | assertFree nt stage _ | count nt stage
    | loadWb nt t stage _ =>
    exact staged stage rfl rfl rfl rfl rfl rfl rfl (fun _ => rfl) fun _ => rfl
  | number nt stage | get nt stage | put nt stage =>
    exact staged stage rfl rfl rfl rfl rfl rfl rfl (setTxg_same SharedTxg.owner rfl)
      (setTxg_same SharedTxg.state rfl)
  | returns stage => exact inTurn
  | alloc stage =>
    have last : s.total = s.openTxg + 1 := inTurn.total (by rw [stage]; rfl)
    have gone : s.gone = s.openTxg := by rw [TxgSystem.gone, stage]; rfl
    have old : ∀ t, t ≠ s.total →
        (s.setTxg s.total (SharedTxg.zero κ)).txg t = s.txg t := fun t other =>
      Function.update_of_ne other _ _
    refine ⟨inTurn.walks, ?_, (by rintro ⟨⟩), fun none => (inTurn.free none).trans gone,
      fun t wb => ⟨(inTurn.wb t wb).1.trans gone, (inTurn.wb t wb).2⟩, fun t c owns => ?_,
      fun t wb now => ?_⟩
    · rintro _ ⟨⟩
      exact ⟨last, rfl⟩
    · by_cases here : t = s.total
      · rw [here] at owns
        simp [TxgSystem.setTxg, SharedTxg.zero] at owns
      · exact inTurn.owner t c ((congrArg SharedTxg.owner (old t here)).symm.trans owns)
    · have other : t ≠ s.total := by
        have := (inTurn.wb t wb).1
        omega
      exact inTurn.marked t wb ((congrArg SharedTxg.state (old t other)).symm.trans now)
  | setWb nt stage =>
    have free := switching.free (by rw [stage]; rfl)
    have opened := switching.opened (by rw [stage]; rfl)
    have gone : s.gone = s.openTxg := by rw [TxgSystem.gone, stage]; rfl
    refine ⟨inTurn.walks, fun u is => inTurn.new u (by rw [stage]; exact is), (by rintro ⟨⟩),
      (by rintro ⟨⟩), ?_, inTurn.owner, ?_⟩
    · rintro t ⟨⟩
      exact ⟨rfl, Or.inl ((inTurn.free free).trans gone)⟩
    · rintro t ⟨⟩ now
      exact absurd (opened.symm.trans now) (by rintro ⟨⟩)
  | setState nt t stage =>
    refine inTurn.same rfl rfl rfl rfl rfl (by rw [stage]; rfl) ?_
      (setTxg_same SharedTxg.owner rfl) fun u now => ?_
    · unfold TxgSystem.gone
      rw [stage]
      rfl
    by_cases here : u = t
    · rw [here] at now
      simp [TxgSystem.setTxg] at now
    · simpa [TxgSystem.setTxg, here] using now
  | setOpen nt stage =>
    obtain ⟨next, last⟩ := inTurn.new nt (by rw [stage]; rfl)
    have gone : s.gone = nt := by
      rw [TxgSystem.gone, stage, next]
      rfl
    exact ⟨inTurn.walks, (by rintro _ ⟨⟩), fun _ => last,
      fun none => (inTurn.free none).trans gone,
      fun t wb => ⟨(inTurn.wb t wb).1.trans gone, (inTurn.wb t wb).2⟩, inTurn.owner,
      inTurn.marked⟩

omit [DecidableEq ι] [DecidableEq κ] in
/-- The group in write-back is the next one to be walked. -/
theorem InTurn.length_of_unwalked (inTurn : InTurn s) {t : Nat} (wb : s.wbTxg = some t)
    (unwalked : t ∉ s.walks) : s.walks.length = t := by
  refine (inTurn.wb t wb).2.resolve_right fun more => unwalked ?_
  rw [inTurn.walks, more]
  exact List.mem_range.mpr (Nat.lt_succ_self t)

omit [DecidableEq ι] [DecidableEq κ] in
theorem InTurn.length_of_walked (inTurn : InTurn s) {t : Nat} (wb : s.wbTxg = some t)
    (walked : t ∈ s.walks) : s.walks.length = t + 1 := by
  refine (inTurn.wb t wb).2.resolve_left fun less => ?_
  rw [inTurn.walks, less] at walked
  exact Nat.lt_irrefl t (List.mem_range.mp walked)

omit [DecidableEq ι] in
/-- A commit thread that goes on with the same lock and the same group in write-back. -/
theorem InTurn.stage (inTurn : InTurn s) {c : κ} {stage : CommitStage}
    {txg : Nat → SharedTxg κ} (owner : ∀ t, (txg t).owner = (s.txg t).owner)
    (state : ∀ t, (txg t).state = (s.txg t).state) (locked : stage.locked = (s.commit c).locked)
    (clears : stage.clears = (s.commit c).clears) :
    InTurn { s with txg := txg, commit := Function.update s.commit c stage } where
  walks := inTurn.walks
  new := inTurn.new
  total := inTurn.total
  free := inTurn.free
  wb := inTurn.wb
  owner t d owns := by
    have before := inTurn.owner t d ((owner t).symm.trans owns)
    exact (congrFun (holds_same CommitStage.locked s.commit locked) d).trans before
  marked t wb now := by
    have before := inTurn.marked t wb ((state t).symm.trans now)
    exact (exists_same CommitStage.clears s.commit clears t).mpr before

omit [DecidableEq ι] in
/-- A commit thread takes the lock of the group `t`, or gives it back. -/
theorem InTurn.owned (inTurn : InTurn s) {c : κ} {t : Nat} {owner : Option κ}
    {stage : CommitStage} (mine : ∀ u, (s.commit c).locked = some u → u = t)
    (taken : ∀ d, owner = some d → d = c ∧ stage.locked = some t)
    (clears : stage.clears = (s.commit c).clears) :
    InTurn ((s.setTxg t { s.txg t with owner := owner }).committing c stage) := by
  refine ⟨inTurn.walks, inTurn.new, inTurn.total, inTurn.free, inTurn.wb, fun u d owns => ?_,
    fun u wb now => ?_⟩
  · show (Function.update s.commit c stage d).locked = some u
    by_cases here : u = t
    · subst here
      simp only [TxgSystem.committing, TxgSystem.setTxg, Function.update_self] at owns
      obtain ⟨rfl, locked⟩ := taken d owns
      rw [Function.update_self]
      exact locked
    · simp only [TxgSystem.committing, TxgSystem.setTxg, Function.update_of_ne here] at owns
      have before := inTurn.owner u d owns
      have other : d ≠ c := by
        rintro rfl
        exact here (mine u before)
      rw [Function.update_of_ne other]
      exact before
  · have state : ∀ u, ((s.setTxg t { s.txg t with owner := owner }).txg u).state =
        (s.txg u).state := setTxg_same SharedTxg.state rfl
    have before := inTurn.marked u wb ((state u).symm.trans now)
    exact (exists_same CommitStage.clears s.commit clears u).mpr before

omit [DecidableEq ι] in
theorem InTurn.of_commit {c : κ} (inTurn : InTurn s) (claimed : Claimed s)
    (move : CommitMove s c s') : InTurn s' := by
  cases move with
  | nothing stage => exact inTurn
  | load t stage _ | claims t stage _ | leaves t stage | waits t stage | walked t stage
    | trigger t stage =>
    exact inTurn.stage (fun _ => rfl) (fun _ => rfl) (by rw [stage]; rfl) (by rw [stage]; rfl)
  | lock t stage free =>
    refine inTurn.owned (fun u holds => ?_) (fun d is => ⟨(Option.some.inj is).symm, rfl⟩)
      (by rw [stage]; rfl)
    rw [stage] at holds
    cases holds
  | mark t stage =>
    have locked : (CommitStage.unlock t true).locked = (s.commit c).locked := by rw [stage]; rfl
    refine ⟨inTurn.walks, inTurn.new, inTurn.total, inTurn.free, inTurn.wb, fun u d owns => ?_,
      fun u wb now => ?_⟩
    · have owner : ∀ u, ((s.setTxg t { s.txg t with state := .wbing }).txg u).owner =
          (s.txg u).owner := setTxg_same SharedTxg.owner rfl
      have before := inTurn.owner u d ((owner u).symm.trans owns)
      exact (congrFun (holds_same CommitStage.locked s.commit locked) d).trans before
    · show ∃ d, (Function.update s.commit c (CommitStage.unlock t true) d).clears = some u
      by_cases here : u = t
      · exact ⟨c, by rw [Function.update_self, here]; rfl⟩
      · simp only [TxgSystem.committing, TxgSystem.setTxg, Function.update_of_ne here] at now
        obtain ⟨d, clears⟩ := inTurn.marked u wb now
        refine ⟨d, ?_⟩
        have other : d ≠ c := by
          rintro rfl
          rw [stage] at clears
          cases clears
        rw [Function.update_of_ne other]
        exact clears
  | unlock t goes stage =>
    refine inTurn.owned (fun u holds => ?_) (by rintro _ ⟨⟩) ?_
    · rw [stage] at holds
      exact (Option.some.inj holds).symm
    · rw [stage]
      cases goes <;> rfl
  | passes t stage unused =>
    have wb := claimed.clears c t (by rw [stage]; rfl)
    have unwalked : t ∉ s.walks := fun walked =>
      (claimed.walks t walked).2 c (by rw [stage]; rfl)
    have count := inTurn.length_of_unwalked wb unwalked
    have locked : (CommitStage.walk t).locked = (s.commit c).locked := by rw [stage]; rfl
    have clears : (CommitStage.walk t).clears = (s.commit c).clears := by rw [stage]; rfl
    have same := inTurn.stage (fun _ => rfl) (fun _ => rfl) locked clears
    refine ⟨?_, inTurn.new, inTurn.total, fun none => absurd (wb.symm.trans none) (by rintro ⟨⟩),
      fun u now => ?_, same.owner, same.marked⟩
    · show s.walks ++ [t] = List.range (s.walks ++ [t]).length
      rw [List.length_append, List.length_singleton, List.range_succ, ← inTurn.walks, count]
    · obtain rfl : t = u := Option.some.inj (wb.symm.trans now)
      refine ⟨(inTurn.wb t wb).1, Or.inr ?_⟩
      show (s.walks ++ [t]).length = t + 1
      rw [List.length_append, List.length_singleton, count]
  | compare t stage =>
    have wb := claimed.clears c t (by rw [stage]; rfl)
    rw [if_pos wb]
    exact inTurn.stage (fun _ => rfl) (fun _ => rfl) (by rw [stage]; rfl) (by rw [stage]; rfl)
  | walk t x rest stage list =>
    have state : ∀ u, ((s.setTxg t { s.txg t with dirtyList := rest }).txg u).state =
        (s.txg u).state := setTxg_same SharedTxg.state rfl
    exact inTurn.same rfl rfl rfl rfl rfl rfl rfl (setTxg_same SharedTxg.owner rfl)
      fun u now => (state u).symm.trans now
  | clear t stage =>
    have wb := claimed.clears c t (by rw [stage]; rfl)
    have walked := claimed.walked c t (by rw [stage]; rfl)
    have count := (inTurn.length_of_walked wb walked).trans (inTurn.wb t wb).1
    refine ⟨inTurn.walks, inTurn.new, inTurn.total, fun _ => count, (by rintro _ ⟨⟩),
      fun u d owns => ?_, (by rintro _ ⟨⟩)⟩
    have locked : (CommitStage.trigger t).locked = (s.commit c).locked := by rw [stage]; rfl
    exact (congrFun (holds_same CommitStage.locked s.commit locked) d).trans
      (inTurn.owner u d owns)

end Order

end Hvfs
