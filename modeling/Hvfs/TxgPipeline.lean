/-
This file proves what the semaphore, the clock and the dirty flags do for the
groups: the slot for write-back is free whenever `txg_switch` asserts it, a group
in it is never forgotten, and groups are opened no faster than the interval.

A commit thread may come out of `sem_wait` without a unit, and a unit may be left
over for a later group, so units and groups cannot be counted against each other.
What holds is that the unit for a group is posted behind the group: as long as no
thread has the group in write-back, a thread that comes out of `sem_wait` finds it.
-/

import Hvfs.TxgOrder

namespace Hvfs

open Transition Threads

section Pipeline

variable {ι κ : Type}

/-- The commit thread is on its way to the group `t`. -/
def WakeSystem.Coming (s : WakeSystem ι κ) (c : κ) (t : Nat) : Prop :=
  s.base.commit c = .idle ∧ s.woken c = true ∨ s.base.commit c = .lock t ∨
    s.base.commit c = .test t ∨ s.base.commit c = .mark t

/-- Where `txg_switch` is, and that a group that nobody has in write-back is not forgotten. -/
structure Signalled (s : WakeSystem ι κ) : Prop where
  changer : s.changer = .switching ↔ s.base.switcher ≠ .idle
  free : s.base.switcher = .alloc ∨ (∃ nt, s.base.switcher = .assertFree nt) →
    s.base.wbTxg = none
  started : ∀ t, s.base.wbTxg = some t → (s.base.txg t).state = .opened →
    s.base.switcher.closing = true
  woken : ∀ c, s.woken c = true → s.base.commit c = .idle
  coming : ∀ t, s.base.wbTxg = some t → (s.base.txg t).state = .wb →
    (s.changer = .switching ∨ s.changer = .post) ∨ 0 < s.commitSem ∨ ∃ c, s.Coming c t

/-- The times at which groups were opened, and the flags that say which are dirty. -/
structure Paced (interval : Nat) (s : WakeSystem ι κ) : Prop where
  pace : ∀ t, t + 1 < s.base.total → s.openTime t + interval ≤ s.openTime (t + 1)
  past : ∀ t < s.base.total, s.openTime t ≤ s.now
  due : s.changer = .goes ∨ s.base.switcher = .alloc →
    s.openTime s.base.openTxg + interval ≤ s.now
  noticed : ∀ t, (s.base.txg t).dirtyList ≠ [] → s.dirty t = true ∨ ∃ i, s.dirtying i = some t

variable [DecidableEq ι] [DecidableEq κ] {s : WakeSystem ι κ} {base : TxgSystem ι κ}

/-! ### Events and the words around them -/

/-- An event is a step of a thread that takes groups, which leaves the words around the groups
alone, or a step in `txg_switch`, or of a commit thread. -/
theorem WakeSystem.event_cases {event : TxgEvent ι κ}
    (stepped : txgEvent s.base event = some base) :
    (∃ i, ThreadMove s.base i base ∧ s.reads event = s.woken ∧ s.changes event = s.changer ∧
      s.opens event = s.openTime) ∨
    (∃ memory, event = .switch memory ∧ switchStep s.base memory = some base) ∨
      ∃ c, event = .commit c ∧ commitStep s.base c = some base := by
  cases event with
  | call i =>
    simp only [txgEvent] at stepped
    split_ifs at stepped with stage
    obtain rfl := Option.some.inj stepped
    exact Or.inl ⟨i, .call stage, rfl, rfl, rfl⟩
  | step i => exact Or.inl ⟨i, getStep_move stepped, rfl, rfl, rfl⟩
  | put i t =>
    simp only [txgEvent] at stepped
    split_ifs at stepped with allowed
    obtain rfl := Option.some.inj stepped
    exact Or.inl ⟨i, .put t allowed.1 allowed.2, rfl, rfl, rfl⟩
  | addItb i t x =>
    simp only [txgEvent] at stepped
    split_ifs at stepped with allowed dirty
    · obtain rfl := Option.some.inj stepped
      exact Or.inl ⟨i, .addDirty t x allowed.1 allowed.2 dirty, rfl, rfl, rfl⟩
    · obtain rfl := Option.some.inj stepped
      exact Or.inl ⟨i, .addItb t x allowed.1 allowed.2 (Bool.eq_false_iff.mpr dirty), rfl, rfl,
        rfl⟩
  | switch memory => exact Or.inr (Or.inl ⟨memory, rfl, stepped⟩)
  | commit c => exact Or.inr (Or.inr ⟨c, rfl, stepped⟩)

omit [DecidableEq ι] [DecidableEq κ] in
/-- Only an allocation opens a group. -/
theorem WakeSystem.opens_same {memory : Bool} (other : s.base.switcher ≠ .alloc ∨ memory = false) :
    s.opens (.switch memory) = s.openTime := by
  cases memory with
  | false => rfl
  | true =>
    have notAlloc := other.resolve_right (by rintro ⟨⟩)
    simp only [WakeSystem.opens]

omit [DecidableEq ι] [DecidableEq κ] in
/-- The timer thread in `txg_switch` does not go back to its start. -/
theorem WakeSystem.changes_inside {memory : Bool} (inside : s.base.switcher ≠ .idle) :
    s.changes (.switch memory) ≠ .goes := by
  intro is
  simp only [WakeSystem.changes] at is
  split at is
  · rename_i stage
    exact inside stage
  · split_ifs at is
  · cases is
  · cases is

/-! ### Steps of the threads and of the switch -/

omit [DecidableEq κ] in
theorem Signalled.of_thread {i : ι} (signalled : Signalled s) (move : ThreadMove s.base i base)
    (dirtying : ι → Option Nat) : Signalled { s with base, dirtying } := by
  have frame := move.frame
  refine ⟨?_, ?_, fun t => ?_, fun c => ?_, fun t => ?_⟩
  · show s.changer = .switching ↔ base.switcher ≠ .idle
    rw [frame.switcher]
    exact signalled.changer
  · show base.switcher = .alloc ∨ (∃ nt, base.switcher = .assertFree nt) → base.wbTxg = none
    rw [frame.switcher, frame.wbTxg]
    exact signalled.free
  · show base.wbTxg = some t → (base.txg t).state = .opened → base.switcher.closing = true
    rw [frame.wbTxg, frame.state, frame.switcher]
    exact signalled.started t
  · show s.woken c = true → base.commit c = .idle
    rw [frame.commit]
    exact signalled.woken c
  · unfold WakeSystem.Coming
    show base.wbTxg = some t → (base.txg t).state = .wb → _
    rw [frame.wbTxg, frame.state, frame.commit]
    exact signalled.coming t

omit [DecidableEq ι] [DecidableEq κ] in
/-- A step inside `txg_switch`. -/
theorem Signalled.switching (signalled : Signalled s) (openTime : Nat → Nat)
    (inside : base.switcher ≠ .idle) (commit : base.commit = s.base.commit)
    (free : base.switcher = .alloc ∨ (∃ nt, base.switcher = .assertFree nt) → base.wbTxg = none)
    (started : ∀ t, base.wbTxg = some t → (base.txg t).state = .opened →
      base.switcher.closing = true) :
    Signalled { s with base, openTime, changer := .switching } where
  changer := iff_of_true rfl inside
  free := free
  started := started
  woken c woken := (congrFun commit c).trans (signalled.woken c woken)
  coming _ _ _ := Or.inl (Or.inl rfl)

omit [DecidableEq ι] [DecidableEq κ] in
/-- `txg_changer` returns without a switch. -/
theorem Signalled.returns (signalled : Signalled s) (openTime : Nat → Nat)
    (idle : base.switcher = .idle) (commit : base.commit = s.base.commit)
    (started : ∀ t, base.wbTxg = some t → (base.txg t).state ≠ .opened)
    (coming : ∀ t, base.wbTxg = some t → (base.txg t).state = .wb →
      0 < s.commitSem ∨ ∃ c, s.Coming c t) :
    Signalled { s with base, openTime, changer := .idle } where
  changer := iff_of_false (by rintro ⟨⟩) (not_not.mpr idle)
  free := by
    rw [show ({ s with base, openTime, changer := .idle } : WakeSystem ι κ).base = base from rfl,
      idle]
    rintro (absurdity | ⟨_, absurdity⟩)
    · cases absurdity
    · cases absurdity
  started t wb state := absurd state (started t wb)
  woken c woken := (congrFun commit c).trans (signalled.woken c woken)
  coming t wb state := by
    refine Or.inr ((coming t wb state).imp_right ?_)
    rintro ⟨c, way⟩
    refine ⟨c, ?_⟩
    unfold WakeSystem.Coming at way ⊢
    rw [show ({ s with base, openTime, changer := .idle } : WakeSystem ι κ).base = base from rfl,
      commit]
    exact way

omit [DecidableEq ι] [DecidableEq κ] in
theorem Signalled.of_switch (signalled : Signalled s) (kept : Switching s.base)
    (goes : s.base.switcher = .idle → s.changer = .goes) {memory : Bool}
    (stepped : switchStep s.base memory = some base) (openTime : Nat → Nat) :
    Signalled { s with base, openTime, changer := s.changes (.switch memory) } := by
  have empty : ∀ {after : TxgSystem ι κ}, after.switcher ≠ .idle →
      after.commit = s.base.commit → after.wbTxg = none →
      Signalled { s with base := after, openTime, changer := .switching } := by
    intro after inside commit free
    exact signalled.switching openTime inside commit (fun _ => free)
      fun t wb => absurd (free.symm.trans wb) (by rintro ⟨⟩)
  have opened : ∀ t, s.base.switcher.closing = false → s.base.wbTxg = some t →
      (s.base.txg t).state ≠ .opened := by
    intro t notClosing wb state
    rw [signalled.started t wb state] at notClosing
    cases notClosing
  cases switchStep_move stepped with
  | begins stage free =>
    simp only [WakeSystem.changes, stage, if_pos free]
    exact empty (by rintro ⟨⟩) rfl free
  | returns stage =>
    have busy : s.base.wbTxg ≠ none := by
      intro free
      simp only [switchStep, stage, if_pos free, Option.some_inj] at stepped
      rw [← stepped] at stage
      cases stage
    simp only [WakeSystem.changes, stage, if_neg busy]
    refine signalled.returns openTime stage rfl
      (fun t => opened t (by rw [stage]; rfl)) fun t wb state => ?_
    refine (signalled.coming t wb state).resolve_left ?_
    rw [goes stage]
    rintro (absurdity | absurdity)
    · cases absurdity
    · cases absurdity
  | alloc stage =>
    cases memory with
    | false => simp [switchStep, stage] at stepped
    | true =>
      simp only [WakeSystem.changes, stage, if_true]
      exact empty (by rintro ⟨⟩) rfl (signalled.free (Or.inl stage))
  | noMemory stage =>
    have free := signalled.free (Or.inl stage)
    cases memory with
    | true => simp [switchStep, stage] at stepped
    | false =>
      simp only [WakeSystem.changes, stage, Bool.false_eq_true, if_false]
      exact signalled.returns openTime rfl rfl
        (fun t wb => absurd (free.symm.trans wb) (by rintro ⟨⟩))
        fun t wb => absurd (free.symm.trans wb) (by rintro ⟨⟩)
  | assertFree nt stage free =>
    simp only [WakeSystem.changes, stage]
    exact empty (by rintro ⟨⟩) rfl free
  | count nt stage | number nt stage | get nt stage =>
    have free := kept.free (by rw [stage]; rfl)
    simp only [WakeSystem.changes, stage]
    exact empty (by rintro ⟨⟩) rfl free
  | setWb nt stage | loadWb nt t stage wb =>
    simp only [WakeSystem.changes, stage]
    exact signalled.switching openTime (by rintro ⟨⟩) rfl
      (fun either => either.elim (by rintro ⟨⟩) (by rintro ⟨_, ⟨⟩⟩)) fun _ _ _ => rfl
  | setState nt t stage =>
    simp only [WakeSystem.changes, stage]
    refine signalled.switching openTime (by rintro ⟨⟩) rfl
      (fun either => either.elim (by rintro ⟨⟩) (by rintro ⟨_, ⟨⟩⟩)) fun u wb state => ?_
    -- the group in write-back is the one that is marked
    have here : u = t := by
      have closing := kept.closing (by rw [stage]; rfl)
      rw [kept.target nt t stage]
      exact Option.some.inj (wb.symm.trans closing)
    rw [here] at state
    simp [TxgSystem.setTxg] at state
  | put nt stage =>
    simp only [WakeSystem.changes, stage]
    refine signalled.switching openTime (by rintro ⟨⟩) rfl
      (fun either => either.elim (by rintro ⟨⟩) (by rintro ⟨_, ⟨⟩⟩)) fun u wb state => ?_
    have same : ∀ u, ((s.base.pend s.base.openTxg (-1)).txg u).state = (s.base.txg u).state :=
      setTxg_same SharedTxg.state rfl
    exact absurd ((same u).symm.trans state) (opened u (by rw [stage]; rfl) wb)
  | setOpen nt stage =>
    simp only [WakeSystem.changes, stage]
    exact ⟨iff_of_false (by rintro ⟨⟩) (not_not.mpr rfl),
      fun either => either.elim (by rintro ⟨⟩) (by rintro ⟨_, ⟨⟩⟩),
      fun t wb state => absurd state (opened t (by rw [stage]; rfl) wb), signalled.woken,
      fun _ _ _ => Or.inl (Or.inr rfl)⟩

/-! ### Steps of the commit threads -/

omit [DecidableEq ι] in
/-- A commit thread on its way to a group comes closer, or has it in write-back. -/
theorem commitStep_coming {c : κ} {t : Nat} (way : s.Coming c t) (wb : s.base.wbTxg = some t)
    (state : (s.base.txg t).state = .wb) (stepped : commitStep s.base c = some base) :
    base.commit c = .lock t ∨ base.commit c = .test t ∨ base.commit c = .mark t ∨
      (base.txg t).state ≠ .wb := by
  unfold commitStep at stepped
  rcases way with ⟨stage, _⟩ | stage | stage | stage
  · simp only [stage, wb] at stepped
    obtain rfl := Option.some.inj stepped
    exact Or.inl (Function.update_self _ _ _)
  · simp only [stage] at stepped
    split_ifs at stepped
    obtain rfl := Option.some.inj stepped
    exact Or.inr (Or.inl (Function.update_self _ _ _))
  · simp only [stage, if_pos state] at stepped
    obtain rfl := Option.some.inj stepped
    exact Or.inr (Or.inr (Or.inl (Function.update_self _ _ _)))
  · simp only [stage] at stepped
    obtain rfl := Option.some.inj stepped
    refine Or.inr (Or.inr (Or.inr ?_))
    simp [TxgSystem.committing, TxgSystem.setTxg]

omit [DecidableEq ι] in
theorem Signalled.of_commit (signalled : Signalled s) {c : κ}
    (stepped : commitStep s.base c = some base) :
    Signalled { s with base, woken := Function.update s.woken c false } := by
  have move := commitStep_move stepped
  have frame := move.frame
  have wbBefore : ∀ t, base.wbTxg = some t → s.base.wbTxg = some t := by
    intro t wb
    rcases move.words.1 with same | none
    · exact same.symm.trans wb
    · exact absurd (none.symm.trans wb) (by rintro ⟨⟩)
  refine ⟨?_, fun either => ?_, fun t wb state => ?_, fun d woken => ?_, fun t wb state => ?_⟩
  · show s.changer = .switching ↔ base.switcher ≠ .idle
    rw [frame.switcher]
    exact signalled.changer
  · have free := signalled.free (frame.switcher ▸ either)
    rcases move.words.1 with same | none
    · exact same.trans free
    · exact none
  · show base.switcher.closing = true
    rw [frame.switcher]
    refine signalled.started t (wbBefore t wb) ?_
    rcases move.state with ⟨same, _⟩ | ⟨u, _, _, marked, others⟩
    · exact (same t).symm.trans state
    · have other : t ≠ u := by
        rintro rfl
        exact absurd (marked.symm.trans state) (by rintro ⟨⟩)
      exact (others t other).symm.trans state
  · have other : d ≠ c := by
      rintro rfl
      simp at woken
    have before : s.woken d = true := by
      have := Function.update_of_ne other false s.woken
      exact this.symm.trans woken
    exact (frame.others d other).trans (signalled.woken d before)
  · have stateBefore : (s.base.txg t).state = .wb := by
      rcases move.state with ⟨same, _⟩ | ⟨u, _, _, marked, others⟩
      · exact (same t).symm.trans state
      · have other : t ≠ u := by
          rintro rfl
          exact absurd (marked.symm.trans state) (by rintro ⟨⟩)
        exact (others t other).symm.trans state
    refine (signalled.coming t (wbBefore t wb) stateBefore).imp_right (Or.imp_right ?_)
    rintro ⟨d, way⟩
    refine ⟨d, ?_⟩
    by_cases same : d = c
    · subst same
      rcases commitStep_coming way (wbBefore t wb) stateBefore stepped with
        at_ | at_ | at_ | absurdity
      · exact Or.inr (Or.inl at_)
      · exact Or.inr (Or.inr (Or.inl at_))
      · exact Or.inr (Or.inr (Or.inr at_))
      · exact absurd state absurdity
    · unfold WakeSystem.Coming at way ⊢
      show base.commit d = .idle ∧ Function.update s.woken c false d = true ∨
        base.commit d = .lock t ∨ base.commit d = .test t ∨ base.commit d = .mark t
      rw [frame.others d same, Function.update_of_ne same]
      exact way

/-! ### Times and flags -/

/-- Only `txg_add_itb` adds to a dirty list. -/
theorem txgEvent_dirtyList {first after : TxgSystem ι κ} {event : TxgEvent ι κ}
    (stepped : txgEvent first event = some after) (t : Nat)
    (now : (after.txg t).dirtyList ≠ []) :
    (first.txg t).dirtyList ≠ [] ∨ ∃ i x, event = .addItb i t x := by
  have same : ∀ {next : TxgSystem ι κ} {u : Nat} {txg : SharedTxg κ},
      (next.txg t).dirtyList ≠ [] → next.txg = Function.update first.txg u txg →
      txg.dirtyList = (first.txg u).dirtyList → (first.txg t).dirtyList ≠ [] := by
    intro next u txg now written kept
    rw [written] at now
    exact fun none => now ((setTxg_same SharedTxg.dirtyList kept t).trans none)
  cases event with
  | call i =>
    simp only [txgEvent] at stepped
    split_ifs at stepped
    obtain rfl := Option.some.inj stepped
    exact Or.inl now
  | step i =>
    simp only [txgEvent, getStep] at stepped
    split at stepped
    · cases stepped
    · obtain rfl := Option.some.inj stepped
      exact Or.inl now
    · obtain rfl := Option.some.inj stepped
      exact Or.inl (same now rfl rfl)
    · split_ifs at stepped
      · obtain rfl := Option.some.inj stepped
        exact Or.inl now
      · obtain rfl := Option.some.inj stepped
        exact Or.inl now
    · obtain rfl := Option.some.inj stepped
      exact Or.inl (same now rfl rfl)
  | put i u =>
    simp only [txgEvent] at stepped
    split_ifs at stepped
    obtain rfl := Option.some.inj stepped
    exact Or.inl (same now rfl rfl)
  | addItb i u x =>
    simp only [txgEvent] at stepped
    split_ifs at stepped
    · obtain rfl := Option.some.inj stepped
      exact Or.inl now
    · obtain rfl := Option.some.inj stepped
      by_cases here : t = u
      · exact Or.inr ⟨i, x, by rw [here]⟩
      · simp only [TxgSystem.setTxg, Function.update_of_ne here] at now
        exact Or.inl now
  | switch memory =>
    left
    cases switchStep_move stepped with
    | alloc stage =>
      by_cases here : t = first.total
      · rw [here] at now
        simp [TxgSystem.setTxg, SharedTxg.zero] at now
      · simp only [TxgSystem.setTxg, Function.update_of_ne here] at now
        exact now
    | number nt stage => exact same now rfl rfl
    | get nt stage => exact same now rfl rfl
    | setState nt u stage => exact same now rfl rfl
    | put nt stage => exact same now rfl rfl
    | _ => exact now
  | commit c =>
    left
    cases commitStep_move stepped with
    | lock u stage free => exact same now rfl rfl
    | mark u stage => exact same now rfl rfl
    | unlock u goes stage => exact same now rfl rfl
    | walk u x rest stage list =>
      by_cases here : t = u
      · rw [here, list]
        exact List.cons_ne_nil x rest
      · simp only [TxgSystem.setTxg, Function.update_of_ne here] at now
        exact now
    | _ => exact now

variable {interval : Nat}

/-- A thread that has added to a dirty list is about to set its group dirty. -/
theorem Paced.noticed_base (paced : Paced interval s) {event : TxgEvent ι κ}
    (ready : s.ready event = true) (stepped : txgEvent s.base event = some base) (t : Nat)
    (now : (base.txg t).dirtyList ≠ []) :
    s.dirty t = true ∨ ∃ i, s.dirties event i = some t := by
  have before : s.dirty t = true ∨ (∃ i, s.dirtying i = some t) →
      s.dirty t = true ∨ ∃ i, s.dirties event i = some t := by
    refine Or.imp_right ?_
    rintro ⟨j, dirtying⟩
    refine ⟨j, ?_⟩
    cases event with
    | addItb i u x =>
      have other : j ≠ i := by
        rintro rfl
        simp [WakeSystem.ready, dirtying] at ready
      exact (Function.update_of_ne other _ _).trans dirtying
    | _ => exact dirtying
  rcases txgEvent_dirtyList stepped t now with old | ⟨i, x, rfl⟩
  · exact before (paced.noticed t old)
  · exact Or.inr ⟨i, Function.update_self _ _ _⟩

omit [DecidableEq ι] [DecidableEq κ] in
/-- A step that allocates no group. -/
theorem Paced.same (paced : Paced interval s) {after : WakeSystem ι κ}
    (total : after.base.total = s.base.total) (openTime : after.openTime = s.openTime)
    (now : s.now ≤ after.now)
    (due : after.changer = .goes ∨ after.base.switcher = .alloc →
      s.openTime after.base.openTxg + interval ≤ s.now)
    (noticed : ∀ t, (after.base.txg t).dirtyList ≠ [] →
      after.dirty t = true ∨ ∃ i, after.dirtying i = some t) : Paced interval after where
  pace := by
    rw [total, openTime]
    exact paced.pace
  past := by
    rw [total, openTime]
    exact fun t earlier => (paced.past t earlier).trans now
  due open_ := by
    rw [openTime]
    exact (due open_).trans now
  noticed := noticed

omit [DecidableEq ι] [DecidableEq κ] in
/-- A group is opened when it is due. -/
theorem Paced.opened (paced : Paced interval s) {after : WakeSystem ι κ}
    (last : s.base.total = s.base.openTxg + 1)
    (due : s.openTime s.base.openTxg + interval ≤ s.now)
    (total : after.base.total = s.base.total + 1)
    (openTime : after.openTime = Function.update s.openTime s.base.total s.now)
    (now : after.now = s.now) (notDue : ¬(after.changer = .goes ∨ after.base.switcher = .alloc))
    (noticed : ∀ t, (after.base.txg t).dirtyList ≠ [] →
      after.dirty t = true ∨ ∃ i, after.dirtying i = some t) : Paced interval after := by
  have old : ∀ t < s.base.total, after.openTime t = s.openTime t := by
    intro t earlier
    rw [openTime, Function.update_of_ne (Nat.ne_of_lt earlier)]
  have new : after.openTime s.base.total = s.now := by rw [openTime, Function.update_self]
  refine ⟨fun t earlier => ?_, fun t earlier => ?_, fun open_ => absurd open_ notDue, noticed⟩
  · rw [total] at earlier
    rw [old t (Nat.lt_of_succ_lt_succ earlier)]
    rcases Nat.lt_succ_iff_lt_or_eq.mp earlier with less | here
    · rw [old _ less]
      exact paced.pace t less
    · rw [here, new]
      obtain rfl : t = s.base.openTxg := by omega
      exact due
  · rw [total] at earlier
    rw [now]
    rcases Nat.lt_succ_iff_lt_or_eq.mp earlier with less | here
    · rw [old t less]
      exact paced.past t less
    · rw [here, new]

theorem Paced.of_base (paced : Paced interval s) (inTurn : InTurn s.base) {event : TxgEvent ι κ}
    (goes : s.base.switcher = .idle ∧ (∃ memory, event = .switch memory) → s.changer = .goes)
    (ready : s.ready event = true) (stepped : txgEvent s.base event = some base) :
    Paced interval { s with
      base := base
      woken := s.reads event
      changer := s.changes event
      dirtying := s.dirties event
      openTime := s.opens event } := by
  have noticed := paced.noticed_base ready stepped
  rcases s.event_cases stepped with ⟨i, move, _, changes, opens⟩ | ⟨memory, rfl, switched⟩ |
    ⟨c, rfl, committed⟩
  · have frame := move.frame
    refine paced.same frame.total opens (Nat.le_refl _) (fun open_ => ?_) noticed
    show s.openTime base.openTxg + interval ≤ s.now
    rw [frame.openTxg]
    refine paced.due (open_.imp (fun changer => ?_) fun switcher => ?_)
    · exact changes.symm.trans changer
    · exact frame.switcher.symm.trans switcher
  · cases switchStep_move switched with
    | begins stage free =>
      have due := paced.due (Or.inl (goes ⟨stage, memory, rfl⟩))
      have opens : s.opens (.switch memory) = s.openTime :=
        s.opens_same (Or.inl (by rw [stage]; rintro ⟨⟩))
      exact paced.same rfl opens (Nat.le_refl _) (fun _ => due) noticed
    | returns stage =>
      have opens : s.opens (.switch memory) = s.openTime :=
        s.opens_same (Or.inl (by rw [stage]; rintro ⟨⟩))
      refine paced.same rfl opens (Nat.le_refl _) (fun open_ => ?_) noticed
      exact paced.due (Or.inl (goes ⟨stage, memory, rfl⟩))
    | alloc stage =>
      cases memory with
      | false => simp [switchStep, stage] at switched
      | true =>
        have opens : s.opens (.switch true) = Function.update s.openTime s.base.total s.now := by
          simp only [WakeSystem.opens, stage]
        refine paced.opened (inTurn.total (by rw [stage]; rfl)) (paced.due (Or.inr stage)) rfl
          opens rfl ?_ noticed
        rintro (goes | inside)
        · exact s.changes_inside (by rw [stage]; rintro ⟨⟩) goes
        · cases inside
    | noMemory stage =>
      have opens : s.opens (.switch memory) = s.openTime := by
        refine s.opens_same (Or.inr ?_)
        cases memory with
        | false => rfl
        | true => simp [switchStep, stage] at switched
      refine paced.same rfl opens (Nat.le_refl _) ?_ noticed
      rintro (goes | inside)
      · exact absurd goes (s.changes_inside (by rw [stage]; rintro ⟨⟩))
      · cases inside
    | assertFree nt stage _ | count nt stage | number nt stage | get nt stage | setWb nt stage
    | loadWb nt t stage _ | setState nt t stage | put nt stage | setOpen nt stage =>
      have opens : s.opens (.switch memory) = s.openTime :=
        s.opens_same (Or.inl (by rw [stage]; rintro ⟨⟩))
      refine paced.same rfl opens (Nat.le_refl _) ?_ noticed
      rintro (goes | inside)
      · exact absurd goes (s.changes_inside (by rw [stage]; rintro ⟨⟩))
      · cases inside
  · have frame := (commitStep_move committed).frame
    refine paced.same frame.total rfl (Nat.le_refl _) (fun open_ => ?_) noticed
    show s.openTime base.openTxg + interval ≤ s.now
    rw [frame.openTxg]
    exact paced.due (open_.imp_right fun switcher => frame.switcher.symm.trans switcher)

end Pipeline

end Hvfs
