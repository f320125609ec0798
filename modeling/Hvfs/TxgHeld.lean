/-
This file proves that a reference to a group holds off its write-back: as long as
a thread has not put a group that `mds_get_open_txg` returned to it, no commit
thread gets past the wait for that group. A thread that reads the open pointer
too late takes a reference all the same, and puts it when it sees the state; that
this is early enough rests on the order in which `txg_switch` writes its words.
-/

import Hvfs.TxgMoves
import Hvfs.Library.Transition
import Mathlib.Algebra.Order.BigOperators.Group.Finset

namespace Hvfs

open Transition

/-! ### The invariants -/

section Invariants

variable {ι κ : Type}

/-- The references to the group `t`. -/
def TxgSystem.refs [Fintype ι] (s : TxgSystem ι κ) (t : Nat) : Nat :=
  ∑ i, (s.thread i).refs t + if s.switcher.counted = true ∧ s.openTxg = t then 1 else 0

/-- Every group counts the references to it. -/
def Counted [Fintype ι] (s : TxgSystem ι κ) : Prop := ∀ t, (s.txg t).txPending = s.refs t

/-- Where `txg_switch` is. -/
structure Switching (s : TxgSystem ι κ) : Prop where
  opened : s.switcher.closed = false → (s.txg s.openTxg).state = .opened
  free : s.switcher.free = true → s.wbTxg = none
  closing : s.switcher.closing = true → s.wbTxg = some s.openTxg
  target : ∀ nt t, s.switcher = .setState nt t → t = s.openTxg
  closed : s.switcher.closed = true → ∀ t, s.wbTxg = some t → t = s.openTxg
  new : ∀ nt, s.switcher.new = some nt → nt ≠ s.openTxg ∧ (s.txg nt).state = .opened
  uncounted : s.switcher.uncounted = true → s.miTxg = (s.txg s.openTxg).txg
  number : ∀ nt, s.switcher = .number nt → s.miTxg = (s.txg s.openTxg).txg + 1
  numbered : ∀ nt, s.switcher.numbered = some nt →
    (s.txg nt).txg = (s.txg s.openTxg).txg + 1 ∧ s.miTxg = (s.txg nt).txg
  behind : s.switcher.unchecked = true → ∀ t, s.wbTxg = some t →
    (s.txg t).txg + 1 = (s.txg s.openTxg).txg

/-- A commit thread has a group in write-back for itself, and got past the wait for it when no
thread held it. -/
structure Claimed (s : TxgSystem ι κ) : Prop where
  owner : ∀ c t, (s.commit c).locked = some t → (s.txg t).owner = some c
  mark : ∀ c t, s.commit c = .mark t → (s.txg t).state = .wb
  state : ∀ c t, (s.commit c).claimed = some t → (s.txg t).state = .wbing
  single : ∀ c d t, (s.commit c).claimed = some t → (s.commit d).claimed = some t → c = d
  clears : ∀ c t, (s.commit c).clears = some t → s.wbTxg = some t
  walked : ∀ c t, (s.commit c).passed = some t → t ∈ s.walks
  walks : ∀ t ∈ s.walks, (s.txg t).state = .wbing ∧ ∀ c, (s.commit c).waiting ≠ some t
  once : s.walks.Nodup
  wb : ∀ t, (s.txg t).state = .wb → s.wbTxg = some t
  held : ∀ i, ∀ t ∈ (s.thread i).held, t ∉ s.walks

end Invariants

/-! ### The counts -/

section Counts

variable {ι κ : Type} [DecidableEq ι] [DecidableEq κ] {s s' : TxgSystem ι κ}

omit [DecidableEq ι] [DecidableEq κ] in
theorem pend_txPending (t u : Nat) (change : Int) :
    ((s.pend t change).txg u).txPending =
      (s.txg u).txPending + if t = u then change else 0 := by
  simp only [TxgSystem.pend, TxgSystem.setTxg, Function.update_apply]
  by_cases same : u = t
  · simp [same]
  · simp [same, Ne.symm same]

omit [DecidableEq κ] in
/-- A step of a thread changes the count of a group by the references that the thread takes and
puts. -/
theorem ThreadMove.balance {i : ι} (move : ThreadMove s i s') (u : Nat) :
    (s'.txg u).txPending + (s.thread i).refs u = (s.txg u).txPending + (s'.thread i).refs u := by
  have pended : ∀ (t : Nat) (change : Int) (stage : GetStage) (held : List Nat),
      (((s.pend t change).goOn i stage held).txg u).txPending =
        (s.txg u).txPending + if t = u then change else 0 :=
    fun t change _ _ => pend_txPending t u change
  cases move with
  | call stage => simp [TxgSystem.goOn, TxgThread.refs, GetStage.counted, stage]
  | read stage => simp [TxgSystem.goOn, TxgThread.refs, GetStage.counted, stage]
  | get t stage =>
    rw [pended]
    by_cases same : t = u
    · simp [TxgSystem.goOn, TxgThread.refs, GetStage.counted, stage, same]
      omega
    · simp [TxgSystem.goOn, TxgThread.refs, GetStage.counted, stage, same]
  | returned t stage state =>
    by_cases same : t = u <;>
      simp [TxgSystem.goOn, TxgThread.refs, GetStage.counted, stage, same]
  | rejected t stage state => simp [TxgSystem.goOn, TxgThread.refs, GetStage.counted, stage]
  | retry t stage =>
    rw [pended]
    by_cases same : t = u
    · simp [TxgSystem.goOn, TxgThread.refs, GetStage.counted, stage, same]
      omega
    · simp [TxgSystem.goOn, TxgThread.refs, GetStage.counted, stage, same]
  | put t stage held =>
    rw [pended]
    by_cases same : t = u
    · subst same
      have positive := List.count_pos_iff.mpr held
      simp [TxgSystem.goOn, TxgThread.refs, GetStage.counted, stage]
      omega
    · simp [TxgSystem.goOn, TxgThread.refs, GetStage.counted, stage, same,
        List.count_erase_of_ne (Ne.symm same)]
  | addDirty t x stage held dirty => rfl
  | addItb t x stage held clean =>
    have same : ((s.setTxg t { s.txg t with dirtyList := (s.txg t).dirtyList ++ [x] }).txg
        u).txPending = (s.txg u).txPending := by
      refine setTxg_same SharedTxg.txPending ?_ u
      rfl
    rw [same]
    rfl

variable [Fintype ι]

omit [DecidableEq κ] in
/-- What a step of one thread does to the references that are held. -/
theorem refs_step {i : ι} (others : ∀ j, j ≠ i → s'.thread j = s.thread j)
    (switcher : s'.switcher = s.switcher) (openTxg : s'.openTxg = s.openTxg) (t : Nat) :
    s'.refs t + (s.thread i).refs t = s.refs t + (s'.thread i).refs t := by
  unfold TxgSystem.refs
  rw [← Finset.add_sum_erase _ _ (Finset.mem_univ i),
    ← Finset.add_sum_erase Finset.univ (fun j => (s.thread j).refs t) (Finset.mem_univ i),
    Finset.sum_congr rfl fun j member => by rw [others j (Finset.ne_of_mem_erase member)],
    switcher, openTxg]
  omega

omit [DecidableEq κ] in
theorem Counted.of_thread {i : ι} (counted : Counted s) (move : ThreadMove s i s') :
    Counted s' := by
  intro t
  have frame := move.frame
  have total := refs_step move.thread.1 frame.switcher frame.openTxg t
  have balance := move.balance t
  rw [counted t] at balance
  omega

omit [DecidableEq ι] [DecidableEq κ] in
/-- No thread holds a group that has not been allocated. -/
theorem Allocated.refs_total (allocated : Allocated s) : s.refs s.total = 0 := by
  have none : ∀ i, (s.thread i).refs s.total = 0 := by
    intro i
    have held : (s.thread i).held.count s.total = 0 :=
      List.count_eq_zero.mpr fun member => Nat.lt_irrefl _ (allocated.held i _ member)
    have stage : (s.thread i).stage.counted ≠ some s.total := by
      intro is
      refine Nat.lt_irrefl _ (allocated.stage i s.total ?_)
      cases at_ : (s.thread i).stage <;> rw [at_] at is <;> first | exact is | cases is
    rw [TxgThread.refs, held, if_neg stage]
  rw [TxgSystem.refs, Finset.sum_eq_zero fun i _ => none i,
    if_neg fun is => Nat.ne_of_lt allocated.opened is.2]

omit [DecidableEq ι] [DecidableEq κ] in
theorem Counted.of_switch (counted : Counted s) (allocated : Allocated s)
    (move : SwitchMove s s') : Counted s' := by
  -- a step that counts no reference and puts none
  have same : ∀ {after : TxgSystem ι κ}, (∀ t, (after.txg t).txPending = (s.txg t).txPending) →
      after.thread = s.thread → after.switcher.counted = s.switcher.counted →
      after.openTxg = s.openTxg → Counted after := by
    intro after txPending thread stage openTxg t
    rw [txPending, counted t, TxgSystem.refs, TxgSystem.refs, thread, stage, openTxg]
  have here : ∀ {before after : SwitchStage}, s.switcher = before →
      after.counted = before.counted → after.counted = s.switcher.counted :=
    fun is kept => by rw [is, kept]
  cases move with
  | begins stage free => exact same (fun _ => rfl) rfl (here stage rfl) rfl
  | returns stage => exact counted
  | alloc stage =>
    intro t
    have refs : TxgSystem.refs { s.setTxg s.total (SharedTxg.zero κ) with
        total := s.total + 1
        switcher := .assertFree s.total } t = s.refs t := by
      simp [TxgSystem.refs, TxgSystem.setTxg, SwitchStage.counted, stage]
    rw [refs]
    simp only [TxgSystem.setTxg, Function.update_apply]
    split
    · rename_i new
      rw [new, allocated.refs_total]
      rfl
    · exact counted t
  | noMemory stage => exact same (fun _ => rfl) rfl (here stage rfl) rfl
  | assertFree nt stage free => exact same (fun _ => rfl) rfl (here stage rfl) rfl
  | count nt stage => exact same (fun _ => rfl) rfl (here stage rfl) rfl
  | number nt stage =>
    exact same (setTxg_same SharedTxg.txPending rfl) rfl (here stage rfl) rfl
  | get nt stage =>
    intro t
    change ((s.pend s.openTxg 1).txg t).txPending = _
    rw [pend_txPending, counted t]
    simp only [TxgSystem.refs, TxgSystem.pend, TxgSystem.setTxg, SwitchStage.counted, stage]
    by_cases same : s.openTxg = t <;> simp [same]
  | setWb nt stage => exact same (fun _ => rfl) rfl (here stage rfl) rfl
  | loadWb nt t stage wb => exact same (fun _ => rfl) rfl (here stage rfl) rfl
  | setState nt t stage =>
    exact same (setTxg_same SharedTxg.txPending rfl) rfl (here stage rfl) rfl
  | put nt stage =>
    intro t
    change ((s.pend s.openTxg (-1)).txg t).txPending = _
    rw [pend_txPending, counted t]
    simp only [TxgSystem.refs, TxgSystem.pend, TxgSystem.setTxg, SwitchStage.counted, stage]
    by_cases same : s.openTxg = t <;> simp [same]
  | setOpen nt stage =>
    intro t
    change (s.txg t).txPending = _
    rw [counted t]
    simp [TxgSystem.refs, SwitchStage.counted, stage]

omit [DecidableEq ι] in
theorem Counted.of_commit {c : κ} (counted : Counted s) (move : CommitMove s c s') :
    Counted s' := by
  intro t
  have frame := move.frame
  rw [frame.txPending, counted t, TxgSystem.refs, TxgSystem.refs, frame.thread, frame.switcher,
    frame.openTxg]

omit [DecidableEq ι] [DecidableEq κ] in
/-- A group without references is held by no thread. -/
theorem Counted.held (counted : Counted s) {t : Nat} (unused : (s.txg t).txPending = 0) (i : ι) :
    t ∉ (s.thread i).held := by
  intro member
  have none : s.refs t = 0 := by
    have := counted t
    rw [unused] at this
    exact (Int.ofNat_eq_zero.mp this.symm)
  have threads := (Nat.add_eq_zero_iff.mp none).1
  have here := (Finset.sum_eq_zero_iff.mp threads) i (Finset.mem_univ i)
  have positive := List.count_pos_iff.mpr member
  rw [TxgThread.refs] at here
  omega

end Counts

/-! ### The order of the writes in `txg_switch` -/

section Order

variable {ι κ : Type} [DecidableEq ι] [DecidableEq κ] {s s' : TxgSystem ι κ}

omit [DecidableEq ι] [DecidableEq κ] in
/-- A step that leaves what `txg_switch` is about. -/
theorem Switching.unchanged (switching : Switching s) (switcher : s'.switcher = s.switcher)
    (openTxg : s'.openTxg = s.openTxg) (wbTxg : s'.wbTxg = s.wbTxg) (miTxg : s'.miTxg = s.miTxg)
    (state : ∀ t, (s'.txg t).state = (s.txg t).state)
    (txg : ∀ t, (s'.txg t).txg = (s.txg t).txg) : Switching s' where
  opened := by rw [switcher, openTxg, state]; exact switching.opened
  free := by rw [switcher, wbTxg]; exact switching.free
  closing := by rw [switcher, openTxg, wbTxg]; exact switching.closing
  target := by rw [switcher, openTxg]; exact switching.target
  closed := by rw [switcher, openTxg, wbTxg]; exact switching.closed
  new := by
    intro nt is
    rw [switcher] at is
    rw [openTxg, state]
    exact switching.new nt is
  uncounted := by rw [switcher, openTxg, miTxg, txg]; exact switching.uncounted
  number := by
    intro nt is
    rw [switcher] at is
    rw [openTxg, miTxg, txg]
    exact switching.number nt is
  numbered := by
    intro nt is
    rw [switcher] at is
    rw [openTxg, miTxg, txg, txg]
    exact switching.numbered nt is
  behind := by
    intro is t wb
    rw [switcher] at is
    rw [wbTxg] at wb
    rw [openTxg, txg, txg]
    exact switching.behind is t wb

omit [DecidableEq κ] in
theorem Switching.of_thread {i : ι} (switching : Switching s) (move : ThreadMove s i s') :
    Switching s' :=
  have frame := move.frame
  switching.unchanged frame.switcher frame.openTxg frame.wbTxg frame.miTxg frame.state frame.txg

omit [DecidableEq ι] in
/-- A commit thread changes the state of the group that it marks, and clears the write-back
pointer. -/
theorem CommitMove.state {c : κ} (move : CommitMove s c s') :
    ((∀ t, (s'.txg t).state = (s.txg t).state) ∧
        (s'.wbTxg = s.wbTxg ∨ ∃ t, s.commit c = .clear t ∧ s'.wbTxg = none)) ∨
      ∃ t, s.commit c = .mark t ∧ s'.wbTxg = s.wbTxg ∧ (s'.txg t).state = .wbing ∧
        ∀ u, u ≠ t → (s'.txg u).state = (s.txg u).state := by
  cases move with
  | lock t stage free => exact Or.inl ⟨setTxg_same SharedTxg.state rfl, Or.inl rfl⟩
  | unlock t goes stage => exact Or.inl ⟨setTxg_same SharedTxg.state rfl, Or.inl rfl⟩
  | walk t x rest stage list => exact Or.inl ⟨setTxg_same SharedTxg.state rfl, Or.inl rfl⟩
  | clear t stage => exact Or.inl ⟨fun _ => rfl, Or.inr ⟨t, stage, rfl⟩⟩
  | mark t stage =>
    refine Or.inr ⟨t, stage, rfl, ?_, fun u other => ?_⟩
    · simp [TxgSystem.committing, TxgSystem.setTxg]
    · simp [TxgSystem.committing, TxgSystem.setTxg, other]
  | _ => exact Or.inl ⟨fun _ => rfl, Or.inl rfl⟩

omit [DecidableEq ι] in
theorem Switching.of_commit {c : κ} (switching : Switching s) (claimed : Claimed s)
    (move : CommitMove s c s') : Switching s' := by
  have frame := move.frame
  rcases move.state with ⟨state, same | ⟨t, stage, none⟩⟩ | ⟨t, stage, same, -, others⟩
  · exact switching.unchanged frame.switcher frame.openTxg same frame.miTxg state frame.txg
  · -- the pointer is cleared by the thread that has the group in write-back
    have wb := claimed.clears c t (by rw [stage]; rfl)
    have marked := claimed.state c t (by rw [stage]; rfl)
    refine ⟨?_, fun _ => none, fun closing => ?_, ?_, fun _ u is => ?_, ?_, ?_, ?_, ?_,
      fun _ u is => ?_⟩
    · rw [frame.switcher, frame.openTxg, state]
      exact switching.opened
    · rw [frame.switcher] at closing
      have opened : s.switcher.closed = false := by
        cases at_ : s.switcher <;> rw [at_] at closing <;> first | rfl | cases closing
      have open_ := switching.opened opened
      rw [← Option.some.inj (wb.symm.trans (switching.closing closing)), marked] at open_
      cases open_
    · rw [frame.switcher, frame.openTxg]
      exact switching.target
    · rw [none] at is
      cases is
    · intro nt is
      rw [frame.switcher] at is
      rw [frame.openTxg, state]
      exact switching.new nt is
    · rw [frame.switcher, frame.openTxg, frame.miTxg, frame.txg]
      exact switching.uncounted
    · intro nt is
      rw [frame.switcher] at is
      rw [frame.openTxg, frame.miTxg, frame.txg]
      exact switching.number nt is
    · intro nt is
      rw [frame.switcher] at is
      rw [frame.openTxg, frame.miTxg, frame.txg, frame.txg]
      exact switching.numbered nt is
    · rw [none] at is
      cases is
  · -- the group that is marked is neither the open one nor the new one
    have wb := claimed.mark c t stage
    refine ⟨fun opened => ?_, ?_, ?_, ?_, ?_, fun nt is => ?_, ?_, ?_, ?_, fun is u back => ?_⟩
    · rw [frame.switcher] at opened
      have open_ := switching.opened opened
      rw [frame.openTxg, others s.openTxg fun here => ?_]
      · exact open_
      · rw [here, wb] at open_
        cases open_
    · rw [frame.switcher, same]
      exact switching.free
    · rw [frame.switcher, frame.openTxg, same]
      exact switching.closing
    · rw [frame.switcher, frame.openTxg]
      exact switching.target
    · rw [frame.switcher, frame.openTxg, same]
      exact switching.closed
    · rw [frame.switcher] at is
      obtain ⟨other, open_⟩ := switching.new nt is
      rw [frame.openTxg, others nt fun here => ?_]
      · exact ⟨other, open_⟩
      · rw [here, wb] at open_
        cases open_
    · rw [frame.switcher, frame.openTxg, frame.miTxg, frame.txg]
      exact switching.uncounted
    · intro nt is
      rw [frame.switcher] at is
      rw [frame.openTxg, frame.miTxg, frame.txg]
      exact switching.number nt is
    · intro nt is
      rw [frame.switcher] at is
      rw [frame.openTxg, frame.miTxg, frame.txg, frame.txg]
      exact switching.numbered nt is
    · rw [frame.switcher] at is
      rw [same] at back
      rw [frame.openTxg, frame.txg, frame.txg]
      exact switching.behind is u back

omit [DecidableEq ι] [DecidableEq κ] in
theorem Switching.of_switch (switching : Switching s) (allocated : Allocated s)
    (move : SwitchMove s s') : Switching s' := by
  cases move with
  | begins stage free =>
    exact ⟨fun _ => switching.opened (by rw [stage]; rfl), (by rintro ⟨⟩), (by rintro ⟨⟩),
      (by rintro _ _ ⟨⟩), (by rintro ⟨⟩), (by rintro _ ⟨⟩),
      fun _ => switching.uncounted (by rw [stage]; rfl), (by rintro _ ⟨⟩), (by rintro _ ⟨⟩),
      fun _ => switching.behind (by rw [stage]; rfl)⟩
  | returns stage => exact switching
  | alloc stage =>
    have old : ∀ t, t < s.total → (s.setTxg s.total (SharedTxg.zero κ)).txg t = s.txg t :=
      fun t earlier => Function.update_of_ne (Nat.ne_of_lt earlier) _ _
    have opened := old s.openTxg allocated.opened
    refine ⟨fun _ => ?_, (by rintro ⟨⟩), (by rintro ⟨⟩), (by rintro _ _ ⟨⟩), (by rintro ⟨⟩),
      fun nt is => ?_, fun _ => ?_, (by rintro _ ⟨⟩), (by rintro _ ⟨⟩),
      fun _ t wb => ?_⟩
    · exact (congrArg SharedTxg.state opened).trans (switching.opened (by rw [stage]; rfl))
    · obtain rfl := Option.some.inj is
      refine ⟨Nat.ne_of_gt allocated.opened, ?_⟩
      simp [TxgSystem.setTxg, SharedTxg.zero]
    · exact (switching.uncounted (by rw [stage]; rfl)).trans
        (congrArg SharedTxg.txg opened).symm
    · have number := switching.behind (by rw [stage]; rfl) t wb
      rw [← opened, ← old t (allocated.wb t wb)] at number
      exact number
  | noMemory stage =>
    exact ⟨fun _ => switching.opened (by rw [stage]; rfl), (by rintro ⟨⟩), (by rintro ⟨⟩),
      (by rintro _ _ ⟨⟩), (by rintro ⟨⟩), (by rintro _ ⟨⟩),
      fun _ => switching.uncounted (by rw [stage]; rfl), (by rintro _ ⟨⟩), (by rintro _ ⟨⟩),
      fun _ => switching.behind (by rw [stage]; rfl)⟩
  | assertFree nt stage free =>
    exact ⟨fun _ => switching.opened (by rw [stage]; rfl), fun _ => free, (by rintro ⟨⟩),
      (by rintro _ _ ⟨⟩), (by rintro ⟨⟩),
      fun u is => switching.new u (by rw [stage]; exact is),
      fun _ => switching.uncounted (by rw [stage]; rfl), (by rintro _ ⟨⟩),
      (by rintro _ ⟨⟩), (by rintro ⟨⟩)⟩
  | count nt stage =>
    refine ⟨fun _ => switching.opened (by rw [stage]; rfl),
      fun _ => switching.free (by rw [stage]; rfl), (by rintro ⟨⟩),
      (by rintro _ _ ⟨⟩), (by rintro ⟨⟩),
      fun u is => switching.new u (by rw [stage]; exact is), (by rintro ⟨⟩), fun u _ => ?_,
      (by rintro _ ⟨⟩), (by rintro ⟨⟩)⟩
    rw [switching.uncounted (by rw [stage]; rfl)]
  | number nt stage =>
    obtain ⟨other, open_⟩ := switching.new nt (by rw [stage]; rfl)
    have number := switching.number nt stage
    have states : ∀ t, ((s.setTxg nt { s.txg nt with txg := s.miTxg }).txg t).state =
        (s.txg t).state := setTxg_same SharedTxg.state rfl
    refine ⟨fun _ => ?_, fun _ => switching.free (by rw [stage]; rfl), (by rintro ⟨⟩),
      (by rintro _ _ ⟨⟩), (by rintro ⟨⟩),
      fun u is => ?_, (by rintro ⟨⟩), (by rintro _ ⟨⟩), fun u is => ?_, (by rintro ⟨⟩)⟩
    · exact (states s.openTxg).trans (switching.opened (by rw [stage]; rfl))
    · obtain rfl := Option.some.inj is
      exact ⟨other, (states nt).trans open_⟩
    · obtain rfl := Option.some.inj is
      simp only [TxgSystem.setTxg, Function.update_self, Function.update_of_ne (Ne.symm other)]
      exact ⟨number, trivial⟩
  | get nt stage =>
    obtain ⟨other, open_⟩ := switching.new nt (by rw [stage]; rfl)
    have numbers := switching.numbered nt (by rw [stage]; rfl)
    have same : ∀ t, ((s.pend s.openTxg 1).txg t).txg = (s.txg t).txg :=
      setTxg_same SharedTxg.txg rfl
    have states : ∀ t, ((s.pend s.openTxg 1).txg t).state = (s.txg t).state :=
      setTxg_same SharedTxg.state rfl
    refine ⟨fun _ => ?_, fun _ => switching.free (by rw [stage]; rfl), (by rintro ⟨⟩),
      (by rintro _ _ ⟨⟩), (by rintro ⟨⟩),
      fun u is => ?_, (by rintro ⟨⟩), (by rintro _ ⟨⟩), fun u is => ?_, (by rintro ⟨⟩)⟩
    · exact (states s.openTxg).trans (switching.opened (by rw [stage]; rfl))
    · obtain rfl := Option.some.inj is
      exact ⟨other, (states nt).trans open_⟩
    · obtain rfl := Option.some.inj is
      rw [← same nt, ← same s.openTxg] at numbers
      exact numbers
  | setWb nt stage =>
    exact ⟨fun _ => switching.opened (by rw [stage]; rfl), (by rintro ⟨⟩), fun _ => rfl,
      (by rintro _ _ ⟨⟩), (by rintro ⟨⟩),
      fun u is => switching.new u (by rw [stage]; exact is), (by rintro ⟨⟩), (by rintro _ ⟨⟩),
      fun u is => switching.numbered u (by rw [stage]; exact is), (by rintro ⟨⟩)⟩
  | loadWb nt t stage wb =>
    have here := switching.closing (by rw [stage]; rfl)
    refine ⟨fun _ => switching.opened (by rw [stage]; rfl), (by rintro ⟨⟩), fun _ => here,
      fun u v is => ?_,
      (by rintro ⟨⟩), fun u is => switching.new u (by rw [stage]; exact is), (by rintro ⟨⟩),
      (by rintro _ ⟨⟩),
      fun u is => switching.numbered u (by rw [stage]; exact is), (by rintro ⟨⟩)⟩
    obtain ⟨-, rfl⟩ := SwitchStage.setState.inj is
    exact Option.some.inj (wb.symm.trans here)
  | setState nt t stage =>
    obtain rfl := switching.target nt t stage
    obtain ⟨other, open_⟩ := switching.new nt (by rw [stage]; rfl)
    obtain ⟨number, last⟩ := switching.numbered nt (by rw [stage]; rfl)
    have here := switching.closing (by rw [stage]; rfl)
    refine ⟨(by rintro ⟨⟩), (by rintro ⟨⟩), (by rintro ⟨⟩), (by rintro _ _ ⟨⟩),
      fun _ t wb => Option.some.inj (wb.symm.trans here),
      fun u is => ?_, (by rintro ⟨⟩), (by rintro _ ⟨⟩), fun u is => ?_, (by rintro ⟨⟩)⟩
    · obtain rfl := Option.some.inj is
      simp only [TxgSystem.setTxg, Function.update_of_ne other]
      exact ⟨other, open_⟩
    · obtain rfl := Option.some.inj is
      simp only [TxgSystem.setTxg, Function.update_self, Function.update_of_ne other]
      exact ⟨number, last⟩
  | put nt stage =>
    obtain ⟨other, open_⟩ := switching.new nt (by rw [stage]; rfl)
    have numbers := switching.numbered nt (by rw [stage]; rfl)
    have same : ∀ t, ((s.pend s.openTxg (-1)).txg t).txg = (s.txg t).txg :=
      setTxg_same SharedTxg.txg rfl
    have states : ∀ t, ((s.pend s.openTxg (-1)).txg t).state = (s.txg t).state :=
      setTxg_same SharedTxg.state rfl
    refine ⟨(by rintro ⟨⟩), (by rintro ⟨⟩), (by rintro ⟨⟩), (by rintro _ _ ⟨⟩),
      fun _ => switching.closed (by rw [stage]; rfl),
      fun u is => ?_, (by rintro ⟨⟩), (by rintro _ ⟨⟩), fun u is => ?_, (by rintro ⟨⟩)⟩
    · obtain rfl := Option.some.inj is
      exact ⟨other, (states nt).trans open_⟩
    · obtain rfl := Option.some.inj is
      rw [← same nt, ← same s.openTxg] at numbers
      exact numbers
  | setOpen nt stage =>
    obtain ⟨other, open_⟩ := switching.new nt (by rw [stage]; rfl)
    obtain ⟨number, last⟩ := switching.numbered nt (by rw [stage]; rfl)
    refine ⟨fun _ => open_, (by rintro ⟨⟩), (by rintro ⟨⟩), (by rintro _ _ ⟨⟩), (by rintro ⟨⟩),
      (by rintro _ ⟨⟩), fun _ => last, (by rintro _ ⟨⟩), (by rintro _ ⟨⟩),
      fun _ t wb => ?_⟩
    rw [switching.closed (by rw [stage]; rfl) t wb]
    exact number.symm

end Order

/-! ### A group is written back by one commit thread -/

section Claims

theorem CommitStage.claimed_of_waiting {stage : CommitStage} {t : Nat}
    (waiting : stage.waiting = some t) : stage.claimed = some t := by
  cases stage with
  | unlock u goes => cases goes <;> exact waiting
  | wait u | compare u => exact waiting
  | _ => cases waiting

theorem CommitStage.claimed_of_clears {stage : CommitStage} {t : Nat}
    (clears : stage.clears = some t) : stage.claimed = some t := by
  cases stage with
  | unlock u goes => cases goes <;> exact clears
  | wait u | compare u | walk u | clear u => exact clears
  | _ => cases clears

theorem CommitStage.claimed_of_passed {stage : CommitStage} {t : Nat}
    (passed : stage.passed = some t) : stage.claimed = some t := by
  cases stage with
  | walk u | clear u | trigger u => exact passed
  | _ => cases passed

theorem CommitStage.group_of_claimed {stage : CommitStage} {t : Nat}
    (claimed : stage.claimed = some t) : stage.group = some t := by
  cases stage with
  | unlock u goes => cases goes <;> first | exact claimed | cases claimed
  | wait u | compare u | walk u | clear u | trigger u => exact claimed
  | _ => cases claimed

theorem CommitStage.group_of_locked {stage : CommitStage} {t : Nat}
    (locked : stage.locked = some t) : stage.group = some t := by
  cases stage with
  | test u | mark u | unlock u _ => exact locked
  | _ => cases locked

variable {ι κ : Type} [DecidableEq ι] [DecidableEq κ] {s s' : TxgSystem ι κ}

omit [DecidableEq ι] [DecidableEq κ] in
/-- A step of another thread that leaves the states, the locks and the write-back pointer. -/
theorem Claimed.unchanged (claimed : Claimed s) (allocated : Allocated s)
    (commit : s'.commit = s.commit) (walks : s'.walks = s.walks) (wbTxg : s'.wbTxg = s.wbTxg)
    (state : ∀ t, t < s.total → (s'.txg t).state = (s.txg t).state)
    (owner : ∀ t, t < s.total → (s'.txg t).owner = (s.txg t).owner)
    (fresh : ∀ t, (s'.txg t).state = .wb → (s.txg t).state = .wb)
    (held : ∀ i, ∀ t ∈ (s'.thread i).held, t ∈ (s.thread i).held ∨ (s.txg t).state = .opened) :
    Claimed s' := by
  have known : ∀ c t, (s.commit c).claimed = some t → t < s.total :=
    fun c t is => allocated.commit c t (CommitStage.group_of_claimed is)
  refine ⟨fun c t is => ?_, fun c t is => ?_, fun c t is => ?_, ?_, ?_, ?_, fun t member => ?_, ?_,
    fun t is => ?_, fun i t member => ?_⟩
  · rw [commit] at is
    rw [owner t (allocated.commit c t (CommitStage.group_of_locked is))]
    exact claimed.owner c t is
  · rw [commit] at is
    rw [state t (allocated.commit c t (by rw [is]; rfl))]
    exact claimed.mark c t is
  · rw [commit] at is
    rw [state t (known c t is)]
    exact claimed.state c t is
  · rw [commit]
    exact claimed.single
  · rw [commit, wbTxg]
    exact claimed.clears
  · rw [commit, walks]
    exact claimed.walked
  · rw [walks] at member
    rw [state t (allocated.walks t member), commit]
    exact claimed.walks t member
  · rw [walks]
    exact claimed.once
  · rw [wbTxg]
    exact claimed.wb t (fresh t is)
  · rw [walks]
    rcases held i t member with old | opened
    · exact claimed.held i t old
    · intro walked
      rw [(claimed.walks t walked).1] at opened
      cases opened

omit [DecidableEq κ] in
theorem Claimed.of_thread {i : ι} (claimed : Claimed s) (allocated : Allocated s)
    (move : ThreadMove s i s') : Claimed s' := by
  have frame := move.frame
  obtain ⟨others, -, held⟩ := move.thread
  refine claimed.unchanged allocated frame.commit frame.walks frame.wbTxg (fun t _ => frame.state t)
    (fun t _ => frame.owner t) (fun t is => by rw [frame.state] at is; exact is)
    fun j t member => ?_
  by_cases same : j = i
  · rw [same] at member ⊢
    exact (held t member).imp_right And.right
  · rw [others j same] at member
    exact Or.inl member

omit [DecidableEq ι] [DecidableEq κ] in
theorem Claimed.of_switch (claimed : Claimed s) (allocated : Allocated s) (switching : Switching s)
    (move : SwitchMove s s') : Claimed s' := by
  -- a step that changes neither the write-back pointer nor the states
  have same : ∀ {after : TxgSystem ι κ}, after.commit = s.commit → after.walks = s.walks →
      after.wbTxg = s.wbTxg → after.thread = s.thread →
      (∀ t, (after.txg t).state = (s.txg t).state) →
      (∀ t, (after.txg t).owner = (s.txg t).owner) → Claimed after := by
    intro after commit walks wbTxg thread state owner
    exact claimed.unchanged allocated commit walks wbTxg (fun t _ => state t) (fun t _ => owner t)
      (fun t is => by rw [state] at is; exact is) fun i t member => by
        rw [thread] at member
        exact Or.inl member
  cases move with
  | begins stage free => exact same rfl rfl rfl rfl (fun _ => rfl) fun _ => rfl
  | returns stage => exact claimed
  | alloc stage =>
    have old : ∀ t, t < s.total → (s.setTxg s.total (SharedTxg.zero κ)).txg t = s.txg t :=
      fun t earlier => Function.update_of_ne (Nat.ne_of_lt earlier) _ _
    refine claimed.unchanged allocated rfl rfl rfl
      (fun t earlier => congrArg SharedTxg.state (old t earlier))
      (fun t earlier => congrArg SharedTxg.owner (old t earlier)) (fun t is => ?_)
      fun i t member => Or.inl member
    simp only [TxgSystem.setTxg, Function.update_apply] at is
    split at is
    · cases is
    · exact is
  | noMemory stage => exact same rfl rfl rfl rfl (fun _ => rfl) fun _ => rfl
  | assertFree nt stage free => exact same rfl rfl rfl rfl (fun _ => rfl) fun _ => rfl
  | count nt stage => exact same rfl rfl rfl rfl (fun _ => rfl) fun _ => rfl
  | number nt stage =>
    exact same rfl rfl rfl rfl (setTxg_same SharedTxg.state rfl) (setTxg_same SharedTxg.owner rfl)
  | get nt stage =>
    exact same rfl rfl rfl rfl (setTxg_same SharedTxg.state rfl) (setTxg_same SharedTxg.owner rfl)
  | setWb nt stage =>
    -- nothing was in write-back
    have none := switching.free (by rw [stage]; rfl)
    refine ⟨claimed.owner, claimed.mark, claimed.state, claimed.single, fun c t is => ?_,
      claimed.walked, claimed.walks, claimed.once, fun t is => ?_, claimed.held⟩
    · have was := claimed.clears c t is
      rw [none] at was
      cases was
    · have was := claimed.wb t is
      rw [none] at was
      cases was
  | loadWb nt t stage wb => exact same rfl rfl rfl rfl (fun _ => rfl) fun _ => rfl
  | setState nt t stage =>
    obtain rfl := switching.target nt t stage
    have here := switching.closing (by rw [stage]; rfl)
    have opened := switching.opened (by rw [stage]; rfl)
    have others : ∀ u, u ≠ s.openTxg →
        ((s.setTxg s.openTxg { s.txg s.openTxg with state := .wb }).txg u).state =
          (s.txg u).state := by
      intro u other
      simp [TxgSystem.setTxg, other]
    have apart : ∀ u, (s.txg u).state ≠ .opened → u ≠ s.openTxg := by
      rintro u closed rfl
      exact closed opened
    have owners : ∀ u, ((s.setTxg s.openTxg { s.txg s.openTxg with state := .wb }).txg u).owner =
        (s.txg u).owner := setTxg_same SharedTxg.owner rfl
    refine ⟨fun c u is => (owners u).trans (claimed.owner c u is), fun c u is => ?_,
      fun c u is => ?_, claimed.single, claimed.clears, claimed.walked, fun u member => ?_,
      claimed.once, fun u is => ?_, claimed.held⟩
    · have was := claimed.mark c u is
      exact (others u (apart u (by rw [was]; rintro ⟨⟩))).trans was
    · have was := claimed.state c u is
      exact (others u (apart u (by rw [was]; rintro ⟨⟩))).trans was
    · obtain ⟨was, waiting⟩ := claimed.walks u member
      exact ⟨(others u (apart u (by rw [was]; rintro ⟨⟩))).trans was, waiting⟩
    · by_cases same : u = s.openTxg
      · rw [same]
        exact here
      · exact claimed.wb u ((others u same).symm.trans is)
  | put nt stage =>
    exact same rfl rfl rfl rfl (setTxg_same SharedTxg.state rfl) (setTxg_same SharedTxg.owner rfl)
  | setOpen nt stage => exact same rfl rfl rfl rfl (fun _ => rfl) fun _ => rfl

omit [DecidableEq ι] in
/-- A commit thread goes on to a stage at which no more is said of it. -/
theorem Claimed.of_stage {c : κ} {old stage : CommitStage} (claimed : Claimed s)
    (was : s.commit c = old)
    (commit : s'.commit = Function.update s.commit c stage) (thread : s'.thread = s.thread)
    (walks : s'.walks = s.walks) (wbTxg : s'.wbTxg = s.wbTxg)
    (state : ∀ t, (s'.txg t).state = (s.txg t).state)
    (owner : ∀ d t, d ≠ c → (s.commit d).locked = some t → (s'.txg t).owner = some d)
    (locked : ∀ t, stage.locked = some t → (s'.txg t).owner = some c)
    (mark : ∀ t, stage = .mark t → (s.txg t).state = .wb)
    (before : ∀ t, stage.claimed = some t → old.claimed = some t)
    (clears : ∀ t, stage.clears = some t → old.clears = some t)
    (passed : ∀ t, stage.passed = some t → old.passed = some t)
    (waiting : ∀ t, stage.waiting = some t → old.waiting = some t) : Claimed s' := by
  subst was
  have here : s'.commit c = stage := by
    rw [commit, Function.update_self]
  have there : ∀ d, d ≠ c → s'.commit d = s.commit d := by
    intro d other
    rw [commit, Function.update_of_ne other]
  have claims : ∀ d t, (s'.commit d).claimed = some t → (s.commit d).claimed = some t := by
    intro d t is
    by_cases same : d = c
    · rw [same, here] at is
      rw [same]
      exact before t is
    · rw [there d same] at is
      exact is
  have waits : ∀ d t, (s'.commit d).waiting = some t → (s.commit d).waiting = some t := by
    intro d t is
    by_cases same : d = c
    · rw [same, here] at is
      rw [same]
      exact waiting t is
    · rw [there d same] at is
      exact is
  refine ⟨fun d t is => ?_, fun d t is => ?_, fun d t is => ?_, fun d e t first second => ?_,
    fun d t is => ?_, fun d t is => ?_, fun t member => ?_, ?_, fun t is => ?_, ?_⟩
  · by_cases same : d = c
    · rw [same, here] at is
      rw [same]
      exact locked t is
    · rw [there d same] at is
      exact owner d t same is
  · rw [state]
    by_cases same : d = c
    · rw [same, here] at is
      exact mark t is
    · rw [there d same] at is
      exact claimed.mark d t is
  · rw [state]
    exact claimed.state d t (claims d t is)
  · exact claimed.single d e t (claims d t first) (claims e t second)
  · rw [wbTxg]
    by_cases same : d = c
    · rw [same, here] at is
      exact claimed.clears c t (clears t is)
    · rw [there d same] at is
      exact claimed.clears d t is
  · rw [walks]
    by_cases same : d = c
    · rw [same, here] at is
      exact claimed.walked c t (passed t is)
    · rw [there d same] at is
      exact claimed.walked d t is
  · rw [walks] at member
    rw [state]
    obtain ⟨was, none⟩ := claimed.walks t member
    exact ⟨was, fun d is => none d (waits d t is)⟩
  · rw [walks]
    exact claimed.once
  · rw [state] at is
    rw [wbTxg]
    exact claimed.wb t is
  · rw [thread, walks]
    exact claimed.held

omit [DecidableEq ι] in
/-- A commit thread goes on to a stage at which it has no group in write-back. -/
theorem Claimed.of_unclaimed {c : κ} {stage : CommitStage} (claimed : Claimed s)
    (commit : s'.commit = Function.update s.commit c stage) (thread : s'.thread = s.thread)
    (walks : s'.walks = s.walks) (wbTxg : s'.wbTxg = s.wbTxg)
    (state : ∀ t, (s'.txg t).state = (s.txg t).state)
    (owner : ∀ d t, d ≠ c → (s.commit d).locked = some t → (s'.txg t).owner = some d)
    (locked : ∀ t, stage.locked = some t → (s'.txg t).owner = some c)
    (mark : ∀ t, stage = .mark t → (s.txg t).state = .wb)
    (unclaimed : ∀ t, stage.claimed ≠ some t) : Claimed s' :=
  claimed.of_stage rfl commit thread walks wbTxg state owner locked mark
    (fun t is => absurd is (unclaimed t))
    (fun t is => absurd (CommitStage.claimed_of_clears is) (unclaimed t))
    (fun t is => absurd (CommitStage.claimed_of_passed is) (unclaimed t))
    (fun t is => absurd (CommitStage.claimed_of_waiting is) (unclaimed t))

omit [DecidableEq ι] in
/-- `TXG_STATE_WBING` is assigned under the lock, by a thread that has seen `TXG_STATE_WB`. -/
theorem Claimed.of_mark {c : κ} {t : Nat} (claimed : Claimed s) (stage : s.commit c = .mark t)
    (commit : s'.commit = Function.update s.commit c (.unlock t true))
    (thread : s'.thread = s.thread) (walks : s'.walks = s.walks) (wbTxg : s'.wbTxg = s.wbTxg)
    (marked : (s'.txg t).state = .wbing)
    (others : ∀ u, u ≠ t → (s'.txg u).state = (s.txg u).state)
    (owners : ∀ u, (s'.txg u).owner = (s.txg u).owner) : Claimed s' := by
  have wb := claimed.mark c t stage
  have locked := claimed.owner c t (by rw [stage]; rfl)
  have unclaimed : ∀ d, (s.commit d).claimed ≠ some t := by
    intro d is
    have was := claimed.state d t is
    rw [wb] at was
    cases was
  have states : ∀ u, (s.txg u).state = .wbing → (s'.txg u).state = .wbing := by
    intro u was
    by_cases same : u = t
    · rw [same]
      exact marked
    · exact (others u same).trans was
  have here : s'.commit c = .unlock t true := by
    rw [commit, Function.update_self]
  have there : ∀ d, d ≠ c → s'.commit d = s.commit d := by
    intro d other
    rw [commit, Function.update_of_ne other]
  refine ⟨fun d u is => ?_, fun d u is => ?_, fun d u is => ?_,
    fun d e u first second => ?_, fun d u is => ?_, fun d u is => ?_, fun u member => ?_,
    by rw [walks]; exact claimed.once, fun u is => ?_, by rw [thread, walks]; exact claimed.held⟩
  · rw [owners]
    by_cases same : d = c
    · rw [same, here] at is
      obtain rfl := Option.some.inj is
      rw [same]
      exact locked
    · rw [there d same] at is
      exact claimed.owner d u is
  · by_cases same : d = c
    · rw [same, here] at is
      cases is
    · rw [there d same] at is
      -- another thread cannot be about to mark the group, whose lock is taken
      have apart : u ≠ t := by
        rintro rfl
        have owner := claimed.owner d u (by rw [is]; rfl)
        exact same (Option.some.inj (owner.symm.trans locked))
      exact (others u apart).trans (claimed.mark d u is)
  · by_cases same : d = c
    · rw [same, here] at is
      obtain rfl := Option.some.inj is
      exact marked
    · rw [there d same] at is
      exact states u (claimed.state d u is)
  · by_cases left : d = c
    · by_cases right : e = c
      · exact left.trans right.symm
      · rw [left, here] at first
        obtain rfl := Option.some.inj first
        rw [there e right] at second
        exact absurd second (unclaimed e)
    · rw [there d left] at first
      by_cases right : e = c
      · rw [right, here] at second
        obtain rfl := Option.some.inj second
        exact absurd first (unclaimed d)
      · rw [there e right] at second
        exact claimed.single d e u first second
  · rw [wbTxg]
    by_cases same : d = c
    · rw [same, here] at is
      obtain rfl := Option.some.inj is
      exact claimed.wb t wb
    · rw [there d same] at is
      exact claimed.clears d u is
  · rw [walks]
    by_cases same : d = c
    · rw [same, here] at is
      cases is
    · rw [there d same] at is
      exact claimed.walked d u is
  · rw [walks] at member
    obtain ⟨was, none⟩ := claimed.walks u member
    refine ⟨states u was, fun d is => ?_⟩
    by_cases same : d = c
    · rw [same, here] at is
      obtain rfl := Option.some.inj is
      rw [wb] at was
      cases was
    · rw [there d same] at is
      exact none d is
  · rw [wbTxg]
    by_cases same : u = t
    · rw [same, marked] at is
      cases is
    · exact claimed.wb u ((others u same).symm.trans is)

omit [DecidableEq ι] in
/-- A commit thread gets past its wait when no thread holds the group. -/
theorem Claimed.of_pass {c : κ} {t : Nat} (claimed : Claimed s) (stage : s.commit c = .wait t)
    (unheld : ∀ i, t ∉ (s.thread i).held) :
    Claimed { s.committing c (.walk t) with walks := s.walks ++ [t] } := by
  have own : (s.commit c).claimed = some t := by rw [stage]; rfl
  have fresh : t ∉ s.walks := fun member =>
    (claimed.walks t member).2 c (by rw [stage]; rfl)
  have here : Function.update s.commit c (.walk t) c = .walk t := Function.update_self c _ s.commit
  have there : ∀ d, d ≠ c → Function.update s.commit c (.walk t) d = s.commit d :=
    fun d other => Function.update_of_ne other _ _
  have claims : ∀ d u, (Function.update s.commit c (.walk t) d).claimed = some u →
      (s.commit d).claimed = some u := by
    intro d u is
    by_cases same : d = c
    · rw [same, here] at is
      rw [same, own]
      exact is
    · rw [there d same] at is
      exact is
  refine ⟨fun d u is => ?_, fun d u is => ?_, fun d u is => claimed.state d u (claims d u is),
    fun d e u first second => claimed.single d e u (claims d u first) (claims e u second),
    fun d u is => ?_, fun d u is => ?_, fun u member => ?_, ?_, claimed.wb, fun i u member => ?_⟩
  · simp only [TxgSystem.committing] at is
    by_cases same : d = c
    · rw [same, here] at is
      cases is
    · rw [there d same] at is
      exact claimed.owner d u is
  · simp only [TxgSystem.committing] at is
    by_cases same : d = c
    · rw [same, here] at is
      cases is
    · rw [there d same] at is
      exact claimed.mark d u is
  · simp only [TxgSystem.committing] at is
    by_cases same : d = c
    · rw [same, here] at is
      exact claimed.clears c u (by rw [stage]; exact is)
    · rw [there d same] at is
      exact claimed.clears d u is
  · simp only [TxgSystem.committing] at is
    by_cases same : d = c
    · rw [same, here] at is
      rw [← Option.some.inj is]
      exact List.mem_append_right _ (List.mem_singleton_self _)
    · rw [there d same] at is
      exact List.mem_append_left _ (claimed.walked d u is)
  · rcases List.mem_append.mp member with old | new
    · refine ⟨(claimed.walks u old).1, fun d is => ?_⟩
      simp only [TxgSystem.committing] at is
      by_cases same : d = c
      · rw [same, here] at is
        cases is
      · rw [there d same] at is
        exact (claimed.walks u old).2 d is
    · obtain rfl := List.mem_singleton.mp new
      refine ⟨claimed.state c u own, fun d is => ?_⟩
      simp only [TxgSystem.committing] at is
      by_cases same : d = c
      · rw [same, here] at is
        cases is
      · rw [there d same] at is
        exact same (claimed.single d c u (CommitStage.claimed_of_waiting is) own)
  · exact List.Nodup.append claimed.once (List.nodup_singleton _)
      (List.disjoint_singleton.mpr fresh)
  · intro walked
    rcases List.mem_append.mp walked with old | new
    · exact claimed.held i u member old
    · rw [List.mem_singleton.mp new] at member
      exact unheld i member

omit [DecidableEq ι] in
/-- The commit thread that has the group in write-back clears the pointer to it. -/
theorem Claimed.of_clear {c : κ} {t : Nat} (claimed : Claimed s) (stage : s.commit c = .clear t) :
    Claimed { s.committing c (.trigger t) with wbTxg := none } := by
  have wb := claimed.clears c t (by rw [stage]; rfl)
  have own : (s.commit c).claimed = some t := by rw [stage]; rfl
  have kept : Claimed (s.committing c (.trigger t)) := by
    exact claimed.of_stage stage rfl rfl rfl rfl (fun _ => rfl)
      (fun d u _ is => claimed.owner d u is) (by rintro _ ⟨⟩) (by rintro _ ⟨⟩) (fun _ is => is)
      (by rintro _ ⟨⟩) (fun _ is => is) (by rintro _ ⟨⟩)
  refine { kept with
    clears := fun d u is => ?_
    wb := fun u is => ?_ }
  · have same : d ≠ c := by
      rintro rfl
      simp only [TxgSystem.committing, Function.update_self] at is
      cases is
    simp only [TxgSystem.committing, Function.update_of_ne same] at is
    have here := Option.some.inj ((claimed.clears d u is).symm.trans wb)
    rw [here] at is
    exact absurd (claimed.single d c t (CommitStage.claimed_of_clears is) own) same
  · have here := Option.some.inj ((claimed.wb u is).symm.trans wb)
    have was := claimed.state c t own
    rw [← here] at was
    have := was.symm.trans is
    cases this

omit [DecidableEq ι] in
theorem Claimed.of_commit {c : κ} [Fintype ι] (claimed : Claimed s) (counted : Counted s)
    (move : CommitMove s c s') : Claimed s' := by
  have others : ∀ d t, d ≠ c → (s.commit d).locked = some t → (s.txg t).owner = some d :=
    fun d t _ is => claimed.owner d t is
  cases move with
  | nothing stage => exact claimed
  | load t stage wb =>
    exact claimed.of_unclaimed rfl rfl rfl rfl (fun _ => rfl) others (by rintro _ ⟨⟩)
      (by rintro _ ⟨⟩) (by rintro _ ⟨⟩)
  | lock t stage free =>
    refine claimed.of_unclaimed rfl rfl rfl rfl (setTxg_same SharedTxg.state rfl)
      (fun d u _ is => ?_) (fun u is => ?_) (by rintro _ ⟨⟩) (by rintro _ ⟨⟩)
    · have owner := claimed.owner d u is
      have apart : u ≠ t := by
        rintro rfl
        rw [free] at owner
        cases owner
      simpa [TxgSystem.committing, TxgSystem.setTxg, apart] using owner
    · obtain rfl := Option.some.inj is
      simp [TxgSystem.committing, TxgSystem.setTxg]
  | claims t stage state =>
    refine claimed.of_unclaimed rfl rfl rfl rfl (fun _ => rfl) others (fun u is => ?_)
      (fun u is => ?_) (by rintro _ ⟨⟩)
    · exact claimed.owner c u (by rw [stage]; exact is)
    · rw [← CommitStage.mark.inj is]
      exact state
  | leaves t stage =>
    refine claimed.of_unclaimed rfl rfl rfl rfl (fun _ => rfl) others (fun u is => ?_)
      (by rintro _ ⟨⟩) (by rintro _ ⟨⟩)
    exact claimed.owner c u (by rw [stage]; exact is)
  | mark t stage =>
    refine claimed.of_mark stage rfl rfl rfl rfl ?_ (fun u other => ?_)
      (setTxg_same SharedTxg.owner rfl)
    · simp [TxgSystem.committing, TxgSystem.setTxg]
    · simp [TxgSystem.committing, TxgSystem.setTxg, other]
  | unlock t goes stage =>
    have owner := claimed.owner c t (by rw [stage]; rfl)
    have apart : ∀ d u, d ≠ c → (s.commit d).locked = some u →
        ((s.setTxg t { s.txg t with owner := none }).txg u).owner = some d := by
      intro d u other is
      have own := claimed.owner d u is
      have different : u ≠ t := by
        rintro rfl
        exact other (Option.some.inj (own.symm.trans owner))
      simpa [TxgSystem.setTxg, different] using own
    cases goes with
    | false =>
      exact claimed.of_unclaimed rfl rfl rfl rfl (setTxg_same SharedTxg.state rfl) apart
        (by rintro _ ⟨⟩) (by rintro _ ⟨⟩) (by rintro _ ⟨⟩)
    | true =>
      exact claimed.of_stage stage rfl rfl rfl rfl (setTxg_same SharedTxg.state rfl) apart
        (by rintro _ ⟨⟩) (by rintro _ ⟨⟩) (fun _ is => is) (fun _ is => is) (by rintro _ ⟨⟩)
        fun _ is => is
  | passes t stage unused => exact claimed.of_pass stage (counted.held unused)
  | waits t stage =>
    exact claimed.of_stage stage rfl rfl rfl rfl (fun _ => rfl) others (by rintro _ ⟨⟩)
      (by rintro _ ⟨⟩) (fun _ is => is) (fun _ is => is) (by rintro _ ⟨⟩) fun _ is => is
  | compare t stage =>
    -- the write-back pointer has not moved on
    rw [if_pos (claimed.clears c t (by rw [stage]; rfl))]
    exact claimed.of_stage stage rfl rfl rfl rfl (fun _ => rfl) others (by rintro _ ⟨⟩)
      (by rintro _ ⟨⟩) (fun _ is => is) (fun _ is => is) (by rintro _ ⟨⟩) fun _ is => is
  | walk t x rest stage list =>
    have owners : ∀ u, ((s.setTxg t { s.txg t with dirtyList := rest }).txg u).owner =
        (s.txg u).owner := setTxg_same SharedTxg.owner rfl
    refine claimed.of_stage rfl (Function.update_eq_self c s.commit).symm rfl rfl rfl
      (setTxg_same SharedTxg.state rfl) (fun d u _ is => ?_) (fun u is => ?_)
      (fun u is => claimed.mark c u is) (fun _ is => is) (fun _ is => is) (fun _ is => is)
      fun _ is => is
    · exact (owners u).trans (claimed.owner d u is)
    · exact (owners u).trans (claimed.owner c u is)
  | walked t stage =>
    exact claimed.of_stage stage rfl rfl rfl rfl (fun _ => rfl) others (by rintro _ ⟨⟩)
      (by rintro _ ⟨⟩) (fun _ is => is) (fun _ is => is) (fun _ is => is) (by rintro _ ⟨⟩)
  | clear t stage => exact claimed.of_clear stage
  | trigger t stage =>
    exact claimed.of_unclaimed rfl rfl rfl rfl (fun _ => rfl) others (by rintro _ ⟨⟩)
      (by rintro _ ⟨⟩) (by rintro _ ⟨⟩)

end Claims

/-! ### The result -/

section Result

variable {ι κ : Type} [DecidableEq ι] [DecidableEq κ] [Fintype ι]

omit [DecidableEq ι] [DecidableEq κ] [Fintype ι] in
theorem init_allocated : Allocated (TxgSystem.init ι κ) where
  opened := Nat.zero_lt_one
  wb := fun _ is => nomatch is
  stage := fun _ _ is => nomatch is
  held := fun _ _ member => nomatch member
  new := fun _ is => nomatch is
  commit := fun _ _ is => nomatch is
  walks := fun _ member => nomatch member

omit [DecidableEq ι] [DecidableEq κ] in
theorem init_counted : Counted (TxgSystem.init ι κ) := by
  intro t
  have nothing : (TxgSystem.init ι κ).refs t = 0 := by
    simp [TxgSystem.refs, TxgSystem.init, TxgThread.refs, GetStage.counted, SwitchStage.counted]
  rw [nothing]
  rfl

omit [DecidableEq ι] [DecidableEq κ] [Fintype ι] in
theorem init_switching : Switching (TxgSystem.init ι κ) where
  opened := fun _ => rfl
  free := nofun
  closing := nofun
  target := nofun
  closed := nofun
  new := nofun
  uncounted := fun _ => rfl
  number := nofun
  numbered := nofun
  behind := fun _ _ wb => nomatch wb

omit [DecidableEq ι] [DecidableEq κ] [Fintype ι] in
theorem init_claimed : Claimed (TxgSystem.init ι κ) where
  owner := fun _ _ is => nomatch is
  mark := fun _ _ is => nomatch is
  state := fun _ _ is => nomatch is
  single := fun _ _ _ is => nomatch is
  clears := fun _ _ is => nomatch is
  walked := fun _ _ is => nomatch is
  walks := fun _ member => nomatch member
  once := List.nodup_nil
  wb := fun _ is => nomatch is
  held := fun _ _ member => nomatch member

end Result

end Hvfs
