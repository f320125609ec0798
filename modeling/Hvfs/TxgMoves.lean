/-
This file says once what the steps of the protocol of `TxgThreads` can do: what a
stage says about the groups, the branches of a step, and what a step of one thread
leaves as it is.
-/

import Hvfs.TxgThreads
import Mathlib.Data.List.Basic

namespace Hvfs

/-! ### What a stage says -/

/-- The group that a thread in `mds_get_open_txg` has read. -/
def GetStage.group : GetStage → Option Nat
  | .get t | .test t | .put t => some t
  | _ => none

/-- The group that it has counted a reference to. -/
def GetStage.counted : GetStage → Option Nat
  | .test t | .put t => some t
  | _ => none

/-- The references of a thread to the group `t`. -/
def TxgThread.refs (thread : TxgThread) (t : Nat) : Nat :=
  thread.held.count t + if thread.stage.counted = some t then 1 else 0

/-- The group that `txg_switch` has allocated. -/
def SwitchStage.new : SwitchStage → Option Nat
  | .idle | .alloc => none
  | .assertFree nt | .count nt | .number nt | .get nt | .setWb nt | .loadWb nt | .setState nt _
  | .put nt | .setOpen nt => some nt

/-- The new group has its number. -/
def SwitchStage.numbered : SwitchStage → Option Nat
  | .get nt | .setWb nt | .loadWb nt | .setState nt _ | .put nt | .setOpen nt => some nt
  | _ => none

/-- The number has not been counted up. -/
def SwitchStage.uncounted : SwitchStage → Bool
  | .idle | .alloc | .assertFree _ | .count _ => true
  | _ => false

/-- The write-back pointer has not been checked by the assertion. -/
def SwitchStage.unchecked : SwitchStage → Bool
  | .idle | .alloc | .assertFree _ => true
  | _ => false

/-- The write-back pointer is known to be null. -/
def SwitchStage.free : SwitchStage → Bool
  | .count _ | .number _ | .get _ | .setWb _ => true
  | _ => false

/-- The open group is in write-back, and still in the open state. -/
def SwitchStage.closing : SwitchStage → Bool
  | .loadWb _ | .setState _ _ => true
  | _ => false

/-- The open group is in the write-back state. -/
def SwitchStage.closed : SwitchStage → Bool
  | .put _ | .setOpen _ => true
  | _ => false

/-- `txg_switch` has counted a reference to the open group. -/
def SwitchStage.counted : SwitchStage → Bool
  | .setWb _ | .loadWb _ | .setState _ _ | .put _ => true
  | _ => false

/-- The group that a commit thread has read. -/
def CommitStage.group : CommitStage → Option Nat
  | .idle => none
  | .lock t | .test t | .mark t | .unlock t _ | .wait t | .compare t | .walk t | .clear t
  | .trigger t => some t

/-- The group whose lock a commit thread holds. -/
def CommitStage.locked : CommitStage → Option Nat
  | .test t | .mark t | .unlock t _ => some t
  | _ => none

/-- The group that a commit thread has in write-back, before and behind its wait. -/
def CommitStage.claimed : CommitStage → Option Nat
  | .unlock t true | .wait t | .compare t | .walk t | .clear t | .trigger t => some t
  | _ => none

/-- The group that a commit thread waits for. -/
def CommitStage.waiting : CommitStage → Option Nat
  | .unlock t true | .wait t | .compare t => some t
  | _ => none

/-- The group that a commit thread has got past the wait for. -/
def CommitStage.passed : CommitStage → Option Nat
  | .walk t | .clear t | .trigger t => some t
  | _ => none

/-- The group that a commit thread will clear from the write-back pointer. -/
def CommitStage.clears : CommitStage → Option Nat
  | .unlock t true | .wait t | .compare t | .walk t | .clear t => some t
  | _ => none

/-! ### The steps -/

section Moves

variable {ι κ : Type} [DecidableEq ι] [DecidableEq κ]

/-- The steps of the thread `i`, one constructor for each branch. -/
inductive ThreadMove (s : TxgSystem ι κ) (i : ι) : TxgSystem ι κ → Prop
  | call (stage : (s.thread i).stage = .idle) :
      ThreadMove s i (s.goOn i .read (s.thread i).held)
  | read (stage : (s.thread i).stage = .read) :
      ThreadMove s i (s.goOn i (.get s.openTxg) (s.thread i).held)
  | get (t : Nat) (stage : (s.thread i).stage = .get t) :
      ThreadMove s i ((s.pend t 1).goOn i (.test t) (s.thread i).held)
  | returned (t : Nat) (stage : (s.thread i).stage = .test t)
      (state : (s.txg t).state = .opened) :
      ThreadMove s i (s.goOn i .idle (t :: (s.thread i).held))
  | rejected (t : Nat) (stage : (s.thread i).stage = .test t)
      (state : (s.txg t).state ≠ .opened) :
      ThreadMove s i (s.goOn i (.put t) (s.thread i).held)
  | retry (t : Nat) (stage : (s.thread i).stage = .put t) :
      ThreadMove s i ((s.pend t (-1)).goOn i .read (s.thread i).held)
  | put (t : Nat) (stage : (s.thread i).stage = .idle) (held : t ∈ (s.thread i).held) :
      ThreadMove s i ((s.pend t (-1)).goOn i .idle ((s.thread i).held.erase t))
  | addDirty (t x : Nat) (stage : (s.thread i).stage = .idle) (held : t ∈ (s.thread i).held)
      (dirty : s.dirty x = true) : ThreadMove s i s
  | addItb (t x : Nat) (stage : (s.thread i).stage = .idle) (held : t ∈ (s.thread i).held)
      (clean : s.dirty x = false) :
      ThreadMove s i (s.setTxg t { s.txg t with dirtyList := (s.txg t).dirtyList ++ [x] })

/-- The steps in `txg_switch`. -/
inductive SwitchMove (s : TxgSystem ι κ) : TxgSystem ι κ → Prop
  | begins (stage : s.switcher = .idle) (free : s.wbTxg = none) :
      SwitchMove s { s with switcher := .alloc }
  | returns (stage : s.switcher = .idle) : SwitchMove s s
  | alloc (stage : s.switcher = .alloc) :
      SwitchMove s { s.setTxg s.total (SharedTxg.zero κ) with
        total := s.total + 1
        switcher := .assertFree s.total }
  | noMemory (stage : s.switcher = .alloc) : SwitchMove s { s with switcher := .idle }
  | assertFree (nt : Nat) (stage : s.switcher = .assertFree nt) (free : s.wbTxg = none) :
      SwitchMove s { s with switcher := .count nt }
  | count (nt : Nat) (stage : s.switcher = .count nt) :
      SwitchMove s { s with
        miTxg := s.miTxg + 1
        switcher := .number nt }
  | number (nt : Nat) (stage : s.switcher = .number nt) :
      SwitchMove s { s.setTxg nt { s.txg nt with txg := s.miTxg } with switcher := .get nt }
  | get (nt : Nat) (stage : s.switcher = .get nt) :
      SwitchMove s { s.pend s.openTxg 1 with switcher := .setWb nt }
  | setWb (nt : Nat) (stage : s.switcher = .setWb nt) :
      SwitchMove s { s with
        wbTxg := some s.openTxg
        switcher := .loadWb nt }
  | loadWb (nt t : Nat) (stage : s.switcher = .loadWb nt) (wb : s.wbTxg = some t) :
      SwitchMove s { s with switcher := .setState nt t }
  | setState (nt t : Nat) (stage : s.switcher = .setState nt t) :
      SwitchMove s { s.setTxg t { s.txg t with state := .wb } with switcher := .put nt }
  | put (nt : Nat) (stage : s.switcher = .put nt) :
      SwitchMove s { s.pend s.openTxg (-1) with switcher := .setOpen nt }
  | setOpen (nt : Nat) (stage : s.switcher = .setOpen nt) :
      SwitchMove s { s with
        openTxg := nt
        switcher := .idle }

/-- The steps of the commit thread `c`. -/
inductive CommitMove (s : TxgSystem ι κ) (c : κ) : TxgSystem ι κ → Prop
  | nothing (stage : s.commit c = .idle) : CommitMove s c s
  | load (t : Nat) (stage : s.commit c = .idle) (wb : s.wbTxg = some t) :
      CommitMove s c (s.committing c (.lock t))
  | lock (t : Nat) (stage : s.commit c = .lock t) (free : (s.txg t).owner = none) :
      CommitMove s c ((s.setTxg t { s.txg t with owner := some c }).committing c (.test t))
  | claims (t : Nat) (stage : s.commit c = .test t) (state : (s.txg t).state = .wb) :
      CommitMove s c (s.committing c (.mark t))
  | leaves (t : Nat) (stage : s.commit c = .test t) :
      CommitMove s c (s.committing c (.unlock t false))
  | mark (t : Nat) (stage : s.commit c = .mark t) :
      CommitMove s c
        ((s.setTxg t { s.txg t with state := .wbing }).committing c (.unlock t true))
  | unlock (t : Nat) (goes : Bool) (stage : s.commit c = .unlock t goes) :
      CommitMove s c ((s.setTxg t { s.txg t with owner := none }).committing c
        (if goes then .wait t else .idle))
  | passes (t : Nat) (stage : s.commit c = .wait t) (unused : (s.txg t).txPending = 0) :
      CommitMove s c { s.committing c (.walk t) with walks := s.walks ++ [t] }
  | waits (t : Nat) (stage : s.commit c = .wait t) : CommitMove s c (s.committing c (.compare t))
  | compare (t : Nat) (stage : s.commit c = .compare t) :
      CommitMove s c (s.committing c (if s.wbTxg = some t then .wait t else .idle))
  | walk (t x : Nat) (rest : List Nat) (stage : s.commit c = .walk t)
      (list : (s.txg t).dirtyList = x :: rest) :
      CommitMove s c (s.setTxg t { s.txg t with dirtyList := rest })
  | walked (t : Nat) (stage : s.commit c = .walk t) : CommitMove s c (s.committing c (.clear t))
  | clear (t : Nat) (stage : s.commit c = .clear t) :
      CommitMove s c { s.committing c (.trigger t) with wbTxg := none }
  | trigger (t : Nat) (stage : s.commit c = .trigger t) :
      CommitMove s c (s.committing c .idle)

variable {s s' : TxgSystem ι κ}

omit [DecidableEq κ] in
theorem getStep_move {i : ι} (stepped : getStep s i = some s') : ThreadMove s i s' := by
  unfold getStep at stepped
  cases stage : (s.thread i).stage with
  | idle => simp only [stage] at stepped; cases stepped
  | read => simp only [stage] at stepped; obtain rfl := Option.some.inj stepped; exact .read stage
  | get t => simp only [stage] at stepped; obtain rfl := Option.some.inj stepped; exact .get t stage
  | test t =>
    simp only [stage] at stepped
    split at stepped
    · rename_i state
      obtain rfl := Option.some.inj stepped
      exact .returned t stage state
    · rename_i state
      obtain rfl := Option.some.inj stepped
      exact .rejected t stage state
  | put t =>
    simp only [stage] at stepped; obtain rfl := Option.some.inj stepped; exact .retry t stage

omit [DecidableEq ι] [DecidableEq κ] in
theorem switchStep_move {memory : Bool} (stepped : switchStep s memory = some s') :
    SwitchMove s s' := by
  unfold switchStep at stepped
  cases stage : s.switcher with
  | idle =>
    simp only [stage] at stepped
    split at stepped
    · rename_i free
      obtain rfl := Option.some.inj stepped
      exact .begins stage free
    · obtain rfl := Option.some.inj stepped
      exact .returns stage
  | alloc =>
    simp only [stage] at stepped
    split at stepped
    · obtain rfl := Option.some.inj stepped
      exact .alloc stage
    · obtain rfl := Option.some.inj stepped
      exact .noMemory stage
  | assertFree nt =>
    simp only [stage] at stepped
    split at stepped
    · rename_i free
      obtain rfl := Option.some.inj stepped
      exact .assertFree nt stage free
    · cases stepped
  | count nt =>
    simp only [stage] at stepped; obtain rfl := Option.some.inj stepped; exact .count nt stage
  | number nt =>
    simp only [stage] at stepped; obtain rfl := Option.some.inj stepped; exact .number nt stage
  | get nt =>
    simp only [stage] at stepped; obtain rfl := Option.some.inj stepped; exact .get nt stage
  | setWb nt =>
    simp only [stage] at stepped; obtain rfl := Option.some.inj stepped; exact .setWb nt stage
  | loadWb nt =>
    simp only [stage] at stepped
    split at stepped
    · cases stepped
    · rename_i t wb
      obtain rfl := Option.some.inj stepped
      exact .loadWb nt t stage wb
  | setState nt t =>
    simp only [stage] at stepped; obtain rfl := Option.some.inj stepped; exact .setState nt t stage
  | put nt =>
    simp only [stage] at stepped; obtain rfl := Option.some.inj stepped; exact .put nt stage
  | setOpen nt =>
    simp only [stage] at stepped; obtain rfl := Option.some.inj stepped; exact .setOpen nt stage

omit [DecidableEq ι] in
theorem commitStep_move {c : κ} (stepped : commitStep s c = some s') : CommitMove s c s' := by
  unfold commitStep at stepped
  cases stage : s.commit c with
  | idle =>
    simp only [stage] at stepped
    split at stepped
    · obtain rfl := Option.some.inj stepped
      exact .nothing stage
    · rename_i t wb
      obtain rfl := Option.some.inj stepped
      exact .load t stage wb
  | lock t =>
    simp only [stage] at stepped
    split at stepped
    · rename_i free
      obtain rfl := Option.some.inj stepped
      exact .lock t stage free
    · cases stepped
  | test t =>
    simp only [stage] at stepped
    split at stepped
    · rename_i state
      obtain rfl := Option.some.inj stepped
      exact .claims t stage state
    · obtain rfl := Option.some.inj stepped
      exact .leaves t stage
  | mark t =>
    simp only [stage] at stepped; obtain rfl := Option.some.inj stepped; exact .mark t stage
  | unlock t goes =>
    simp only [stage] at stepped; obtain rfl := Option.some.inj stepped; exact .unlock t goes stage
  | wait t =>
    simp only [stage] at stepped
    split at stepped
    · rename_i unused
      obtain rfl := Option.some.inj stepped
      exact .passes t stage unused
    · obtain rfl := Option.some.inj stepped
      exact .waits t stage
  | compare t =>
    simp only [stage] at stepped; obtain rfl := Option.some.inj stepped; exact .compare t stage
  | walk t =>
    simp only [stage] at stepped
    split at stepped
    · obtain rfl := Option.some.inj stepped
      exact .walked t stage
    · rename_i x rest list
      obtain rfl := Option.some.inj stepped
      exact .walk t x rest stage list
  | clear t =>
    simp only [stage] at stepped; obtain rfl := Option.some.inj stepped; exact .clear t stage
  | trigger t =>
    simp only [stage] at stepped; obtain rfl := Option.some.inj stepped; exact .trigger t stage

/-- Every event is a step of a thread, of `txg_switch` or of a commit thread. -/
theorem txgEvent_move {event : TxgEvent ι κ} (stepped : txgEvent s event = some s') :
    (∃ i, ThreadMove s i s') ∨ SwitchMove s s' ∨ ∃ c, CommitMove s c s' := by
  cases event with
  | call i =>
    simp only [txgEvent] at stepped
    split at stepped
    · rename_i stage
      obtain rfl := Option.some.inj stepped
      exact Or.inl ⟨i, .call stage⟩
    · cases stepped
  | step i => exact Or.inl ⟨i, getStep_move stepped⟩
  | put i t =>
    simp only [txgEvent] at stepped
    split at stepped
    · rename_i allowed
      obtain rfl := Option.some.inj stepped
      exact Or.inl ⟨i, .put t allowed.1 allowed.2⟩
    · cases stepped
  | addItb i t x =>
    simp only [txgEvent] at stepped
    split at stepped
    · rename_i allowed
      split at stepped
      · rename_i dirty
        obtain rfl := Option.some.inj stepped
        exact Or.inl ⟨i, .addDirty t x allowed.1 allowed.2 dirty⟩
      · rename_i clean
        obtain rfl := Option.some.inj stepped
        exact Or.inl ⟨i, .addItb t x allowed.1 allowed.2 (Bool.eq_false_iff.mpr clean)⟩
    · cases stepped
  | switch memory => exact Or.inr (Or.inl (switchStep_move stepped))
  | commit c => exact Or.inr (Or.inr ⟨c, commitStep_move stepped⟩)

end Moves

/-! ### Groups are allocated before they are named -/

section Allocation

variable {ι κ : Type}

/-- Every group that is named has been allocated. -/
structure Allocated (s : TxgSystem ι κ) : Prop where
  opened : s.openTxg < s.total
  wb : ∀ t, s.wbTxg = some t → t < s.total
  stage : ∀ i t, (s.thread i).stage.group = some t → t < s.total
  held : ∀ i, ∀ t ∈ (s.thread i).held, t < s.total
  new : ∀ nt, s.switcher.new = some nt → nt < s.total
  commit : ∀ c t, (s.commit c).group = some t → t < s.total
  walks : ∀ t ∈ s.walks, t < s.total

variable [DecidableEq ι] [DecidableEq κ] {s s' : TxgSystem ι κ}

omit [DecidableEq ι] [DecidableEq κ] in
/-- A change of one group leaves in every group what it leaves in that one. -/
theorem setTxg_same {β : Sort*} (field : SharedTxg κ → β) {t : Nat} {txg : SharedTxg κ}
    (same : field txg = field (s.txg t)) (u : Nat) :
    field ((s.setTxg t txg).txg u) = field (s.txg u) := by
  simp only [TxgSystem.setTxg, Function.update_apply]
  split
  · rename_i here
    rw [here, same]
  · rfl

/-- What a step of a thread leaves as it is. -/
structure ThreadFrame (s s' : TxgSystem ι κ) : Prop where
  total : s'.total = s.total
  openTxg : s'.openTxg = s.openTxg
  wbTxg : s'.wbTxg = s.wbTxg
  miTxg : s'.miTxg = s.miTxg
  switcher : s'.switcher = s.switcher
  commit : s'.commit = s.commit
  walks : s'.walks = s.walks
  state : ∀ t, (s'.txg t).state = (s.txg t).state
  owner : ∀ t, (s'.txg t).owner = (s.txg t).owner
  txg : ∀ t, (s'.txg t).txg = (s.txg t).txg

omit [DecidableEq κ] in
theorem ThreadMove.frame {i : ι} (move : ThreadMove s i s') : ThreadFrame s s' := by
  have same : ThreadFrame s s :=
    ⟨rfl, rfl, rfl, rfl, rfl, rfl, rfl, fun _ => rfl, fun _ => rfl, fun _ => rfl⟩
  have pended : ∀ t change, ThreadFrame s (s.pend t change) := fun t change =>
    ⟨rfl, rfl, rfl, rfl, rfl, rfl, rfl, setTxg_same SharedTxg.state rfl,
      setTxg_same SharedTxg.owner rfl, setTxg_same SharedTxg.txg rfl⟩
  cases move with
  | call stage => exact { same with }
  | read stage => exact { same with }
  | get t stage => exact { pended t 1 with }
  | returned t stage state => exact { same with }
  | rejected t stage state => exact { same with }
  | retry t stage => exact { pended t (-1) with }
  | put t stage held => exact { pended t (-1) with }
  | addDirty t x stage held dirty => exact same
  | addItb t x stage held clean =>
    exact ⟨rfl, rfl, rfl, rfl, rfl, rfl, rfl, setTxg_same SharedTxg.state rfl,
      setTxg_same SharedTxg.owner rfl, setTxg_same SharedTxg.txg rfl⟩

omit [DecidableEq κ] in
/-- What a step of a thread does to the thread, and that it leaves the others. -/
theorem ThreadMove.thread {i : ι} (move : ThreadMove s i s') :
    (∀ j, j ≠ i → s'.thread j = s.thread j) ∧
      (∀ t, (s'.thread i).stage.group = some t →
        (s.thread i).stage.group = some t ∨ t = s.openTxg) ∧
      ∀ t ∈ (s'.thread i).held, t ∈ (s.thread i).held ∨
        (s.thread i).stage = .test t ∧ (s.txg t).state = .opened := by
  have others : ∀ {after : TxgSystem ι κ} {stage : GetStage} {held : List Nat},
      after.thread = Function.update s.thread i ⟨stage, held⟩ →
      ∀ j, j ≠ i → after.thread j = s.thread j := by
    intro after stage held is j other
    rw [is, Function.update_of_ne other]
  cases move with
  | call stage =>
    refine ⟨others rfl, ?_, ?_⟩ <;> simp only [TxgSystem.goOn, Function.update_self]
    · exact fun _ => nofun
    · exact fun _ => Or.inl
  | read stage =>
    refine ⟨others rfl, ?_, ?_⟩ <;> simp only [TxgSystem.goOn, Function.update_self]
    · exact fun t is => Or.inr (Option.some.inj is).symm
    · exact fun _ => Or.inl
  | get t stage =>
    refine ⟨others rfl, ?_, ?_⟩ <;> simp only [TxgSystem.goOn, Function.update_self, stage]
    · exact fun _ => Or.inl
    · exact fun _ => Or.inl
  | returned t stage state =>
    refine ⟨others rfl, ?_, ?_⟩ <;> simp only [TxgSystem.goOn, Function.update_self]
    · exact fun _ => nofun
    · intro u member
      rcases List.mem_cons.mp member with rfl | old
      · exact Or.inr ⟨stage, state⟩
      · exact Or.inl old
  | rejected t stage state =>
    refine ⟨others rfl, ?_, ?_⟩ <;> simp only [TxgSystem.goOn, Function.update_self, stage]
    · exact fun _ => Or.inl
    · exact fun _ => Or.inl
  | retry t stage =>
    refine ⟨others rfl, ?_, ?_⟩ <;> simp only [TxgSystem.goOn, Function.update_self]
    · exact fun _ => nofun
    · exact fun _ => Or.inl
  | put t stage held =>
    refine ⟨others rfl, ?_, ?_⟩ <;> simp only [TxgSystem.goOn, Function.update_self]
    · exact fun _ => nofun
    · exact fun _ member => Or.inl (List.mem_of_mem_erase member)
  | addDirty t x stage held dirty => exact ⟨fun _ _ => rfl, fun _ => Or.inl, fun _ => Or.inl⟩
  | addItb t x stage held clean => exact ⟨fun _ _ => rfl, fun _ => Or.inl, fun _ => Or.inl⟩

/-- What a step of a commit thread leaves as it is. -/
structure CommitFrame (s s' : TxgSystem ι κ) (c : κ) : Prop where
  total : s'.total = s.total
  openTxg : s'.openTxg = s.openTxg
  miTxg : s'.miTxg = s.miTxg
  switcher : s'.switcher = s.switcher
  thread : s'.thread = s.thread
  others : ∀ d, d ≠ c → s'.commit d = s.commit d
  txg : ∀ t, (s'.txg t).txg = (s.txg t).txg
  txPending : ∀ t, (s'.txg t).txPending = (s.txg t).txPending
  group : ∀ t, (s'.commit c).group = some t → (s.commit c).group = some t ∨ s.wbTxg = some t

omit [DecidableEq ι] in
theorem CommitMove.frame {c : κ} (move : CommitMove s c s') : CommitFrame s s' c := by
  have moved : ∀ {after : TxgSystem ι κ} {stage : CommitStage},
      after.total = s.total → after.openTxg = s.openTxg → after.miTxg = s.miTxg →
      after.switcher = s.switcher → after.thread = s.thread →
      after.commit = Function.update s.commit c stage →
      (∀ t, (after.txg t).txg = (s.txg t).txg) →
      (∀ t, (after.txg t).txPending = (s.txg t).txPending) →
      (∀ t, stage.group = some t → (s.commit c).group = some t ∨ s.wbTxg = some t) →
      CommitFrame s after c := by
    intro after stage total openTxg miTxg switcher thread commit txg txPending group
    refine ⟨total, openTxg, miTxg, switcher, thread, fun d other => ?_, txg, txPending, ?_⟩
    · rw [commit, Function.update_of_ne other]
    · rw [commit, Function.update_self]
      exact group
  cases move with
  | nothing stage =>
    exact ⟨rfl, rfl, rfl, rfl, rfl, fun _ _ => rfl, fun _ => rfl, fun _ => rfl, fun _ => Or.inl⟩
  | load t stage wb =>
    exact moved rfl rfl rfl rfl rfl rfl (fun _ => rfl) (fun _ => rfl)
      fun u is => Or.inr (by rw [wb]; exact is)
  | lock t stage free =>
    exact moved rfl rfl rfl rfl rfl rfl (setTxg_same SharedTxg.txg rfl)
      (setTxg_same SharedTxg.txPending rfl) fun u is => Or.inl (by rw [stage]; exact is)
  | claims t stage state =>
    exact moved rfl rfl rfl rfl rfl rfl (fun _ => rfl) (fun _ => rfl)
      fun u is => Or.inl (by rw [stage]; exact is)
  | leaves t stage =>
    exact moved rfl rfl rfl rfl rfl rfl (fun _ => rfl) (fun _ => rfl)
      fun u is => Or.inl (by rw [stage]; exact is)
  | mark t stage =>
    exact moved rfl rfl rfl rfl rfl rfl (setTxg_same SharedTxg.txg rfl)
      (setTxg_same SharedTxg.txPending rfl) fun u is => Or.inl (by rw [stage]; exact is)
  | unlock t goes stage =>
    refine moved rfl rfl rfl rfl rfl rfl (setTxg_same SharedTxg.txg rfl)
      (setTxg_same SharedTxg.txPending rfl) fun u is => ?_
    cases goes with
    | false => cases is
    | true => exact Or.inl (by rw [stage]; exact is)
  | passes t stage unused =>
    exact moved rfl rfl rfl rfl rfl rfl (fun _ => rfl) (fun _ => rfl)
      fun u is => Or.inl (by rw [stage]; exact is)
  | waits t stage =>
    exact moved rfl rfl rfl rfl rfl rfl (fun _ => rfl) (fun _ => rfl)
      fun u is => Or.inl (by rw [stage]; exact is)
  | compare t stage =>
    refine moved rfl rfl rfl rfl rfl rfl (fun _ => rfl) (fun _ => rfl) fun u is => ?_
    split at is
    · exact Or.inl (by rw [stage]; exact is)
    · cases is
  | walk t x rest stage list =>
    exact ⟨rfl, rfl, rfl, rfl, rfl, fun _ _ => rfl, setTxg_same SharedTxg.txg rfl,
      setTxg_same SharedTxg.txPending rfl, fun _ => Or.inl⟩
  | walked t stage =>
    exact moved rfl rfl rfl rfl rfl rfl (fun _ => rfl) (fun _ => rfl)
      fun u is => Or.inl (by rw [stage]; exact is)
  | clear t stage =>
    exact moved rfl rfl rfl rfl rfl rfl (fun _ => rfl) (fun _ => rfl)
      fun u is => Or.inl (by rw [stage]; exact is)
  | trigger t stage =>
    exact moved rfl rfl rfl rfl rfl rfl (fun _ => rfl) (fun _ => rfl) fun _ => nofun

omit [DecidableEq κ] in
theorem Allocated.of_thread {i : ι} (allocated : Allocated s) (move : ThreadMove s i s') :
    Allocated s' := by
  have frame := move.frame
  obtain ⟨others, group, held⟩ := move.thread
  refine ⟨?_, ?_, fun j t is => ?_, fun j t member => ?_, ?_, ?_, ?_⟩
  · rw [frame.openTxg, frame.total]
    exact allocated.opened
  · rw [frame.wbTxg, frame.total]
    exact allocated.wb
  · rw [frame.total]
    by_cases same : j = i
    · rw [same] at is
      rcases group t is with old | rfl
      · exact allocated.stage i t old
      · exact allocated.opened
    · rw [others j same] at is
      exact allocated.stage j t is
  · rw [frame.total]
    by_cases same : j = i
    · rw [same] at member
      rcases held t member with old | ⟨stage, -⟩
      · exact allocated.held i t old
      · exact allocated.stage i t (by rw [stage]; rfl)
    · rw [others j same] at member
      exact allocated.held j t member
  · rw [frame.switcher, frame.total]
    exact allocated.new
  · rw [frame.commit, frame.total]
    exact allocated.commit
  · rw [frame.walks, frame.total]
    exact allocated.walks

omit [DecidableEq ι] [DecidableEq κ] in
theorem Allocated.of_switch (allocated : Allocated s) (move : SwitchMove s s') :
    Allocated s' := by
  -- the groups that are named stay the same, but for the new one
  have same : ∀ {after : TxgSystem ι κ}, after.total = s.total → after.openTxg < s.total →
      (∀ t, after.wbTxg = some t → t < s.total) → after.thread = s.thread →
      (∀ nt, after.switcher.new = some nt → nt < s.total) → after.commit = s.commit →
      after.walks = s.walks → Allocated after := by
    intro after total opened wb thread new commit walks
    refine ⟨by rw [total]; exact opened, by rw [total]; exact wb, ?_, ?_, by rw [total]; exact new,
      ?_, ?_⟩
    · rw [thread, total]
      exact allocated.stage
    · rw [thread, total]
      exact allocated.held
    · rw [commit, total]
      exact allocated.commit
    · rw [walks, total]
      exact allocated.walks
  have new : ∀ {before after : SwitchStage}, s.switcher = before → after.new = before.new →
      ∀ nt, after.new = some nt → nt < s.total := by
    intro before after is kept nt named
    rw [kept, ← is] at named
    exact allocated.new nt named
  cases move with
  | begins stage free => exact same rfl allocated.opened allocated.wb rfl (fun _ => nofun) rfl rfl
  | returns stage => exact allocated
  | alloc stage =>
    have later : ∀ {t}, t < s.total → t < s.total + 1 := Nat.lt_succ_of_lt
    refine ⟨later allocated.opened, fun t is => later (allocated.wb t is),
      fun i t is => later (allocated.stage i t is), fun i t member => later
      (allocated.held i t member),
      fun nt is => ?_, fun c t is => later (allocated.commit c t is),
      fun t member => later (allocated.walks t member)⟩
    rw [← Option.some.inj is]
    exact Nat.lt_succ_self _
  | noMemory stage => exact same rfl allocated.opened allocated.wb rfl (fun _ => nofun) rfl rfl
  | assertFree nt stage free =>
    exact same rfl allocated.opened allocated.wb rfl (new stage rfl) rfl rfl
  | count nt stage => exact same rfl allocated.opened allocated.wb rfl (new stage rfl) rfl rfl
  | number nt stage => exact same rfl allocated.opened allocated.wb rfl (new stage rfl) rfl rfl
  | get nt stage => exact same rfl allocated.opened allocated.wb rfl (new stage rfl) rfl rfl
  | setWb nt stage =>
    refine same rfl allocated.opened (fun t is => ?_) rfl (new stage rfl) rfl rfl
    rw [← Option.some.inj is]
    exact allocated.opened
  | loadWb nt t stage wb => exact same rfl allocated.opened allocated.wb rfl (new stage rfl) rfl rfl
  | setState nt t stage => exact same rfl allocated.opened allocated.wb rfl (new stage rfl) rfl rfl
  | put nt stage => exact same rfl allocated.opened allocated.wb rfl (new stage rfl) rfl rfl
  | setOpen nt stage =>
    exact same rfl (allocated.new nt (by rw [stage]; rfl)) allocated.wb rfl (fun _ => nofun) rfl rfl

omit [DecidableEq ι] in
/-- What a step of a commit thread does to the write-back pointer and to the walks. -/
theorem CommitMove.words {c : κ} (move : CommitMove s c s') :
    (s'.wbTxg = s.wbTxg ∨ s'.wbTxg = none) ∧
      (s'.walks = s.walks ∨ ∃ t, s.commit c = .wait t ∧ s'.walks = s.walks ++ [t]) := by
  cases move with
  | passes t stage unused => exact ⟨Or.inl rfl, Or.inr ⟨t, stage, rfl⟩⟩
  | clear t stage => exact ⟨Or.inr rfl, Or.inl rfl⟩
  | _ => exact ⟨Or.inl rfl, Or.inl rfl⟩

omit [DecidableEq ι] in
theorem Allocated.of_commit {c : κ} (allocated : Allocated s) (move : CommitMove s c s') :
    Allocated s' := by
  have frame := move.frame
  obtain ⟨wb, walks⟩ := move.words
  refine ⟨?_, fun t is => ?_, ?_, ?_, ?_, fun d t is => ?_, fun t member => ?_⟩
  · rw [frame.openTxg, frame.total]
    exact allocated.opened
  · rw [frame.total]
    rcases wb with same | none
    · rw [same] at is
      exact allocated.wb t is
    · rw [none] at is
      cases is
  · rw [frame.thread, frame.total]
    exact allocated.stage
  · rw [frame.thread, frame.total]
    exact allocated.held
  · rw [frame.switcher, frame.total]
    exact allocated.new
  · rw [frame.total]
    by_cases same : d = c
    · rw [same] at is
      rcases frame.group t is with old | read
      · exact allocated.commit c t old
      · exact allocated.wb t read
    · rw [frame.others d same] at is
      exact allocated.commit d t is
  · rw [frame.total]
    rcases walks with same | ⟨u, stage, added⟩
    · rw [same] at member
      exact allocated.walks t member
    · rw [added, List.mem_append, List.mem_singleton] at member
      rcases member with old | rfl
      · exact allocated.walks t old
      · exact allocated.commit c t (by rw [stage]; rfl)

end Allocation

end Hvfs
