/-
This file determines when no thread touches a group that has been released.

`txg_put` has two reads and a signal left behind its decrement, and a thread that
has read the open pointer increments the count without looking. Here the rest of
`txg_put` is a *tail* of its own steps, which only read, and a group is *destroyed*
with the step of a commit thread that begins with `mcond_destroy`.
-/

import Hvfs.TxgHeld

namespace Hvfs

open Transition

/-! ### The system with the rest of `txg_put` -/

/-- What is left of `txg_put`: the test of the state, the test of the count, the signal. -/
inductive PutStage
  | state
  | count
  | signal
  deriving DecidableEq, Repr

/-- The system, the threads and `txg_switch` behind the decrement of some group, and the groups of
which the condition has been destroyed. -/
structure ReleaseSystem (ι κ : Type) where
  base : TxgSystem ι κ
  tail : ι → Option (Nat × PutStage)
  switchTail : Option (Nat × PutStage)
  destroyed : List Nat

def ReleaseSystem.init (ι κ : Type) : ReleaseSystem ι κ :=
  ⟨TxgSystem.init ι κ, fun _ => none, none, []⟩

/-- What may happen next: an event of the system, or a step in the rest of `txg_put`. -/
inductive ReleaseEvent (ι κ : Type)
  | base (event : TxgEvent ι κ)
  | tail (i : ι)
  | switchTail

section Steps

variable {ι κ : Type}

/-- The one who makes the step is behind a decrement. -/
def ReleaseSystem.busy (s : ReleaseSystem ι κ) : TxgEvent ι κ → Bool
  | .call i | .step i | .put i _ | .addItb i _ _ => (s.tail i).isSome
  | .switch _ => s.switchTail.isSome
  | .commit _ => false

/-- The groups that are destroyed when the event has happened. -/
def ReleaseSystem.destroys (s : ReleaseSystem ι κ) : TxgEvent ι κ → List Nat
  | .commit c =>
    match s.base.commit c with
    | .trigger t => t :: s.destroyed
    | _ => s.destroyed
  | _ => s.destroyed

/-- `txg_switch` has decremented. -/
def ReleaseSystem.switchPuts (s : ReleaseSystem ι κ) : TxgEvent ι κ → Option (Nat × PutStage)
  | .switch _ =>
    match s.base.switcher with
    | .put _ => some (s.base.openTxg, .state)
    | _ => s.switchTail
  | _ => s.switchTail

/-- The next step in the rest of `txg_put`. -/
def tailStep (s : TxgSystem ι κ) : Nat × PutStage → Option (Nat × PutStage)
  | (t, .state) => if (s.txg t).state ≠ .opened then some (t, .count) else none
  | (t, .count) => if (s.txg t).txPending = 0 then some (t, .signal) else none
  | (_, .signal) => none

variable [DecidableEq ι] [DecidableEq κ]

/-- A thread has decremented. -/
def ReleaseSystem.puts (s : ReleaseSystem ι κ) : TxgEvent ι κ → ι → Option (Nat × PutStage)
  | .step i =>
    match (s.base.thread i).stage with
    | .put t => Function.update s.tail i (some (t, .state))
    | _ => s.tail
  | .put i t => Function.update s.tail i (some (t, .state))
  | _ => s.tail

def releaseStep (s : ReleaseSystem ι κ) : ReleaseEvent ι κ → Option (ReleaseSystem ι κ)
  | .base event =>
    if s.busy event then none
    else (txgEvent s.base event).map fun base =>
      ⟨base, s.puts event, s.switchPuts event, s.destroys event⟩
  | .tail i =>
    match s.tail i with
    | none => none
    | some rest => some { s with tail := Function.update s.tail i (tailStep s.base rest) }
  | .switchTail =>
    match s.switchTail with
    | none => none
    | some rest => some { s with switchTail := tailStep s.base rest }

end Steps

/-! ### Groups that are touched -/

section Touches

variable {ι κ : Type}

/-- The group whose count, state or condition the next step in `txg_switch` accesses. -/
def TxgSystem.switchTouches (s : TxgSystem ι κ) : Option Nat :=
  match s.switcher with
  | .get _ => some s.openTxg
  | .setState _ t => some t
  | .put _ => some s.openTxg
  | _ => none

/-- The group whose count, state or condition the next step of a commit thread accesses. -/
def CommitStage.touches : CommitStage → Option Nat
  | .lock t | .test t | .mark t | .unlock t _ | .wait t => some t
  | _ => none

/-- The step accesses the count, the state or the condition of the group `t`. -/
def ReleaseSystem.Touches (s : ReleaseSystem ι κ) : ReleaseEvent ι κ → Nat → Prop
  | .base (.call _), _ => False
  | .base (.step i), t => (s.base.thread i).stage.group = some t
  | .base (.put i u), t => u = t ∧ u ∈ (s.base.thread i).held
  | .base (.addItb _ _ _), _ => False
  | .base (.switch _), t => s.base.switchTouches = some t
  | .base (.commit c), t => (s.base.commit c).touches = some t
  | .tail i, t => ∃ stage, s.tail i = some (t, stage)
  | .switchTail, t => ∃ stage, s.switchTail = some (t, stage)

/-- No step that comes next touches a group that has been destroyed. -/
def Untouched (s : ReleaseSystem ι κ) : Prop :=
  ∀ event t, t ∈ s.destroyed → ¬s.Touches event t

/-- A group is destroyed when nobody is about to touch it, and no thread takes a destroyed group for
the open one. -/
def ReleasesLast (s : ReleaseSystem ι κ) : ReleaseEvent ι κ → Prop
  | .base (.commit c) => ∀ t, s.base.commit c = .trigger t → ∀ event, ¬s.Touches event t
  | .base (.step i) =>
    s.tail i = none → (s.base.thread i).stage = .read → s.base.openTxg ∉ s.destroyed
  | _ => True

end Touches

/-! ### What a step leaves untouched -/

section Clear

variable {ι κ : Type}

/-- Nobody is about to touch the group `t`. -/
structure Clear (s : ReleaseSystem ι κ) (t : Nat) : Prop where
  stage : ∀ i, (s.base.thread i).stage.group ≠ some t
  held : ∀ i, t ∉ (s.base.thread i).held
  tail : ∀ i stage, s.tail i ≠ some (t, stage)
  switch : s.base.switchTouches ≠ some t
  switchTail : ∀ stage, s.switchTail ≠ some (t, stage)
  commit : ∀ c, (s.base.commit c).touches ≠ some t

theorem clear_iff {s : ReleaseSystem ι κ} {t : Nat} :
    (∀ event, ¬s.Touches event t) ↔ Clear s t := by
  constructor
  · intro untouched
    exact {
      stage := fun i => untouched (.base (.step i))
      held := fun i held => untouched (.base (.put i t)) ⟨rfl, held⟩
      tail := fun i stage rest => untouched (.tail i) ⟨stage, rest⟩
      switch := untouched (.base (.switch true))
      switchTail := fun stage rest => untouched .switchTail ⟨stage, rest⟩
      commit := fun c => untouched (.base (.commit c)) }
  · intro clear event touches
    cases event with
    | tail i =>
      obtain ⟨stage, rest⟩ := touches
      exact clear.tail i stage rest
    | switchTail =>
      obtain ⟨stage, rest⟩ := touches
      exact clear.switchTail stage rest
    | base event =>
      cases event with
      | call i => exact touches
      | step i => exact clear.stage i touches
      | put i u =>
        obtain ⟨rfl, held⟩ := touches
        exact clear.held i held
      | addItb i u x => exact touches
      | switch memory => exact clear.switch touches
      | commit c => exact clear.commit c touches

variable [DecidableEq ι] [DecidableEq κ] {s s' : TxgSystem ι κ} {t : Nat}

omit [DecidableEq κ] in
/-- A thread comes to a group only by reading the open pointer. -/
theorem ThreadMove.group {i : ι} (move : ThreadMove s i s')
    (group : (s'.thread i).stage.group = some t) :
    (s.thread i).stage.group = some t ∨ (s.thread i).stage = .read ∧ s.openTxg = t := by
  cases move with
  | call stage =>
    simp only [TxgSystem.goOn, Function.update_self] at group
    cases group
  | read stage =>
    simp only [TxgSystem.goOn, Function.update_self] at group
    exact Or.inr ⟨stage, Option.some.inj group⟩
  | get u stage =>
    simp only [TxgSystem.goOn, Function.update_self] at group
    exact Or.inl (by rw [stage]; exact group)
  | returned u stage state =>
    simp only [TxgSystem.goOn, Function.update_self] at group
    cases group
  | rejected u stage state =>
    simp only [TxgSystem.goOn, Function.update_self] at group
    exact Or.inl (by rw [stage]; exact group)
  | retry u stage =>
    simp only [TxgSystem.goOn, Function.update_self] at group
    cases group
  | put u stage held =>
    simp only [TxgSystem.goOn, Function.update_self] at group
    cases group
  | addDirty u x stage held dirty => exact Or.inl group
  | addItb u x stage held clean => exact Or.inl group

omit [DecidableEq κ] in
/-- A step of a thread leaves the threads clear of a group that it does not take for the open
one. -/
theorem ThreadMove.clear {i : ι} (move : ThreadMove s i s')
    (stage : ∀ j, (s.thread j).stage.group ≠ some t) (held : ∀ j, t ∉ (s.thread j).held)
    (read : (s.thread i).stage = .read → s.openTxg ≠ t) :
    (∀ j, (s'.thread j).stage.group ≠ some t) ∧ ∀ j, t ∉ (s'.thread j).held := by
  obtain ⟨others, _, kept⟩ := move.thread
  constructor
  · intro j group
    by_cases same : j = i
    · rw [same] at group
      rcases move.group group with old | ⟨reads, opened⟩
      · exact stage i old
      · exact read reads opened
    · rw [others j same] at group
      exact stage j group
  · intro j member
    by_cases same : j = i
    · rw [same] at member
      rcases kept t member with old | ⟨tests, _⟩
      · exact held i old
      · exact stage i (by rw [tests]; rfl)
    · rw [others j same] at member
      exact held j member

omit [DecidableEq ι] [DecidableEq κ] in
theorem SwitchMove.frame (move : SwitchMove s s') :
    s'.thread = s.thread ∧ s'.commit = s.commit ∧ s'.walks = s.walks := by
  cases move with
  | _ => exact ⟨rfl, rfl, rfl⟩

omit [DecidableEq ι] in
/-- A commit thread comes to a group only by reading the write-back pointer. -/
theorem CommitMove.touches {c : κ} (move : CommitMove s c s')
    (touches : (s'.commit c).touches = some t) :
    (s.commit c).touches = some t ∨ s.wbTxg = some t := by
  have after_ : ∀ {after : TxgSystem ι κ} {stage : CommitStage},
      after.commit = Function.update s.commit c stage → (after.commit c).touches = some t →
      stage.touches = some t := by
    intro after stage is touches
    rw [is, Function.update_self] at touches
    exact touches
  cases move with
  | nothing stage => exact Or.inl touches
  | load u stage wb =>
    have same := after_ rfl touches
    exact Or.inr (by rw [wb]; exact same)
  | lock u stage free =>
    have same := after_ rfl touches
    exact Or.inl (by rw [stage]; exact same)
  | claims u stage state =>
    have same := after_ rfl touches
    exact Or.inl (by rw [stage]; exact same)
  | leaves u stage =>
    have same := after_ rfl touches
    exact Or.inl (by rw [stage]; exact same)
  | mark u stage =>
    have same := after_ rfl touches
    exact Or.inl (by rw [stage]; exact same)
  | unlock u goes stage =>
    have same := after_ rfl touches
    cases goes with
    | false => cases same
    | true => exact Or.inl (by rw [stage]; exact same)
  | passes u stage unused => cases after_ rfl touches
  | waits u stage => cases after_ rfl touches
  | compare u stage =>
    have same := after_ rfl touches
    split at same
    · next wb =>
      cases same
      exact Or.inr wb
    · cases same
  | walk u x rest stage list => exact Or.inl touches
  | walked u stage => cases after_ rfl touches
  | clear u stage => cases after_ rfl touches
  | trigger u stage => cases after_ rfl touches

omit [DecidableEq ι] in
/-- A group is triggered when the write-back pointer has been cleared. -/
theorem CommitMove.trigger_step {c : κ} (move : CommitMove s c s')
    (trigger : s'.commit c = .trigger t) : s'.wbTxg = none := by
  have after_ : ∀ {after : TxgSystem ι κ} {stage : CommitStage},
      after.commit = Function.update s.commit c stage → after.commit c = .trigger t →
      stage = .trigger t := by
    intro after stage is same
    rw [is, Function.update_self] at same
    exact same
  cases move with
  | nothing stage => rw [stage] at trigger; cases trigger
  | load u stage wb => cases after_ rfl trigger
  | lock u stage free => cases after_ rfl trigger
  | claims u stage state => cases after_ rfl trigger
  | leaves u stage => cases after_ rfl trigger
  | mark u stage => cases after_ rfl trigger
  | unlock u goes stage =>
    have same := after_ rfl trigger
    split at same
    · cases same
    · cases same
  | passes u stage unused => cases after_ rfl trigger
  | waits u stage => cases after_ rfl trigger
  | compare u stage =>
    have same := after_ rfl trigger
    split at same
    · cases same
    · cases same
  | walk u x rest stage list => 
    have same : s.commit c = .trigger t := trigger
    rw [stage] at same
    cases same
  | walked u stage => cases after_ rfl trigger
  | clear u stage => rfl
  | trigger u stage => cases after_ rfl trigger

end Clear

/-! ### The system below -/

section Kept

variable {ι κ : Type} [DecidableEq ι] [DecidableEq κ] [Fintype ι] {s s' : TxgSystem ι κ} {t : Nat}

/-- The invariants of the system. -/
structure TxgKept (s : TxgSystem ι κ) : Prop where
  allocated : Allocated s
  counted : Counted s
  switching : Switching s
  claimed : Claimed s

theorem TxgKept.step {event : TxgEvent ι κ} (kept : TxgKept s)
    (stepped : txgEvent s event = some s') : TxgKept s' := by
  obtain ⟨allocated, counted, switching, claimed⟩ := kept
  rcases txgEvent_move stepped with ⟨i, move⟩ | move | ⟨c, move⟩
  · exact ⟨allocated.of_thread move, counted.of_thread move, switching.of_thread move,
      claimed.of_thread allocated move⟩
  · exact ⟨allocated.of_switch move, counted.of_switch allocated move,
      switching.of_switch allocated move, claimed.of_switch allocated switching move⟩
  · exact ⟨allocated.of_commit move, counted.of_commit move,
      switching.of_commit claimed move, claimed.of_commit counted move⟩

omit [DecidableEq ι] [DecidableEq κ] in
/-- Until `txg_switch` has set the state, no commit thread has come to the dirty list of the open
group. -/
theorem TxgKept.open_unwalked (kept : TxgKept s) (closed : s.switcher.closed = false) :
    s.openTxg ∉ s.walks := by
  intro walked
  have state := kept.switching.opened closed
  rw [(kept.claimed.walks _ walked).1] at state
  cases state

/-- The write-back pointer is not a group that is or will be destroyed. -/
def WbCleared (s : TxgSystem ι κ) (destroyed : List Nat) : Prop :=
  ∀ t, s.wbTxg = some t → t ∉ destroyed ∧ ∀ c, s.commit c ≠ .trigger t

theorem WbCleared.step {event : TxgEvent ι κ} {destroyed : List Nat}
    (cleared : WbCleared s destroyed)
    (kept : TxgKept s) (walked : ∀ t ∈ destroyed, t ∈ s.walks)
    (stepped : txgEvent s event = some s') : WbCleared s' destroyed := by
  rcases txgEvent_move stepped with ⟨i, move⟩ | move | ⟨c, move⟩
  · intro t wb
    rw [move.frame.wbTxg] at wb
    rw [move.frame.commit]
    exact cleared t wb
  · intro t wb
    rw [move.frame.2.1]
    cases move with
    | setWb nt stage =>
      have opened : s.openTxg ∉ s.walks := kept.open_unwalked (by rw [stage]; rfl)
      obtain rfl : s.openTxg = t := Option.some.inj wb
      refine ⟨fun gone => opened (walked _ gone), fun c trigger => opened ?_⟩
      exact kept.claimed.walked c _ (by rw [trigger]; rfl)
    | _ => exact cleared t wb
  · intro t wb
    rcases move.words.1 with same | none
    · rw [same] at wb
      refine ⟨(cleared t wb).1, fun d trigger => ?_⟩
      by_cases here : d = c
      · rw [here] at trigger
        have none := move.trigger_step trigger
        rw [same, wb] at none
        cases none
      · rw [move.frame.others d here] at trigger
        exact (cleared t wb).2 d trigger
    · rw [none] at wb
      cases wb

omit [Fintype ι] in
/-- The walks are only added to. -/
theorem walks_step {event : TxgEvent ι κ} (walked : t ∈ s.walks)
    (stepped : txgEvent s event = some s') : t ∈ s'.walks := by
  rcases txgEvent_move stepped with ⟨i, move⟩ | move | ⟨c, move⟩
  · rw [move.frame.walks]
    exact walked
  · rw [move.frame.2.2]
    exact walked
  · rcases move.words.2 with same | ⟨u, _, added⟩
    · rw [same]
      exact walked
    · rw [added]
      exact List.mem_append_left _ walked

omit [DecidableEq ι] [DecidableEq κ] in
/-- `txg_switch` comes to no group of which the dirty list has been walked. -/
theorem switchTouches_step (kept : TxgKept s) (move : SwitchMove s s') (walked : t ∈ s.walks)
    (cleared : s.wbTxg ≠ some t) : s'.switchTouches ≠ some t := by
  intro touches
  cases move with
  | number nt stage =>
    have opened := kept.open_unwalked (by rw [stage]; rfl)
    obtain rfl : s.openTxg = t := Option.some.inj touches
    exact opened walked
  | loadWb nt u stage wb =>
    obtain rfl : u = t := Option.some.inj touches
    exact cleared wb
  | setState nt u stage =>
    have opened := kept.open_unwalked (by rw [stage]; rfl)
    obtain rfl : s.openTxg = t := Option.some.inj touches
    exact opened walked
  | returns stage =>
    unfold TxgSystem.switchTouches at touches
    rw [stage] at touches
    cases touches
  | _ => cases touches

end Kept

/-! ### One step -/

section Step

variable {ι κ : Type} [DecidableEq ι] [DecidableEq κ] [Fintype ι]
  {s next : ReleaseSystem ι κ} {t : Nat} {event : ReleaseEvent ι κ}

/-- What holds between the steps. -/
structure Releasing (s : ReleaseSystem ι κ) : Prop where
  kept : TxgKept s.base
  walked : ∀ t ∈ s.destroyed, t ∈ s.base.walks
  cleared : WbCleared s.base s.destroyed
  untouched : Untouched s

omit [Fintype ι] in
/-- A step of the system below, with what it adds. -/
theorem releaseStep_base {event : TxgEvent ι κ}
    (stepped : releaseStep s (.base event) = some next) :
    s.busy event = false ∧ ∃ base, txgEvent s.base event = some base ∧
      next = ⟨base, s.puts event, s.switchPuts event, s.destroys event⟩ := by
  rw [releaseStep] at stepped
  split_ifs at stepped with busy
  obtain ⟨base, moved, rfl⟩ := Option.map_eq_some_iff.mp stepped
  exact ⟨Bool.eq_false_iff.mpr busy, base, moved, rfl⟩

omit [Fintype ι] in
/-- Only a thread that is about to touch a group comes behind its decrement. -/
theorem Clear.puts {event : TxgEvent ι κ} {base : TxgSystem ι κ} (clear : Clear s t)
    (moved : txgEvent s.base event = some base) (i : ι) (stage : PutStage) :
    s.puts event i ≠ some (t, stage) := by
  have updated : ∀ j u, u ≠ t → Function.update s.tail j
    (some (u, .state)) i ≠ some (t, stage) := by
    intro j u different same
    by_cases here : i = j
    · rw [here, Function.update_self] at same
      cases same
      exact different rfl
    · rw [Function.update_of_ne here] at same
      exact clear.tail i stage same
  cases event with
  | step j =>
    simp only [ReleaseSystem.puts]
    cases puts : (s.base.thread j).stage with
    | put u =>
      refine updated j u ?_
      rintro rfl
      exact clear.stage j (by rw [puts]; rfl)
    | idle => exact clear.tail i stage
    | read => exact clear.tail i stage
    | get u => exact clear.tail i stage
    | test u => exact clear.tail i stage
  | put j u =>
    refine updated j u ?_
    rintro rfl
    rw [txgEvent] at moved
    split_ifs at moved with allowed
    exact clear.held j allowed.2
  | call j => exact clear.tail i stage
  | addItb j u x => exact clear.tail i stage
  | switch memory => exact clear.tail i stage
  | commit c => exact clear.tail i stage

omit [DecidableEq ι] [DecidableEq κ] [Fintype ι] in
theorem Clear.switchPuts (clear : Clear s t) (event : TxgEvent ι κ) (stage : PutStage) :
    s.switchPuts event ≠ some (t, stage) := by
  cases event with
  | switch memory =>
    simp only [ReleaseSystem.switchPuts]
    split
    · next nt puts =>
      intro same
      refine clear.switch ?_
      unfold TxgSystem.switchTouches
      rw [puts]
      exact congrArg (Option.map Prod.fst) same
    · exact clear.switchTail stage
  | call j => exact clear.switchTail stage
  | step j => exact clear.switchTail stage
  | put j u => exact clear.switchTail stage
  | addItb j u x => exact clear.switchTail stage
  | commit c => exact clear.switchTail stage

/-- Nobody comes to a destroyed group with a step of the system below. -/
theorem Clear.base {event : TxgEvent ι κ} {base : TxgSystem ι κ} {destroyed : List Nat}
    (clear : Clear s t) (kept : TxgKept s.base) (walked : t ∈ s.base.walks)
    (cleared : s.base.wbTxg ≠ some t)
    (read : ∀ i, event = .step i → (s.base.thread i).stage = .read → s.base.openTxg ≠ t)
    (moved : txgEvent s.base event = some base) :
    Clear ⟨base, s.puts event, s.switchPuts event, destroyed⟩ t := by
  have tail := clear.puts moved
  have switchTail := clear.switchPuts event
  -- The threads, `txg_switch` and the commit threads, when they stay where they are.
  have threads : base.thread = s.base.thread →
      (∀ i, (base.thread i).stage.group ≠ some t) ∧ ∀ i, t ∉ (base.thread i).held := by
    intro same
    rw [same]
    exact ⟨clear.stage, clear.held⟩
  have ofThread : ∀ i, ThreadMove s.base i base →
      ((s.base.thread i).stage = .read → s.base.openTxg ≠ t) →
      Clear ⟨base, s.puts event, s.switchPuts event, destroyed⟩ t := by
    intro i move read
    have frame := move.frame
    have own := move.clear clear.stage clear.held read
    refine ⟨own.1, own.2, tail, ?_, switchTail, ?_⟩
    · show base.switchTouches ≠ some t
      unfold TxgSystem.switchTouches
      rw [frame.switcher, frame.openTxg]
      exact clear.switch
    · show ∀ c, (base.commit c).touches ≠ some t
      rw [frame.commit]
      exact clear.commit
  cases event with
  | call i =>
    simp only [txgEvent] at moved
    split_ifs at moved with idle
    cases moved
    refine ofThread i (.call idle) fun reads => ?_
    rw [idle] at reads
    cases reads
  | step i => exact ofThread i (getStep_move moved) (read i rfl)
  | put i u =>
    simp only [txgEvent] at moved
    split_ifs at moved with allowed
    cases moved
    refine ofThread i (.put u allowed.1 allowed.2) fun reads => ?_
    rw [allowed.1] at reads
    cases reads
  | addItb i u x =>
    have quiet : (s.base.thread i).stage = .idle → (s.base.thread i).stage = .read →
        s.base.openTxg ≠ t := by
      intro idle reads
      rw [idle] at reads
      cases reads
    simp only [txgEvent] at moved
    split_ifs at moved with allowed dirty
    · cases moved
      exact ofThread i (.addDirty u x allowed.1 allowed.2 dirty) (quiet allowed.1)
    · cases moved
      exact ofThread i (.addItb u x allowed.1 allowed.2 (Bool.eq_false_iff.mpr dirty))
        (quiet allowed.1)
  | switch memory =>
    have move := switchStep_move moved
    obtain ⟨thread, commit, _⟩ := move.frame
    refine ⟨(threads thread).1, (threads thread).2, tail, ?_, switchTail, ?_⟩
    · exact switchTouches_step kept move walked cleared
    · show ∀ c, (base.commit c).touches ≠ some t
      rw [commit]
      exact clear.commit
  | commit c =>
    have move := commitStep_move moved
    have frame := move.frame
    refine ⟨(threads frame.thread).1, (threads frame.thread).2, tail, ?_, switchTail, ?_⟩
    · show base.switchTouches ≠ some t
      unfold TxgSystem.switchTouches
      rw [frame.switcher, frame.openTxg]
      exact clear.switch
    · intro d touches
      by_cases here : d = c
      · rw [here] at touches
        rcases move.touches touches with old | wb
        · exact clear.commit c old
        · exact cleared wb
      · have same := frame.others d here
        simp only [same] at touches
        exact clear.commit d touches

omit [DecidableEq ι] [DecidableEq κ] [Fintype ι] in
theorem mem_destroys {event : TxgEvent ι κ} (gone : t ∈ s.destroys event) :
    t ∈ s.destroyed ∨ ∃ c, event = .commit c ∧ s.base.commit c = .trigger t := by
  cases event with
  | commit c =>
    simp only [ReleaseSystem.destroys] at gone
    split at gone
    · next u trigger =>
      rcases List.mem_cons.mp gone with rfl | old
      · exact Or.inr ⟨c, rfl, trigger⟩
      · exact Or.inl old
    · exact Or.inl gone
  | call i => exact Or.inl gone
  | step i => exact Or.inl gone
  | put i u => exact Or.inl gone
  | addItb i u x => exact Or.inl gone
  | switch memory => exact Or.inl gone

omit [DecidableEq ι] [DecidableEq κ] [Fintype ι] in
theorem tailStep_group {base : TxgSystem ι κ} {rest : Nat × PutStage} {stage : PutStage}
    (same : tailStep base rest = some (t, stage)) : rest.1 = t := by
  obtain ⟨u, _ | _ | _⟩ := rest
  · rw [tailStep] at same
    split_ifs at same
    exact congrArg Prod.fst (Option.some.inj same)
  · rw [tailStep] at same
    split_ifs at same
    exact congrArg Prod.fst (Option.some.inj same)
  · cases same

theorem Releasing.base (releasing : Releasing s) {event : TxgEvent ι κ}
    (last : ReleasesLast s (.base event))
    (stepped : releaseStep s (.base event) = some next) : Releasing next := by
  obtain ⟨idle, base, moved, rfl⟩ := releaseStep_base stepped
  obtain ⟨kept, walked, cleared, untouched⟩ := releasing
  refine ⟨kept.step moved, fun t gone => ?_, fun t wb => ?_, fun other t gone => ?_⟩
  · rcases mem_destroys gone with old | ⟨c, rfl, trigger⟩
    · exact walks_step (walked t old) moved
    · exact walks_step (kept.claimed.walked c t (by rw [trigger]; rfl)) moved
  · have after := cleared.step kept walked moved t wb
    refine ⟨fun gone => ?_, after.2⟩
    rcases mem_destroys gone with old | ⟨c, rfl, trigger⟩
    · exact after.1 old
    · have move := commitStep_move moved
      rcases move.words.1 with same | none
      · rw [same] at wb
        exact (cleared t wb).2 c trigger
      · rw [none] at wb
        cases wb
  · rcases mem_destroys gone with old | ⟨c, rfl, trigger⟩
    · have clear := clear_iff.mp fun event => untouched event t old
      refine clear_iff.mpr (clear.base kept (walked t old)
        (fun wb => (cleared t wb).1 old) ?_ moved)
        other
      rintro i rfl reads opened
      have free : s.tail i = none := Option.not_isSome_iff_eq_none.mp (by
        intro busy
        have own : (s.tail i).isSome = false := idle
        rw [own] at busy
        cases busy)
      exact last free reads (by rw [opened]; exact old)
    · have clear := clear_iff.mp (last t trigger)
      have passed := kept.claimed.walked c t (by rw [trigger]; rfl)
      refine clear_iff.mpr (clear.base kept passed (fun wb => (cleared t wb).2 c trigger) ?_ moved)
        other
      intro i impossible
      cases impossible

theorem Releasing.step (releasing : Releasing s) (last : ReleasesLast s event)
    (stepped : releaseStep s event = some next) : Releasing next := by
  cases event with
  | base event => exact releasing.base last stepped
  | tail i =>
    rw [releaseStep] at stepped
    split at stepped
    · cases stepped
    · next rest behind =>
      cases stepped
      obtain ⟨kept, walked, cleared, untouched⟩ := releasing
      refine ⟨kept, walked, cleared, fun other t gone => ?_⟩
      have clear := clear_iff.mp fun event => untouched event t gone
      revert other
      refine clear_iff.mpr ⟨clear.stage, clear.held, ?_, clear.switch, clear.switchTail,
        clear.commit⟩
      intro j stage same
      by_cases here : j = i
      · rw [here] at same
        simp only [Function.update_self] at same
        have group := tailStep_group same
        exact clear.tail i rest.2 (by rw [behind, ← group])
      · simp only [Function.update_of_ne here] at same
        exact clear.tail j stage same
  | switchTail =>
    rw [releaseStep] at stepped
    split at stepped
    · cases stepped
    · next rest behind =>
      cases stepped
      obtain ⟨kept, walked, cleared, untouched⟩ := releasing
      refine ⟨kept, walked, cleared, fun other t gone => ?_⟩
      have clear := clear_iff.mp fun event => untouched event t gone
      revert other
      refine clear_iff.mpr ⟨clear.stage, clear.held, clear.tail, clear.switch, ?_, clear.commit⟩
      intro stage same
      have group := tailStep_group same
      exact clear.switchTail rest.2 (by rw [behind, ← group])

omit [Fintype ι] in
/-- A group that nobody is about to touch when it is destroyed was so before. -/
theorem Clear.of_destroyed {c : κ} (trigger : s.base.commit c = .trigger t)
    (leaves : ∀ next, releaseStep s (.base (.commit c)) = some next → Untouched next) :
    Clear s t := by
  have moved : txgEvent s.base (.commit c) = some (s.base.committing c .idle) := by
    rw [txgEvent, commitStep, trigger]
  have stepped : releaseStep s (.base (.commit c)) =
      some ⟨s.base.committing c .idle, s.tail, s.switchTail, t :: s.destroyed⟩ := by
    rw [releaseStep, moved]
    simp only [ReleaseSystem.busy, ReleaseSystem.puts, ReleaseSystem.switchPuts,
      ReleaseSystem.destroys, trigger]
    rfl
  have untouched := leaves _ stepped
  have clear := clear_iff.mp fun event => untouched event t List.mem_cons_self
  refine ⟨clear.stage, clear.held, clear.tail, clear.switch, clear.switchTail, fun d touches => ?_⟩
  by_cases here : d = c
  · rw [here, trigger] at touches
    cases touches
  · have other := clear.commit d
    simp only [TxgSystem.committing, Function.update_of_ne here] at other
    exact other touches

omit [Fintype ι] in
/-- A thread that reads the open pointer is about to touch the open group. -/
theorem opened_of_untouched {i : ι} (free : s.tail i = none)
    (reads : (s.base.thread i).stage = .read)
    (leaves : ∀ next, releaseStep s (.base (.step i)) = some next → Untouched next) :
    s.base.openTxg ∉ s.destroyed := by
  have moved : txgEvent s.base (.step i) =
      some (s.base.goOn i (.get s.base.openTxg) (s.base.thread i).held) := by
    rw [txgEvent, getStep, reads]
  have stepped : releaseStep s (.base (.step i)) =
      some ⟨s.base.goOn i (.get s.base.openTxg) (s.base.thread i).held, s.tail, s.switchTail,
        s.destroyed⟩ := by
    rw [releaseStep, moved]
    simp only [ReleaseSystem.busy, ReleaseSystem.puts, ReleaseSystem.switchPuts,
      ReleaseSystem.destroys, reads, free]
    rfl
  intro gone
  refine leaves _ stepped (.base (.step i)) s.base.openTxg gone ?_
  show ((s.base.goOn i (.get s.base.openTxg) (s.base.thread i).held).thread i).stage.group = _
  simp only [TxgSystem.goOn, Function.update_self]
  rfl

/-- One step leaves the destroyed groups untouched exactly when it meets the condition. -/
theorem Releasing.iff (releasing : Releasing s) :
    (∀ next, releaseStep s event = some next → Untouched next) ↔ ReleasesLast s event := by
  constructor
  · intro leaves
    cases event with
    | base event =>
      cases event with
      | commit c => exact fun t trigger => clear_iff.mpr (Clear.of_destroyed trigger leaves)
      | step i => exact fun free reads => opened_of_untouched free reads leaves
      | call i => trivial
      | put i u => trivial
      | addItb i u x => trivial
      | switch memory => trivial
    | tail i => trivial
    | switchTail => trivial
  · exact fun last next stepped => (releasing.step last stepped).untouched

end Step

/-! ### Runs -/

section Result

variable {ι κ : Type} [DecidableEq ι] [DecidableEq κ] [Fintype ι]

omit [DecidableEq ι] [DecidableEq κ] in
theorem init_releasing : Releasing (ReleaseSystem.init ι κ) where
  kept := ⟨init_allocated, init_counted, init_switching, init_claimed⟩
  walked := fun _ gone => absurd gone List.not_mem_nil
  cleared := fun _ wb => by cases wb
  untouched := fun _ _ gone => absurd gone List.not_mem_nil

/-- No step touches a group whose condition has been destroyed exactly when every group is destroyed
with nobody about to touch it, and no thread reads a destroyed group from the open pointer. -/
theorem released_untouched (events : List (ReleaseEvent ι κ)) :
    (∀ before after final, events = before ++ after →
        run releaseStep (ReleaseSystem.init ι κ) before = some final → Untouched final) ↔
      Guarded releaseStep ReleasesLast (ReleaseSystem.init ι κ) events := by
  rw [reached_iff_guarded init_releasing.untouched]
  refine guarded_iff_of_invariant Releasing (fun s event releasing => releasing.iff) ?_
    init_releasing
  intro s event next releasing leaves stepped
  exact releasing.step (releasing.iff.mp leaves) stepped

end Result

/-- A thread reads the open pointer. Then the group is switched, written back and released. -/
def readBeforeRelease : List (ReleaseEvent Bool Unit) :=
  [.base (.call true), .base (.step true)] ++ List.replicate 10 (.base (.switch true)) ++
    [.switchTail, .switchTail, .switchTail, .base (.switch true)] ++
    List.replicate 9 (.base (.commit ()))

/-- The thread increments the count of the released group. -/
theorem released_incremented : ∃ final,
    run releaseStep (ReleaseSystem.init Bool Unit) readBeforeRelease = some final ∧
      0 ∈ final.destroyed ∧ final.Touches (.base (.step true)) 0 ∧
      ((releaseStep final (.base (.step true))).map fun next => (next.base.txg 0).txPending) =
        some 1 ∧ ¬Untouched final :=
  ⟨_, rfl, List.mem_cons_self, rfl, rfl,
    fun untouched => untouched (.base (.step true)) 0 List.mem_cons_self rfl⟩

end Hvfs
