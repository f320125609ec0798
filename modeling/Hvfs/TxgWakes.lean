/-
This file embeds how groups come into write-back and out of it: `txg_changer`,
which the timer thread calls, the semaphore that it posts and `sem_wait` of the
commit threads, around the protocol of `TxgThreads`.

A commit thread comes out of `sem_wait` with a unit of the semaphore, or because
a signal has interrupted it: `sem_wait` returns -1 then, which is not `EINTR`, and
the thread goes on.
-/

import Hvfs.TxgReleased

namespace Hvfs

open Transition

/-! ### The system -/

/-- Where the timer thread is in `txg_changer`. -/
inductive ChangerStage
  | idle
  /-- The open group is dirty and old enough; the write-back pointer comes next. -/
  | goes
  /-- It is in `txg_switch`. -/
  | switching
  /-- `sem_post` comes next. -/
  | post
  deriving DecidableEq, Repr

/-- The system with `hmo.commit_sem`, the clock, and the words of a group that `txg_changer`
reads. -/
structure WakeSystem (ι κ : Type) where
  base : TxgSystem ι κ
  commitSem : Nat
  /-- It has come out of `sem_wait`, and reads the write-back pointer next. -/
  woken : κ → Bool
  changer : ChangerStage
  dirty : Nat → Bool
  /-- The group that a thread in `txg_add_itb` has still to set dirty. -/
  dirtying : ι → Option Nat
  now : Nat
  openTime : Nat → Nat

def WakeSystem.init (ι κ : Type) : WakeSystem ι κ where
  base := TxgSystem.init ι κ
  commitSem := 0
  woken := fun _ => false
  changer := .idle
  dirty := fun _ => false
  dirtying := fun _ => none
  now := 0
  openTime := fun _ => 0

/-- What may happen next. -/
inductive WakeEvent (ι κ : Type)
  | base (event : TxgEvent ι κ)
  /-- `TXG_SET_DIRTY` at the end of `txg_add_itb`. -/
  | setDirty (i : ι)
  /-- The timer thread calls `txg_changer`. -/
  | changer
  | post
  /-- A commit thread comes out of `sem_wait`. -/
  | wake (c : κ) (interrupted : Bool)
  | tick

section Steps

variable {ι κ : Type} [DecidableEq ι] [DecidableEq κ]

/-- The commit thread is in `sem_wait`. -/
def WakeSystem.Sleeps (s : WakeSystem ι κ) (c : κ) : Prop :=
  s.base.commit c = .idle ∧ s.woken c = false

instance (s : WakeSystem ι κ) (c : κ) : Decidable (s.Sleeps c) := instDecidableAnd

/-- The one who makes the step has come to it. -/
def WakeSystem.ready (s : WakeSystem ι κ) : TxgEvent ι κ → Bool
  | .call i | .step i | .put i _ | .addItb i _ _ => (s.dirtying i).isNone
  | .switch _ => s.changer = .goes ∨ s.changer = .switching
  | .commit c => ¬s.Sleeps c

/-- Where the timer thread is after the event. -/
def WakeSystem.changes (s : WakeSystem ι κ) : TxgEvent ι κ → ChangerStage
  | .switch memory =>
    match s.base.switcher with
    | .idle => if s.base.wbTxg = none then .switching else .idle
    | .alloc => if memory then .switching else .idle
    | .setOpen _ => .post
    | _ => .switching
  | _ => s.changer

/-- `TXG_SET_TIME` of the group that `txg_switch` has allocated. -/
def WakeSystem.opens (s : WakeSystem ι κ) : TxgEvent ι κ → Nat → Nat
  | .switch true =>
    match s.base.switcher with
    | .alloc => Function.update s.openTime s.base.total s.now
    | _ => s.openTime
  | _ => s.openTime

def WakeSystem.dirties (s : WakeSystem ι κ) : TxgEvent ι κ → ι → Option Nat
  | .addItb i t _ => Function.update s.dirtying i (some t)
  | _ => s.dirtying

/-- A commit thread that has read the write-back pointer goes on with it, or into `sem_wait`. -/
def WakeSystem.reads (s : WakeSystem ι κ) : TxgEvent ι κ → κ → Bool
  | .commit c => Function.update s.woken c false
  | _ => s.woken

/-- The system after an event; `none` when the event cannot happen. -/
def wakeStep (interval : Nat) (s : WakeSystem ι κ) : WakeEvent ι κ → Option (WakeSystem ι κ)
  | .base event =>
    if s.ready event then
      (txgEvent s.base event).map fun base =>
        { s with
          base := base
          woken := s.reads event
          changer := s.changes event
          dirtying := s.dirties event
          openTime := s.opens event }
    else none
  | .setDirty i =>
    match s.dirtying i with
    | none => none
    | some t =>
      some { s with
        dirty := Function.update s.dirty t true
        dirtying := Function.update s.dirtying i none }
  | .changer =>
    if s.changer = .idle then
      if s.dirty s.base.openTxg ∧ interval ≠ 0 ∧
          s.openTime s.base.openTxg + interval ≤ s.now then
        some { s with changer := .goes }
      else some s
    else none
  | .post =>
    if s.changer = .post then
      some { s with
        commitSem := s.commitSem + 1
        changer := .idle }
    else none
  | .wake c interrupted =>
    if s.Sleeps c then
      if interrupted then some { s with woken := Function.update s.woken c true }
      else if 0 < s.commitSem then
        some { s with
          commitSem := s.commitSem - 1
          woken := Function.update s.woken c true }
      else none
    else none
  | .tick => some { s with now := s.now + 1 }

end Steps

end Hvfs
