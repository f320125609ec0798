/-
This file embeds the protocol of `mds/txg.c` in its single reads and writes: any
number of threads in `mds_get_open_txg`, `txg_put` and `txg_add_itb`, the one
thread that calls `txg_switch`, and any number of commit threads.

A group is named by the order of its allocation, and a name is never used again.
The number `txg` is counted in 64 bits; `atomic64_inc` adds by 32 bits and comes
round after 2^32 switches, so the two agree up to there.
A step is one access to a word that threads share, or an operation on a list under
its lock; a thread reads a word that only itself writes along with its next access.
`mcond_signal` and the two waits decide only when a commit thread wakes up, and here
it may wake up at any time. What a thread has still to do is its *stage*, named by
the next step.
-/

import Hvfs.Const
import Mathlib.Algebra.BigOperators.Group.Finset.Basic
import Mathlib.Data.Fintype.BigOperators
import Mathlib.Logic.Function.Basic

namespace Hvfs

/-! ### Groups that threads share -/

/-- `TXG_STATE_OPEN`, `TXG_STATE_WB` and `TXG_STATE_WBING`. -/
inductive TxgState
  | opened
  | wb
  | wbing
  deriving DecidableEq, Repr

/-- `struct hvfs_txg`; `owner` is the commit thread in `cond`, and `dirtyList` names the ITBs. -/
structure SharedTxg (κ : Type) where
  txg : U64
  state : TxgState
  txPending : Int
  owner : Option κ
  dirtyList : List Nat

/-- What `txg_alloc` returns. -/
def SharedTxg.zero (κ : Type) : SharedTxg κ where
  txg := 0
  state := .opened
  txPending := 0
  owner := none
  dirtyList := []

/-! ### Threads -/

/-- The next step of a thread in `mds_get_open_txg`: reading the open pointer, `txg_get`, the test
of the state, and `txg_put` before `goto retry`. -/
inductive GetStage
  | idle
  | read
  | get (t : Nat)
  | test (t : Nat)
  | put (t : Nat)
  deriving DecidableEq, Repr

/-- A thread with the groups that `mds_get_open_txg` returned to it and that it has not put. -/
structure TxgThread where
  stage : GetStage
  held : List Nat
  deriving DecidableEq, Repr

/-- The next step of the thread in `txg_switch` for the new group `nt`; it is idle in
`txg_changer`. -/
inductive SwitchStage
  | idle
  | alloc
  | assertFree (nt : Nat)
  | count (nt : Nat)
  | number (nt : Nat)
  | get (nt : Nat)
  | setWb (nt : Nat)
  | loadWb (nt : Nat)
  | setState (nt t : Nat)
  | put (nt : Nat)
  | setOpen (nt : Nat)
  deriving DecidableEq, Repr

/-- The next step of a commit thread in `txg_commit` with the group `t`. -/
inductive CommitStage
  | idle
  /-- `mcond_lock`, the test of the state, the assignment, `mcond_unlock`. -/
  | lock (t : Nat)
  | test (t : Nat)
  | mark (t : Nat)
  | unlock (t : Nat) (goes : Bool)
  /-- Reading `tx_pending`, and comparing `t` with the write-back pointer after the wait. -/
  | wait (t : Nat)
  | compare (t : Nat)
  /-- The walk of the dirty list, clearing the write-back pointer, `txg_trigger_ccb`. -/
  | walk (t : Nat)
  | clear (t : Nat)
  | trigger (t : Nat)
  deriving DecidableEq, Repr

/-! ### The system -/

/-- The groups allocated so far, `hmo.txg[TXG_OPEN]`, `hmo.txg[TXG_WB]`, `hmi.mi_txg`, and the
threads. -/
structure TxgSystem (ι κ : Type) where
  txg : Nat → SharedTxg κ
  total : Nat
  openTxg : Nat
  wbTxg : Option Nat
  miTxg : U64
  thread : ι → TxgThread
  switcher : SwitchStage
  commit : κ → CommitStage
  /-- The groups whose dirty list a commit thread has come to, once for each time. -/
  walks : List Nat

/-- The system after `memset(&hmi, 0, sizeof(hmi))` and `txg_init(0)`. -/
def TxgSystem.init (ι κ : Type) : TxgSystem ι κ where
  txg := fun _ => SharedTxg.zero κ
  total := 1
  openTxg := 0
  wbTxg := none
  miTxg := 0
  thread := fun _ => ⟨.idle, []⟩
  switcher := .idle
  commit := fun _ => .idle
  walks := []

/-- What may happen next. -/
inductive TxgEvent (ι κ : Type)
  /-- A thread calls `mds_get_open_txg`, or makes its next step in it. -/
  | call (i : ι)
  | step (i : ι)
  /-- A thread calls `txg_put` or `txg_add_itb` with a group that it holds. -/
  | put (i : ι) (t : Nat)
  | addItb (i : ι) (t x : Nat)
  /-- The next step in `txg_switch`; `memory` is `xzalloc`. -/
  | switch (memory : Bool)
  /-- The next step of a commit thread. -/
  | commit (c : κ)

/-! ### Steps -/

section Steps

variable {ι κ : Type} [DecidableEq ι] [DecidableEq κ]

/-- The system after a change of one group. -/
def TxgSystem.setTxg (s : TxgSystem ι κ) (t : Nat) (txg : SharedTxg κ) : TxgSystem ι κ :=
  { s with txg := Function.update s.txg t txg }

/-- A group with another count of references: `atomic64_inc` and `atomic64_dec`. -/
def TxgSystem.pend (s : TxgSystem ι κ) (t : Nat) (change : Int) : TxgSystem ι κ :=
  s.setTxg t { s.txg t with txPending := (s.txg t).txPending + change }

/-- A thread in another stage, with the groups that it holds. -/
def TxgSystem.goOn (s : TxgSystem ι κ) (i : ι) (stage : GetStage) (held : List Nat) :
    TxgSystem ι κ :=
  { s with thread := Function.update s.thread i ⟨stage, held⟩ }

/-- A commit thread in another stage. -/
def TxgSystem.committing (s : TxgSystem ι κ) (c : κ) (stage : CommitStage) : TxgSystem ι κ :=
  { s with commit := Function.update s.commit c stage }

/-- An ITB is linked into the dirty list of some group. -/
def TxgSystem.dirty (s : TxgSystem ι κ) (x : Nat) : Bool :=
  (List.range s.total).any fun t => decide (x ∈ (s.txg t).dirtyList)

/-- The next step of a thread in `mds_get_open_txg`. -/
def getStep (s : TxgSystem ι κ) (i : ι) : Option (TxgSystem ι κ) :=
  let held := (s.thread i).held
  match (s.thread i).stage with
  | .idle => none
  | .read => some (s.goOn i (.get s.openTxg) held)
  | .get t => some ((s.pend t 1).goOn i (.test t) held)
  | .test t =>
    if (s.txg t).state = .opened then some (s.goOn i .idle (t :: held))
    else some (s.goOn i (.put t) held)
  | .put t => some ((s.pend t (-1)).goOn i .read held)

/-- The next step in `txg_switch`. `none` is the assertion that nothing is in write-back. -/
def switchStep (s : TxgSystem ι κ) (memory : Bool) : Option (TxgSystem ι κ) :=
  match s.switcher with
  | .idle => if s.wbTxg = none then some { s with switcher := .alloc } else some s
  | .alloc =>
    if memory then
      some { s.setTxg s.total (SharedTxg.zero κ) with
        total := s.total + 1
        switcher := .assertFree s.total }
    else some { s with switcher := .idle }
  | .assertFree nt => if s.wbTxg = none then some { s with switcher := .count nt } else none
  | .count nt =>
    some { s with
      miTxg := s.miTxg + 1
      switcher := .number nt }
  | .number nt =>
    some { s.setTxg nt { s.txg nt with txg := s.miTxg } with switcher := .get nt }
  | .get nt => some { s.pend s.openTxg 1 with switcher := .setWb nt }
  | .setWb nt =>
    some { s with
      wbTxg := some s.openTxg
      switcher := .loadWb nt }
  | .loadWb nt =>
    match s.wbTxg with
    | none => none
    | some t => some { s with switcher := .setState nt t }
  | .setState nt t =>
    some { s.setTxg t { s.txg t with state := .wb } with switcher := .put nt }
  | .put nt => some { s.pend s.openTxg (-1) with switcher := .setOpen nt }
  | .setOpen nt =>
    some { s with
      openTxg := nt
      switcher := .idle }

/-- The next step of a commit thread. `none` is a lock that another one holds. -/
def commitStep (s : TxgSystem ι κ) (c : κ) : Option (TxgSystem ι κ) :=
  match s.commit c with
  | .idle =>
    match s.wbTxg with
    | none => some s
    | some t => some (s.committing c (.lock t))
  | .lock t =>
    if (s.txg t).owner = none then
      some ((s.setTxg t { s.txg t with owner := some c }).committing c (.test t))
    else none
  | .test t =>
    if (s.txg t).state = .wb then some (s.committing c (.mark t))
    else some (s.committing c (.unlock t false))
  | .mark t =>
    some ((s.setTxg t { s.txg t with state := .wbing }).committing c (.unlock t true))
  | .unlock t goes =>
    some ((s.setTxg t { s.txg t with owner := none }).committing c
      (if goes then .wait t else .idle))
  | .wait t =>
    if (s.txg t).txPending = 0 then
      some { s.committing c (.walk t) with walks := s.walks ++ [t] }
    else some (s.committing c (.compare t))
  | .compare t => some (s.committing c (if s.wbTxg = some t then .wait t else .idle))
  | .walk t =>
    match (s.txg t).dirtyList with
    | [] => some (s.committing c (.clear t))
    | _ :: rest => some (s.setTxg t { s.txg t with dirtyList := rest })
  | .clear t => some { s.committing c (.trigger t) with wbTxg := none }
  | .trigger _ => some (s.committing c .idle)

/-- The system after an event; `none` when the event cannot happen. -/
def txgEvent (s : TxgSystem ι κ) : TxgEvent ι κ → Option (TxgSystem ι κ)
  | .call i =>
    if (s.thread i).stage = .idle then some (s.goOn i .read (s.thread i).held) else none
  | .step i => getStep s i
  | .put i t =>
    if (s.thread i).stage = .idle ∧ t ∈ (s.thread i).held then
      some ((s.pend t (-1)).goOn i .idle ((s.thread i).held.erase t))
    else none
  | .addItb i t x =>
    if (s.thread i).stage = .idle ∧ t ∈ (s.thread i).held then
      if s.dirty x then some s
      else some (s.setTxg t { s.txg t with dirtyList := (s.txg t).dirtyList ++ [x] })
    else none
  | .switch memory => switchStep s memory
  | .commit c => commitStep s c

end Steps

end Hvfs
