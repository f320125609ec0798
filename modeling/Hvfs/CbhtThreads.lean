/-
This file embeds the CBHT as any number of threads share it: `mds_cbht_search`
up to the block, `mds_cbht_insert_bbrlocked` with the splits it makes, and
`mds_cbht_del`, in the steps between which other threads may run.

A bucket and a bucket entry have read-write locks; who holds one can be read off
the stages of the threads. A thread that would have to wait has no step. What a
thread does under the write lock of a bucket entry is one step, and so is one
level of a split with its update of the directory: both run under write locks
that keep every other thread away from what they touch. The count of a new block
is a step of its own, after the write lock is given back. Allocations succeed.
-/

import Hvfs.CbhtMap
import Mathlib.Data.Fintype.Basic

namespace Hvfs

/-! ### Threads -/

/-- A call: `mds_cbht_insert_bbrlocked` for a block with its key in its header, the search of
`mds_cbht_search`, or `mds_cbht_del`. -/
inductive CbhtOp
  | insert (i : Nat)
  | search (puuid itbid : U64)
  | del (i : Nat)
  deriving DecidableEq, Repr

/-- The hash that a call looks for in the directory. -/
def CbhtOp.hash (hvfsHash : U64 → U64 → U64) (t : Cbht) : CbhtOp → U64
  | .insert i | .del i => (t.itb i).hash
  | .search puuid itbid => hvfsHash puuid itbid

/-- Where a thread is. -/
inductive CbhtStage
  | idle
  /-- `mds_cbht_search_dir` begins, or begins again. -/
  | seek (op : CbhtOp)
  /-- `mds_cbht_search_dir` has returned the bucket `b`, read-locked, and the depth. -/
  | locked (op : CbhtOp) (b sdepth : Nat)
  /-- `cbht_bucket_split` has given the read lock back and waits for the write lock. -/
  | overfull (i b sdepth : Nat)
  /-- A level of the split of `ob` begins, under its write lock. -/
  | split (i ob : Nat)
  /-- There is room in the bucket, and the chain is searched next. -/
  | room (i b : Nat)
  /-- The block is on its chain, and the bucket entry is unlocked; it is not counted yet. -/
  | hung (i b : Nat)
  /-- The chain has the block `x` under the key, and the bucket entry is unlocked. -/
  | entry (x b o : Nat)
  /-- The bucket is not empty, and the chain is searched next. -/
  | walk (puuid itbid : U64) (b : Nat)
  /-- The block `x` is returned, with the read locks of its bucket and its bucket entry. -/
  | inserted (x b o : Nat)
  | found (x b o : Nat)
  deriving DecidableEq, Repr

/-- The bucket that the thread holds the read lock of. -/
def CbhtStage.reads : CbhtStage → Option Nat
  | .locked _ b _ | .room _ b | .hung _ b | .entry _ b _ | .walk _ _ b | .inserted _ b _
  | .found _ b _ => some b
  | _ => none

/-- The bucket that the thread holds the write lock of. -/
def CbhtStage.writes : CbhtStage → Option Nat
  | .split _ ob => some ob
  | _ => none

/-- The bucket entry that the thread holds the read lock of. -/
def CbhtStage.readsEntry : CbhtStage → Option (Nat × Nat)
  | .inserted _ b o | .found _ b o => some (b, o)
  | _ => none

/-- The block that the thread inserts. -/
def CbhtStage.inserts : CbhtStage → Option Nat
  | .seek (.insert i) | .locked (.insert i) _ _ | .overfull i _ _ | .split i _ | .room i _
  | .hung i _ => some i
  | _ => none

/-- The block that the thread deletes. -/
def CbhtStage.dels : CbhtStage → Option Nat
  | .seek (.del i) | .locked (.del i) _ _ => some i
  | _ => none

/-- What a call has done, at the step where it did it. -/
inductive CbhtEffect
  /-- A block was inserted, or the block `oi` was found in its place. -/
  | insert (i : Nat) (key : U64 × U64) (oi : Option Nat)
  /-- The block was counted in its bucket. -/
  | count (i : Nat)
  /-- A search along the chain. -/
  | search (key : U64 × U64) (x : Option Nat)
  /-- A search that took the bucket for empty. -/
  | empty (key : U64 × U64)
  /-- A deletion, and whether the block was there. -/
  | del (i : Nat) (attached : Bool)
  deriving DecidableEq, Repr

structure CbhtSystem (Thread : Type) where
  table : Cbht
  stage : Thread → CbhtStage
  /-- What calls have done so far. -/
  history : List CbhtEffect

/-- After `mds_cbht_init`. -/
def CbhtSystem.init (Thread : Type) (bdepth : Nat) (key : Nat → U64 × U64) :
    CbhtSystem Thread where
  table := mdsCbhtInit bdepth (freeItbs key)
  stage _ := .idle
  history := []

/-! ### Steps -/

/-- What a thread does next: it begins a call, or goes on with it. An insertion begins with the key
in the header of the block. -/
inductive CbhtAction
  | insert (i : Nat) (puuid itbid : U64)
  | search (puuid itbid : U64)
  | del (i : Nat)
  | next
  deriving DecidableEq, Repr

/-- The table with another header of a block. -/
def Cbht.setItb (t : Cbht) (i : Nat) (header : Itbh) : Cbht :=
  { t with itb := Function.update t.itb i header }

/-- `atomic_inc(&b->active)`. -/
def Cbht.count (t : Cbht) (b : Nat) : Cbht :=
  { t with
    bucket := Function.update t.bucket b
      { t.bucket b with active := (t.bucket b).active + 1 } }

section Steps

variable {Thread : Type} [DecidableEq Thread] [Fintype Thread]

def CbhtSystem.go (s : CbhtSystem Thread) (thread : Thread) (stage : CbhtStage) :
    CbhtSystem Thread :=
  { s with stage := Function.update s.stage thread stage }

def CbhtSystem.did (s : CbhtSystem Thread) (effect : CbhtEffect) : CbhtSystem Thread :=
  { s with history := s.history ++ [effect] }

/-- The locks that keep a thread from a read lock, a write lock of a bucket, and a write lock of a
bucket entry. -/
def CbhtSystem.WriteLocked (s : CbhtSystem Thread) (b : Nat) : Prop :=
  ∃ thread, (s.stage thread).writes = some b

def CbhtSystem.ReadLocked (s : CbhtSystem Thread) (b : Nat) : Prop :=
  ∃ thread, (s.stage thread).reads = some b

def CbhtSystem.EntryLocked (s : CbhtSystem Thread) (b o : Nat) : Prop :=
  ∃ thread, (s.stage thread).readsEntry = some (b, o)

instance (s : CbhtSystem Thread) (b : Nat) : Decidable (s.WriteLocked b) :=
  Fintype.decidableExistsFintype

instance (s : CbhtSystem Thread) (b : Nat) : Decidable (s.ReadLocked b) :=
  Fintype.decidableExistsFintype

instance (s : CbhtSystem Thread) (b o : Nat) : Decidable (s.EntryLocked b o) :=
  Fintype.decidableExistsFintype

/-- No thread inserts the block. -/
def CbhtSystem.Settled (s : CbhtSystem Thread) (i : Nat) : Prop :=
  ∀ thread, (s.stage thread).inserts ≠ some i

/-- No thread works on the block. -/
def CbhtSystem.Unused (s : CbhtSystem Thread) (i : Nat) : Prop :=
  ∀ thread, (s.stage thread).inserts ≠ some i ∧ (s.stage thread).dels ≠ some i

instance (s : CbhtSystem Thread) (i : Nat) : Decidable (s.Settled i) :=
  Fintype.decidableForallFintype

instance (s : CbhtSystem Thread) (i : Nat) : Decidable (s.Unused i) :=
  Fintype.decidableForallFintype

/-- A level of a split, to what the thread does after it. -/
def splitNext (t : Cbht) (i ob : Nat) : Option (CbhtStage × Cbht) :=
  if (t.bucket ob).depth + 1 ≥ 31 then none
  else
    let criminal := (t.itb i).hash
    let (nb, t) := splitLevel t ob
    let inNew := hashBit t.bucketDepth criminal (t.bucket nb).depth
    match cbhtUpdateDir t nb with
    | .error _ => none
    | .ok (err, t) =>
      if err ≠ 0 then some (.idle, t)
      else if (t.bucket nb).active = 0 ∧ !inNew then some (.split i ob, t)
      else if (t.bucket ob).active = 0 ∧ inNew then some (.split i nb, t)
      else some (.seek (.insert i), t)

/-- The next step of a thread in its call. -/
def cbhtNext (hvfsHash : U64 → U64 → U64) (s : CbhtSystem Thread) (thread : Thread) :
    Option (CbhtSystem Thread) :=
  let t := s.table
  match s.stage thread with
  | .idle => none
  | .seek op =>
    match mdsCbhtSearchDir t (op.hash hvfsHash t) with
    | none => some (s.go thread .idle)
    -- `xrwlock_tryrlock` fails while the bucket is split, and the search begins again
    | some b => if s.WriteLocked b then none else some (s.go thread (.locked op b t.dirDepth))
  | .locked (.insert i) b sdepth =>
    if (t.bucket b).active ≥ ((2 <<< (t.bucket b).adepth : Nat) : Int) then
      some (s.go thread (.overfull i b sdepth))
    else some (s.go thread (.room i b))
  | .locked (.search puuid itbid) b _ =>
    if (t.bucket b).active = 0 then some ((s.did (.empty (puuid, itbid))).go thread .idle)
    else some (s.go thread (.walk puuid itbid b))
  | .locked (.del i) b _ =>
    let o := t.low (t.itb i).hash
    if s.EntryLocked b o then none
    else if (t.itb i).be ≠ some (b, o) then some ((s.did (.del i false)).go thread .idle)
    else some (({ s with table := t.detach i b o }.did (.del i true)).go thread .idle)
  | .overfull i b sdepth =>
    if s.WriteLocked b ∨ s.ReadLocked b then none
    else if (t.bucket b).active < ((2 <<< (t.bucket b).adepth : Nat) : Int) then
      some (s.go thread (.seek (.insert i)))
    else if sdepth ≠ t.dirDepth then some (s.go thread (.seek (.insert i)))
    else some (s.go thread (.split i b))
  | .split i ob =>
    (splitNext t i ob).map fun (stage, table) => { s with table := table }.go thread stage
  | .room i b =>
    let o := t.low (t.itb i).hash
    if s.EntryLocked b o then none
    else
      match ((t.bucket b).content o).find? (t.keyIs (t.itb i).puuid (t.itb i).itbid) with
      | some ih => some ((s.did (.insert i (t.key i) (some ih))).go thread (.entry ih b o))
      | none =>
        some (({ s with table := t.hang i b o (t.bucket b).active }.did
          (.insert i (t.key i) none)).go thread (.hung i b))
  | .hung i b =>
    some (({ s with table := t.count b }.did (.count i)).go thread
      (.entry i b (t.low (t.itb i).hash)))
  | .entry x b o => some (s.go thread (.inserted x b o))
  | .walk puuid itbid b =>
    let o := t.low (hvfsHash puuid itbid)
    match ((t.bucket b).content o).find? (t.keyIs puuid itbid) with
    | some x => some ((s.did (.search (puuid, itbid) (some x))).go thread (.found x b o))
    | none => some ((s.did (.search (puuid, itbid) none)).go thread .idle)
  | .inserted _ _ _ | .found _ _ _ => some (s.go thread .idle)

/-- A step of the system. A block that is inserted is free, and only its own thread works on it. -/
def cbhtThreadStep (hvfsHash : U64 → U64 → U64) (s : CbhtSystem Thread) :
    Thread × CbhtAction → Option (CbhtSystem Thread)
  | (thread, .insert i puuid itbid) =>
    if s.stage thread = .idle ∧ (s.table.itb i).be = none ∧ s.Unused i then
      let header := ⟨puuid, itbid, hvfsHash puuid itbid, none⟩
      some ({ s with table := s.table.setItb i header }.go thread (.seek (.insert i)))
    else none
  | (thread, .search puuid itbid) =>
    if s.stage thread = .idle then some (s.go thread (.seek (.search puuid itbid))) else none
  | (thread, .del i) =>
    if s.stage thread = .idle ∧ s.Settled i then some (s.go thread (.seek (.del i))) else none
  | (thread, .next) => cbhtNext hvfsHash s thread

end Steps

end Hvfs
