/-
This file embeds the locking of `mds_cbht_search`: the functions from
`mds_cbht_search_dir` to `itb_dirty`, each as the trace of the bucket, entry,
block and index locks that it takes and gives back. The lock of the directory is
included; locks that are taken and given back around a few lines of one function
are not.

Other threads may change everything that the thread has not locked, and some of
what it has, so what the thread reads is part of the description of a run: the
counts of a bucket, the blocks found, the headers that `itb_dirty` reads before
and after it exchanges its locks, and what the blocks hold. A description that
does not fit the code has no trace.

`xrwlock_runlock` and `xrwlock_wunlock` are one function.
-/

import Hvfs.CbhtCache
import Hvfs.Library.LockTrace

namespace Hvfs

open LockOp

/-! ### Locks -/

/-- The locks: of the directory, a bucket, an entry of a bucket, a block, and one of the index locks
of a block. -/
inductive LockName
  | dir
  | bucket (b : Nat)
  | entry (be : Nat × Nat)
  | itb (i : Nat)
  | index (i slot : Nat)
  deriving DecidableEq, Repr

abbrev LockTrace := List (LockOp LockName)

/-- What a run returns, behind the trace up to there. -/
abbrev Traced (α : Type) := Option (LockTrace × α)

/-- A trace before the rest of the run. -/
def LockTrace.before {α : Type} (front : LockTrace) (rest : Traced α) : Traced α :=
  rest.map fun (trace, result) => (front ++ trace, result)

/-- What does not change during a request: its index, the number of its transaction group, whether
blocks have index locks, and the offset of its key in a bucket. -/
structure LockRequest where
  hi : HvfsIndex
  txg : Nat
  indexLocks : Bool
  offset : Nat

/-- `ITB_STATE_CLEAN` and the other states. -/
inductive ItbState
  | clean
  | dirty
  | wbed
  | cowed
  deriving DecidableEq, Repr

/-- What `itb_dirty` reads of `struct itbh`. -/
structure ItbHead where
  txg : Nat
  state : ItbState
  be : Option (Nat × Nat)
  deriving DecidableEq, Repr

/-! ### The directory -/

/-- A run of `mds_cbht_search_dir`: how often the bucket could not be locked, and the bucket. -/
structure DirLook where
  tries : Nat
  bucket : Option Nat

/-- `mds_cbht_search_dir`. -/
def DirLook.trace (look : DirLook) : LockTrace :=
  (List.replicate look.tries [lock .dir, unlock .dir]).flatten ++
    lock .dir :: ((look.bucket.map fun b => lock (.bucket b)).toList ++ [unlock .dir])

/-! ### Blocks -/

/-- A block that `get_free_itb` returns; one that is still attached goes through `mds_cbht_del`. -/
structure FreeItb where
  number : Nat
  del : Option (DirLook × Nat)

/-- `get_free_itb`. -/
def FreeItb.trace (free : FreeItb) : LockTrace :=
  match free.del with
  | none => []
  | some (look, offset) =>
    look.trace ++
      match look.bucket with
      | none => []
      | some b =>
        [lock (.entry (b, offset)), lock (.itb free.number), unlock (.itb free.number),
          unlock (.entry (b, offset)), unlock (.bucket b)]

/-- One turn of `itb_search`: what the block holds, its header as `itb_dirty` reads it and reads it
again, and the block that `itb_cow` gets. -/
structure SearchRound where
  hmi : Hmi
  content : Itb
  first : ItbHead
  second : ItbHead
  copy : FreeItb

/-- How `itb_dirty` ends: with the block itself, with its copy, or after another thread's copy. -/
inductive DirtyEnd
  | same
  | won
  | lost
  deriving DecidableEq, Repr

/-- `itb_dirty`; `l` is the index lock as far as there is one. `none` is its assertion, or a block
without an entry. -/
def itbDirtyLocks (r : LockRequest) (i : Nat) (l : List LockName) (round : SearchRound) :
    Traced DirtyEnd :=
  if r.txg = round.first.txg then some ([], .same)
  else if r.txg = round.first.txg + 1 then
    match round.first.state, round.first.be with
    | .cowed, _ => none
    | .dirty, some be =>
      let n := round.copy.number
      let exchange := round.copy.trace ++ (l.map unlock ++
        [unlock (.itb i), unlock (.entry be), lock (.entry be), lock (.itb i)])
      if round.second.be ≠ some be ∨ r.txg ≠ round.second.txg + 1 ∨ round.second.state ≠ .dirty then
        some (exchange ++ ([unlock (.itb i), unlock (.entry be), lock (.entry be), lock (.itb i)] ++
          l.map lock), .lost)
      else
        some (exchange ++ [unlock (.itb i), unlock (.entry be), lock (.entry be), lock (.itb n)],
          .won)
    | .dirty, none => none
    | _, _ => some ([], .same)
  else some ([], .same)

/-- The index lock of the block `i` that the request needs. -/
def LockRequest.indexLock (r : LockRequest) (i : Nat) (content : Itb) : List LockName :=
  if r.indexLocks then [.index i (hashSlot content r.hi.hash / 16)] else []

/-- `itb_search` on the block `i`: its return value and `*oi`. -/
def itbSearchLocks (r : LockRequest) : Nat → List SearchRound → Traced (Int × Nat)
  | _, [] => none
  | i, round :: rest =>
    let l := r.indexLock i round.content
    match itbPlan round.content r.hi with
    | none => none
    | some (.done err _) => some (l.map lock ++ l.map unlock, err, i)
    | some (.dirty act) =>
      match itbDirtyLocks r i l round with
      | none => none
      | some (trace, .same) =>
        (itbAct round.hmi round.content r.hi act).map fun result =>
          (l.map lock ++ (trace ++ l.map unlock), result.err, i)
      | some (trace, .lost) => some (l.map lock ++ (trace ++ l.map unlock), -EAGAIN, i)
      | some (trace, .won) =>
        LockTrace.before (l.map lock ++ trace) (itbSearchLocks r round.copy.number rest)

/-- A run of `cbht_itb_hit`: whether the block is COWED, the turns of the search, and whether the
reply's data is allocated. -/
structure HitRun where
  cowed : Bool
  rounds : List SearchRound
  replyData : Bool

/-- `cbht_itb_hit`. -/
def cbhtItbHitLocks (r : LockRequest) (i : Nat) (hit : HitRun) : Traced Int :=
  if hit.cowed then some ([lock (.itb i), unlock (.itb i)], -EAGAIN)
  else if Flag.has r.hi.flag INDEX_BY_ITB then some ([lock (.itb i), unlock (.itb i)], 0)
  else
    (itbSearchLocks r i hit.rounds).map fun (trace, err, oi) =>
      -- the pointer is refreshed behind the test of the error only
      if err ≠ 0 then (lock (.itb i) :: (trace ++ [unlock (.itb i)]), err)
      else (lock (.itb i) :: (trace ++ [unlock (.itb oi)]), if hit.replyData then 0 else -ENOMEM)

/-! ### Inserting a block -/

/-- One level of `cbht_bucket_split`: the new bucket, the error of `cbht_update_dir`, which is not
-EAGAIN, and what decides about another level. -/
structure SplitRound where
  newBucket : Option Nat
  updateErr : Int
  notAgain : updateErr ≠ -EAGAIN
  newEmpty : Bool
  oldEmpty : Bool
  inNew : Bool

/-- The levels of `cbht_bucket_split` from `retry:` on. -/
def splitLocks : Nat → List SplitRound → Traced Int
  | _, [] => none
  | ob, round :: rest =>
    match round.newBucket with
    | none => some ([unlock (.bucket ob)], -ENOMEM)
    | some nb =>
      let update := [lock (.bucket nb), lock .dir, unlock .dir]
      if round.updateErr ≠ 0 then
        some (update ++ [unlock (.bucket nb), unlock (.bucket ob)], round.updateErr)
      else if round.newEmpty && !round.inNew then
        LockTrace.before (update ++ [unlock (.bucket nb)]) (splitLocks ob rest)
      else if round.oldEmpty && round.inNew then
        LockTrace.before (update ++ [unlock (.bucket ob)]) (splitLocks nb rest)
      else some (update ++ [unlock (.bucket nb), unlock (.bucket ob)], 0)

/-- A run of `cbht_bucket_split`: whether the bucket is still full and the directory as deep as
before, and the levels. -/
structure SplitRun where
  full : Bool
  sameDepth : Bool
  rounds : List SplitRound

/-- `cbht_bucket_split`. -/
def cbhtBucketSplitLocks (ob : Nat) (split : SplitRun) : Traced Int :=
  LockTrace.before [unlock (.bucket ob), lock (.bucket ob)]
    (if split.full && split.sameDepth then splitLocks ob split.rounds
    else some ([unlock (.bucket ob)], -EAGAIN))

/-- One turn of `mds_cbht_insert_bbrlocked`: the bucket, its split if it is full, and the block
that has the key already. -/
structure InsertRound where
  look : DirLook
  split : Option SplitRun
  exist : Option Nat

/-- `mds_cbht_insert_bbrlocked` of the block `i`; without an error, or with -EEXIST, it returns a
bucket and the block in it. -/
def insertLocks (r : LockRequest) (i : Nat) :
    List InsertRound → Traced (Except Int (Nat × Nat))
  | [] => none
  | round :: rest =>
    match round.look.bucket with
    | none => some (round.look.trace, .error (-ENOENT))
    | some b =>
      match round.split, round.exist with
      | some split, _ =>
        match cbhtBucketSplitLocks b split with
        | none => none
        | some (trace, err) =>
          if err = 0 ∨ err = -EAGAIN then
            LockTrace.before (round.look.trace ++ trace) (insertLocks r i rest)
          else some (round.look.trace ++ (trace ++ [unlock (.bucket b)]), .error err)
      | none, some ih =>
        some (round.look.trace ++ [lock (.entry (b, r.offset)), unlock (.entry (b, r.offset)),
          lock (.entry (b, r.offset))], .ok (b, ih))
      | none, none =>
        some (round.look.trace ++ [lock (.entry (b, r.offset)), lock (.itb i), unlock (.itb i),
          unlock (.entry (b, r.offset)), lock (.entry (b, r.offset))], .ok (b, i))

/-- A run of `cbht_itb_miss`: the outcome of `mds_read_itb` with the number of the block, the block
of `get_free_itb`, the turns of the insertion, and the search that follows. -/
structure MissRun where
  read : ReadItb
  number : Nat
  created : Option FreeItb
  rounds : List InsertRound
  hit : HitRun

/-- The end of `cbht_itb_miss`: the block `i` is inserted and searched. -/
def insertAndHitLocks (r : LockRequest) (i : Nat) (miss : MissRun) : Traced Int :=
  match insertLocks r i miss.rounds with
  | none => none
  | some (trace, .error err) => some (trace, err)
  | some (trace, .ok (b, block)) =>
    LockTrace.before trace
      ((cbhtItbHitLocks r block miss.hit).map fun (trace, err) =>
        (trace ++
          if err = -EAGAIN then [unlock (.bucket b), unlock (.entry (b, r.offset))]
          else [unlock (.entry (b, r.offset)), unlock (.bucket b)], err))

/-- `cbht_itb_miss`. -/
def cbhtItbMissLocks (r : LockRequest) (miss : MissRun) : Traced Int :=
  match miss.read with
  | .stored _ => insertAndHitLocks r miss.number miss
  | .failed _ _ =>
    if Flag.has r.hi.flag INDEX_CREATE || Flag.has r.hi.flag INDEX_SYMLINK then
      match miss.created with
      | none => some ([], -ENOMEM)
      | some free => LockTrace.before free.trace (insertAndHitLocks r free.number miss)
    else some ([], -ENOENT)

/-! ### Searching -/

/-- One turn of `mds_cbht_search` from `retry_dir:` on: the bucket, whether it looks empty, what
the walks over the chain find, one walk for each -EAGAIN, and what follows when the block is not
there. -/
structure SearchTurn where
  look : DirLook
  empty : Bool
  walks : List (Option (Nat × HitRun))
  miss : MissRun

/-- The walks of one turn, in the chain of the entry `be`. -/
def walkLocks (r : LockRequest) (b : Nat) (miss : MissRun) :
    List (Option (Nat × HitRun)) → Traced Int
  | [] => none
  | none :: _ =>
    LockTrace.before [unlock (.entry (b, r.offset)), unlock (.bucket b)] (cbhtItbMissLocks r miss)
  | some (i, hit) :: rest =>
    match cbhtItbHitLocks r i hit with
    | none => none
    | some (trace, err) =>
      if err = -EAGAIN then LockTrace.before trace (walkLocks r b miss rest)
      else some (trace ++ [unlock (.entry (b, r.offset)), unlock (.bucket b)], err)

/-- One turn of `mds_cbht_search`. -/
def turnLocks (r : LockRequest) (turn : SearchTurn) : Traced Int :=
  LockTrace.before turn.look.trace
    (match turn.look.bucket with
    | none => some ([], -ENOENT)
    | some b =>
      if turn.empty then
        if Flag.has r.hi.flag INDEX_CREATE then
          LockTrace.before [unlock (.bucket b)] (cbhtItbMissLocks r turn.miss)
        else some ([unlock (.bucket b)], -ENOENT)
      else LockTrace.before [lock (.entry (b, r.offset))] (walkLocks r b turn.miss turn.walks))

/-- `mds_cbht_search`. -/
def mdsCbhtSearchLocks (r : LockRequest) : List SearchTurn → Traced Int
  | [] => none
  | turn :: rest =>
    match turnLocks r turn with
    | none => none
    | some (trace, err) =>
      if err = -EAGAIN then LockTrace.before trace (mdsCbhtSearchLocks r rest)
      else some (trace, err)

end Hvfs
