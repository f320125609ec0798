/-
This file embeds the steps of the threads that run `mds_cbht_search`, of the
timer that switches TXGs, of the commit thread that walks a dirty list, and of
the asynchronous unlink. A step is what is done under one lock, or under the
read locks of a bucket entry and a block; what the environment decides is in
the event.

The storage server is not part of this repository, so `mds_read_itb` finds
nothing. Buckets are not split.
-/

import Hvfs.ItbServer
import Mathlib.Data.Fintype.Basic

namespace Hvfs

inductive ServerEvent (Thread : Type)
  /-- `mds_alloc_tx`, with the open TXG. -/
  | begin (thread : Thread) (hi : HvfsIndex)
  /-- `mds_cbht_search`; `active` says whether the count of the bucket is not 0. It is incremented
  only after the locks of an insertion are given back. -/
  | search (thread : Thread) (active : Bool)
  /-- `get_free_itb` in `cbht_itb_miss`; `room` says whether there is memory. -/
  | getFree (thread : Thread) (room : Bool)
  /-- `mds_cbht_insert_bbrlocked`; `ok` says whether it comes to the bucket entry. -/
  | insert (thread : Thread) (ok : Bool)
  /-- `cbht_itb_hit` on the block that was inserted or found. -/
  | hit (thread : Thread)
  /-- `itb_dirty` with the write locks. -/
  | swap (thread : Thread)
  /-- `itb_dirty` when it lost. -/
  | lost (thread : Thread)
  /-- `itb_dirty` when it won, and the search on the copy. -/
  | again (thread : Thread)
  /-- `txg_put` of the transaction. -/
  | put (thread : Thread)
  /-- `txg_switch`. -/
  | switch
  /-- `txg_commit`: nothing is pending any more. -/
  | commitStart
  /-- `txg_commit`: one block of the dirty list. -/
  | commitWalk
  /-- `txg_commit`: the list is done. -/
  | commitEnd
  /-- `async_unlink_local`: the block that is `steps + 1` links behind the head of the list. -/
  | reclaim (steps limit : Nat) (count : UnlinkCount)

section Step

variable {Thread : Type} (c : ItbConfig) (s : ItbServer Thread)

/-- The copy may be put in the place of the block: it is still attached where it was, DIRTY in the
TXG before. -/
def ItbServer.Replaceable (request : Request) (x be : Nat) : Prop :=
  (s.head x).be = some be ∧ request.txg = (s.head x).txg + 1 ∧ (s.head x).state = .dirty

instance (request : Request) (x be : Nat) : Decidable (s.Replaceable request x be) :=
  inferInstanceAs (Decidable (_ ∧ _))

/-- The copy `n` is put in the place of `x`, and the rest of the block is copied. -/
def ItbServer.replace (txg x n be : Nat) : ItbServer Thread :=
  { s with
    chain := Function.update (fun e => (s.chain e).filter (· ≠ x)) be
      (n :: (s.chain be).filter (· ≠ x))
    head := Function.update
      (Function.update s.head x { s.head x with state := .cowed, be := none }) n
      { s.head n with txg := txg, state := .dirty, be := some be }
    block := Function.update s.block n (itbCowRecopy (s.block x) (s.block n)) }

/-! ### A block is searched -/

/-- The call of `itb_dirty` is noted. -/
def ItbServer.note (txg x : Nat) : ItbServer Thread :=
  { s with calls := s.calls ++ [⟨txg, (s.head x).txg, (s.head x).state, s.openTxg⟩] }

/-- The block is changed as `itb_search` leaves it. An entry that goes UNLINKED puts the block on
the list of the asynchronous unlink, unless it is on a list. -/
def ItbServer.write (request : Request) (txg x : Nat) (result : SearchResult) : ItbServer Thread :=
  { s with
    block := Function.update s.block x result.itb
    hmi := result.hmi
    unlink := if result.itb.unlink ∧ s.unlink.next (some x) = some x then
      s.unlink.addTail (some x) none else s.unlink
    dirtied := s.dirtied ++ [(txg, x)]
    written := s.written ++ [(txg, x)]
    modified := if result.err = 0 then
      s.modified ++ [⟨request.key, x, s.attached c request.key = some x, (s.head x).state⟩]
      else s.modified }

/-- `itb_dirty` puts the copy on the dirty list. -/
def ItbServer.addCopy (request : Request) (n : Nat) : ItbServer Thread :=
  txgAddItb { s with dirtied := s.dirtied ++ [(request.txg, n)] } request.txg n

section Requests

variable [DecidableEq Thread] (thread : Thread)

/-- `itb_search` on a block, in the section of its read lock. -/
def visit (request : Request) (x : Nat) : Option (ItbServer Thread) :=
  match itbPlan (s.block x) request.hi with
  | none => none
  | some (.done err _) => some (s.setStage thread (.returned request.txg err))
  | some (.dirty act) =>
    match itbDirty c (s.note request.txg x) request.txg x with
    | .failed => some { s.note request.txg x with halted := true }
    | .cow n be t => some (t.setStage thread (.cowWait request x n be))
    | .use txg t =>
      (itbAct t.hmi { t.block x with unlink := false } request.hi act).map fun result =>
        (t.write c request txg x result).setStage thread (.returned txg result.err)

/-! ### The steps of a request -/

/-- `mds_cbht_search` up to its hit or its miss. -/
def searchStep (request : Request) (active : Bool) : Option (ItbServer Thread) :=
  if active then
    match s.attached c request.key with
    | some x => if (s.head x).state = .cowed then some s else visit c s thread request x
    | none => some (s.setStage thread (.miss request))
  else if Flag.has request.hi.flag INDEX_CREATE then some (s.setStage thread (.miss request))
  else some (s.setStage thread (.returned request.txg (-ENOENT)))

/-- `cbht_itb_miss` up to the insertion. -/
def missStep (request : Request) (room : Bool) : ItbServer Thread :=
  if Creates request.hi then
    if room then
      let (n, t) := getFreeItb c s request.txg
      (t.setHead n { t.head n with key := request.key }).setStage thread (.insert request n)
    else s.setStage thread (.returned request.txg (-ENOMEM))
  else s.setStage thread (.returned request.txg (-ENOENT))

/-- `mds_cbht_insert_bbrlocked`. -/
def insertStep (request : Request) (n : Nat) (ok : Bool) : ItbServer Thread :=
  if ok then
    let be := c.bucket (s.head n).key
    match (s.chain be).find? fun x => (s.head x).key = (s.head n).key with
    | some y => s.setStage thread (.insertHit request y (some n))
    | none =>
      ({ s with
        chain := Function.update s.chain be (n :: s.chain be)
        head := Function.update s.head n { s.head n with be := some be } } : ItbServer Thread)
        |>.setStage thread (.insertHit request n none)
  else s.setStage thread (.returned request.txg (-ENOENT))

/-- The new block that was not needed is given back. -/
def freeUnused (request : Request) (y : Nat) (unused : Option Nat) : ItbServer Thread :=
  match unused with
  | some n => (itbFree s n).setStage thread (.insertHit request y none)
  | none => s

/-- `cbht_itb_hit` after the insertion. -/
def hitStep (request : Request) (y : Nat) (unused : Option Nat) : Option (ItbServer Thread) :=
  let s := freeUnused s thread request y unused
  if (s.head y).state = .cowed then some (s.setStage thread (.search request))
  else visit c s thread request y

/-- `itb_dirty` with the write locks. -/
def swapStep (request : Request) (x n be : Nat) : ItbServer Thread :=
  if s.Replaceable request x be then
    (s.replace request.txg x n be).setStage thread (.cowWon request n)
  else s.setStage thread (.cowLost request n)

/-- `itb_dirty` when it lost: the copy is given back, and the search begins again. -/
def lostStep (request : Request) (n : Nat) : ItbServer Thread :=
  (itbFree s n).setStage thread (.search request)

/-- `itb_dirty` when it won: the copy is put on the dirty list and returned, and searched. -/
def againStep (request : Request) (n : Nat) : Option (ItbServer Thread) :=
  visit c (s.addCopy request n) thread request n

end Requests

/-! ### The other threads -/

/-- `txg_switch`. -/
def ItbServer.txgSwitch : ItbServer Thread :=
  { s with
    wb := some ⟨s.openTxg, false⟩
    openTxg := s.openTxg + 1 }

/-- `txg_commit` with the first block of the dirty list, which is freed or CLEAN afterwards. -/
def commitItb (txg x : Nat) (rest : List Nat) : ItbServer Thread :=
  let t : ItbServer Thread := { s with
    dirtyList := Function.update s.dirtyList txg rest
    head := Function.update s.head x { s.head x with listed := false } }
  if (s.head x).state = .cowed then itbFree t x
  else t.setHead x { t.head x with state := .clean }

/-- `async_unlink_local` with one block. -/
def reclaimItb (limit : Nat) (count : UnlinkCount) (x : Nat) : Option (ItbServer Thread) :=
  if (s.head x).state = .cowed then some s
  else (asyncUnlinkIte limit (s.block x) count).map fun result => s.setBlock x result.1

end Step

variable {Thread : Type} [DecidableEq Thread] [Fintype Thread]

/-- `t->tx_pending` is not zero. -/
def ItbServer.Pending (s : ItbServer Thread) (txg : Nat) : Prop :=
  ∃ thread, (s.stage thread).held = some txg

instance (s : ItbServer Thread) (txg : Nat) : Decidable (s.Pending txg) :=
  Fintype.decidableExistsFintype

def serverStep (c : ItbConfig) (s : ItbServer Thread) (event : ServerEvent Thread) :
    Option (ItbServer Thread) :=
  if s.halted then none
  else
    match event with
    | .begin thread hi =>
      match s.stage thread with
      | .idle => some (s.setStage thread (.search ⟨hi, s.openTxg⟩))
      | _ => none
    | .search thread active =>
      match s.stage thread with
      | .search request => searchStep c s thread request active
      | _ => none
    | .getFree thread room =>
      match s.stage thread with
      | .miss request => some (missStep c s thread request room)
      | _ => none
    | .insert thread ok =>
      match s.stage thread with
      | .insert request n => some (insertStep c s thread request n ok)
      | _ => none
    | .hit thread =>
      match s.stage thread with
      | .insertHit request y unused => hitStep c s thread request y unused
      | _ => none
    | .swap thread =>
      match s.stage thread with
      | .cowWait request x n be => some (swapStep s thread request x n be)
      | _ => none
    | .lost thread =>
      match s.stage thread with
      | .cowLost request n => some (lostStep s thread request n)
      | _ => none
    | .again thread =>
      match s.stage thread with
      | .cowWon request n => againStep c s thread request n
      | _ => none
    | .put thread =>
      match s.stage thread with
      | .returned _ _ => some (s.setStage thread .idle)
      | _ => none
    | .switch => if s.wb = none then some s.txgSwitch else none
    | .commitStart =>
      match s.wb with
      | some ⟨txg, false⟩ =>
        if s.Pending txg then none else some { s with wb := some ⟨txg, true⟩ }
      | _ => none
    | .commitWalk =>
      match s.wb with
      | some ⟨txg, true⟩ =>
        match s.dirtyList txg with
        | [] => none
        | x :: rest => some (commitItb s txg x rest)
      | _ => none
    | .commitEnd =>
      match s.wb with
      | some ⟨txg, true⟩ => if s.dirtyList txg = [] then some { s with wb := none } else none
      | _ => none
    | .reclaim steps limit count =>
      match s.unlink.next^[steps + 1] none with
      | some x => reclaimItb s limit count x
      | none => none

/-- The configuration of the runs that are given step by step: eight entries in a block, and one
bucket entry. -/
def smallConfig : ItbConfig where
  depth := 3
  bucket _ := 0

/-- The requests of these runs are for the block 0 of the directory 0, by a name of one letter. -/
def nameSearch (flag : U32) : HvfsIndex := collidingIndex (flag ||| INDEX_BY_NAME) 0 97

def letterSearch (letter : U8) : HvfsIndex :=
  collidingIndex (INDEX_CREATE ||| INDEX_BY_NAME) 0 letter

/-- One thread creates the name in a new block. -/
def createRun : List (ServerEvent Unit) :=
  [.begin () (nameSearch INDEX_CREATE), .search () false, .getFree () true, .insert () true,
    .hit ()]

/-- A name is created and unlinked in the TXG 1. -/
def unlinkRun : List (ServerEvent Unit) :=
  createRun ++ [.put (), .begin () (nameSearch INDEX_UNLINK), .search () true]

end Hvfs
