/-
This file embeds the blocks of a metadata server as all of its requests share
them: the headers with their lists, the free list `hmo.ic.lru`, the chains of
the CBHT, the two live transaction groups (TXGs) with their dirty lists, and the
list of the asynchronous unlink. On this it embeds `get_free_itb`, `itb_free`,
`itb_cow`, `txg_add_itb` and `itb_dirty`.

What a thread does between taking a lock and giving it back is one step; the
steps are in the next module. A TXG is known by its number, which is not bounded
here: `atomic64_inc` adds by 32 bits, and its numbers come round after 2^32
switches. A TXG has as many pending transactions as threads hold it.
-/

import Hvfs.ItbRecopy
import Hvfs.Library.Ring

namespace Hvfs

/-! ### Headers and requests -/

/-- `h.state`; `ITB_STATE_WBED` is never set. -/
inductive ItbhState
  | clean
  | dirty
  | cowed
  deriving DecidableEq, Repr

/-- `(puuid, itbid)`. -/
abbrev ItbKey := U64 × U64

/-- The part of `struct itbh` that is not about the entries: the TXG of the latest update, the
state, the key, the bucket entry that the block is attached to, and whether `list` is linked into
the free list or a dirty list. -/
structure ItbHeader where
  txg : Nat := 0
  state : ItbhState := .clean
  key : ItbKey := (0, 0)
  be : Option Nat := none
  listed : Bool := false
  deriving DecidableEq, Repr

/-- A request in `mds_cbht_search`, with the TXG that its transaction holds. -/
structure Request where
  hi : HvfsIndex
  txg : Nat
  deriving DecidableEq, Repr

def Request.key (request : Request) : ItbKey := (request.hi.puuid, request.hi.itbid)

/-- Where a thread is. It holds no lock there. -/
inductive SearchStage
  | idle
  /-- `mds_cbht_search` begins, or begins again. -/
  | search (request : Request)
  /-- `cbht_itb_miss`. -/
  | miss (request : Request)
  /-- The new block `n` is to be inserted. -/
  | insert (request : Request) (n : Nat)
  /-- `mds_cbht_insert_bbrlocked` has released the write lock; `y` is attached, and goes to
  `cbht_itb_hit`. A block that was not needed is given back first. -/
  | insertHit (request : Request) (y : Nat) (unused : Option Nat)
  /-- `itb_dirty` has released the read locks of `x`, and is to put the copy `n` in its place. -/
  | cowWait (request : Request) (x n be : Nat)
  /-- Somebody else has changed `x`. -/
  | cowLost (request : Request) (n : Nat)
  /-- The copy `n` is in the place of the block, and the write locks are released. -/
  | cowWon (request : Request) (n : Nat)
  /-- `mds_cbht_search` has returned. -/
  | returned (txg : Nat) (err : Int)
  deriving DecidableEq, Repr

/-- The TXG of the thread's transaction. -/
def SearchStage.held : SearchStage → Option Nat
  | .idle => none
  | .search request | .miss request | .insert request _ | .insertHit request _ _
  | .cowWait request _ _ _ | .cowLost request _ | .cowWon request _ => some request.txg
  | .returned txg _ => some txg

/-- The block that the thread has from `get_free_itb`, and nobody else knows of. -/
def SearchStage.hands : SearchStage → Option Nat
  | .insert _ n | .insertHit _ _ (some n) | .cowWait _ _ n _ | .cowLost _ n => some n
  | _ => none

/-- The block that the thread left without a lock and comes back to. -/
def SearchStage.pointsTo : SearchStage → Option Nat
  | .insertHit _ y _ => some y
  | .cowWait _ x _ _ => some x
  | _ => none

/-! ### The server -/

/-- `hmo.txg[TXG_WB]`, and whether the commit thread walks its dirty list already. -/
structure WbTxg where
  txg : Nat
  walking : Bool
  deriving DecidableEq, Repr

/-- A call of `itb_dirty`: the TXG it was made with, the header of the block, and the open TXG. -/
structure DirtyCall where
  txg : Nat
  itbTxg : Nat
  itbState : ItbhState
  openTxg : Nat
  deriving DecidableEq, Repr

/-- A modification that succeeded: the key asked for, the block, whether it is the one attached
under the key, and its state. -/
structure Modified where
  key : ItbKey
  itb : Nat
  attached : Bool
  state : ItbhState
  deriving DecidableEq, Repr

structure ItbServer (Thread : Type) where
  /-- The headers of the blocks, by their places in memory. -/
  head : Nat → ItbHeader
  /-- The counters and the entries of the blocks. -/
  block : Nat → Itb
  /-- `hmo.ic.csize`. -/
  allocated : Nat
  /-- `hmo.ic.lru`. -/
  lru : List Nat
  /-- `be->h`. -/
  chain : Nat → List Nat
  hmi : Hmi
  /-- The number of `hmo.txg[TXG_OPEN]`. -/
  openTxg : Nat
  wb : Option WbTxg
  /-- `t->dirty_list`. -/
  dirtyList : Nat → List Nat
  /-- The nodes `h.unlink`; `none` is `hmo.async_unlink`. -/
  unlink : Ring.Nodes (Option Nat)
  stage : Thread → SearchStage
  /-- An `ASSERT` failed, or a null bucket entry was followed. -/
  halted : Bool
  /-- The calls of `itb_dirty` so far. -/
  calls : List DirtyCall
  /-- The blocks that `itb_dirty` has returned so far, with the TXG. -/
  dirtied : List (Nat × Nat)
  /-- The blocks that requests have changed so far, with the TXG. -/
  written : List (Nat × Nat)
  /-- The requests that modified a block and returned 0. -/
  modified : List Modified

/-- What is fixed at compile time or by the hash: `ITB_DEPTH`, and the bucket entry of a key. -/
structure ItbConfig where
  depth : Nat
  bucket : ItbKey → Nat

/-- The server after `mds_init`, with the given number of the first TXG. -/
def ItbServer.init (Thread : Type) (hmi : Hmi) (txg : Nat) : ItbServer Thread where
  head _ := {}
  block _ := emptyItb 0
  allocated := 0
  lru := []
  chain _ := []
  hmi := hmi
  openTxg := txg
  wb := none
  dirtyList _ := []
  unlink := ⟨id, id⟩
  stage _ := .idle
  halted := false
  calls := []
  dirtied := []
  written := []
  modified := []

section Operations

variable {Thread : Type} (c : ItbConfig) (s : ItbServer Thread)

def ItbServer.setHead (x : Nat) (h : ItbHeader) : ItbServer Thread :=
  { s with head := Function.update s.head x h }

def ItbServer.setBlock (x : Nat) (i : Itb) : ItbServer Thread :=
  { s with block := Function.update s.block x i }

def ItbServer.setStage [DecidableEq Thread] (thread : Thread) (stage : SearchStage) :
    ItbServer Thread :=
  { s with stage := Function.update s.stage thread stage }

/-- The block attached under a key, as the search along `be->h` finds it. -/
def ItbServer.attached (key : ItbKey) : Option Nat :=
  (s.chain (c.bucket key)).find? fun x => (s.head x).key = key

/-! ### The free list -/

/-- `get_free_itb`. A block of the free list is taken out of the CBHT and wiped, except for its
entries. -/
def getFreeItb (txg : Nat) : Nat × ItbServer Thread :=
  match s.lru with
  | n :: rest =>
    (n, { s with
      lru := rest
      chain := fun be => (s.chain be).filter (· ≠ n)
      head := Function.update s.head n { txg }
      block := Function.update s.block n { emptyItb c.depth with ite := (s.block n).ite }
      unlink := s.unlink.init (some n) })
  | [] =>
    (s.allocated, { s with
      allocated := s.allocated + 1
      head := Function.update s.head s.allocated { txg }
      block := Function.update s.block s.allocated (emptyItb c.depth)
      unlink := s.unlink.init (some s.allocated) })

/-- `itb_free`. -/
def itbFree (n : Nat) : ItbServer Thread :=
  { s with
    lru := s.lru ++ [n]
    head := Function.update s.head n { s.head n with listed := true } }

/-- `itb_cow` up to the return of the copy: its header is that of the block, with the lists and the
chain cleared. -/
def itbCowNew (txg x : Nat) : Nat × ItbServer Thread :=
  let (n, t) := getFreeItb c s txg
  (n, (t.setHead n { s.head x with listed := false }).setBlock n
    (itbCowHeader (s.block x) (t.block n).ite))

/-! ### Transaction groups -/

/-- `txg_add_itb`. -/
def txgAddItb (txg x : Nat) : ItbServer Thread :=
  if (s.head x).listed then s
  else
    { s with
      dirtyList := Function.update s.dirtyList txg (s.dirtyList txg ++ [x])
      head := Function.update s.head x { s.head x with listed := true } }

/-- What a call of `itb_dirty` comes to: an `ASSERT` fails, a copy is to be put in the block's
place, or the block may be used, in the TXG that is returned. -/
inductive Dirtied (Thread : Type)
  | failed
  | cow (n be : Nat) (s : ItbServer Thread)
  | use (txg : Nat) (s : ItbServer Thread)

/-- The block becomes DIRTY in a TXG. -/
def markDirty (txg x : Nat) : ItbServer Thread :=
  txgAddItb (s.setHead x { s.head x with txg := txg, state := .dirty }) txg x

/-- `itb_dirty`, up to where it releases the read locks or returns the block. -/
def itbDirty (txg x : Nat) : Dirtied Thread :=
  let h := s.head x
  if txg = h.txg then
    match h.state with
    | .dirty => .use txg s
    | .clean => .use txg (markDirty s txg x)
    | .cowed => .use txg (s.setHead x { h with state := .dirty })
  else if txg = h.txg + 1 then
    match h.state with
    | .cowed => .failed
    | .clean => .use txg (markDirty s txg x)
    | .dirty =>
      match h.be with
      | none => .failed
      | some be =>
        let (n, t) := itbCowNew c s txg x
        .cow n be t
  else if txg > h.txg + 1 then .use txg (markDirty s txg x)
  else if txg + 1 = h.txg then
    -- the request is put on the open TXG
    if h.state = .dirty ∧ s.openTxg = h.txg then .use s.openTxg s else .failed
  else .use txg s

end Operations

end Hvfs
