/-
This file embeds `mds_cbht_search` as one request sees it that runs alone: the
table maps a key `(puuid, itbid)` to a block, a missing block is read from the
storage server or, for a request that creates, made anew, and then it is
searched. What the environment decides along the way is a field of `Chance`.
-/

import Hvfs.Client
import Hvfs.ItbCow

namespace Hvfs

/-! ### The server -/

/-- What a server's results depend on besides its state: the hash of names, the depth of new
blocks, and the blocks on the storage server. -/
structure Environment where
  hvfsHash : U64 → List U8 → U64
  itbDepth : Nat
  stored : U64 × U64 → Option Itb

/-- The state of the server: its counters and the blocks that are attached to the CBHT. -/
structure Mds where
  hmi : Hmi
  cbht : U64 × U64 → Option Itb

/-- The server after `mds_cbht_init`. -/
def Mds.init (hmi : Hmi) : Mds where
  hmi := hmi
  cbht := fun _ => none

/-- What happens to one request. -/
structure Chance where
  /-- `get_hmr` succeeds. -/
  hmr : Bool := true
  /-- `mds_read_itb` finds a block that is on the storage server. -/
  readable : Bool := true
  /-- The error of `get_free_itb` or `mds_cbht_insert_bbrlocked`, or 0. -/
  attachErr : Int := 0
  /-- The block that `itb_dirty` copies over, when it copies. -/
  memory : Option (Nat → Ite) := none
  /-- The reply's data is allocated. -/
  replyData : Bool := true

/-- How a handler ended: with a reply, or in `mds_free_tx`. -/
inductive HandlerEnd
  | replied (err : Int)
  | freed
  deriving DecidableEq, Repr

/-! ### Searching -/

/-- `cbht_itb_hit` on a block that is not COWED. `itb_readdir` returns 0. -/
def cbhtItbHit (chance : Chance) (hmi : Hmi) (i : Itb) (hi : HvfsIndex) :
    Option (Int × Hmi × Itb) :=
  if Flag.has hi.flag INDEX_BY_ITB then some (0, hmi, i)
  else
    (itbSearchCow hmi i hi chance.memory).map fun result =>
      (if result.err = 0 ∧ chance.replyData = false then -ENOMEM else result.err,
        result.hmi, result.itb)

/-- The block that a request comes to, from the CBHT or through `cbht_itb_miss`; or the error with
which it does not come to one. The shortcut for an empty bucket, which answers -ENOENT to a request
without INDEX_CREATE, is not part of this. -/
def reachItb (env : Environment) (chance : Chance) (m : Mds) (hi : HvfsIndex) : Except Int Itb :=
  match m.cbht (hi.puuid, hi.itbid) with
  | some i => .ok i
  | none =>
    match if chance.readable then env.stored (hi.puuid, hi.itbid) else none with
    | some i => if chance.attachErr = 0 then .ok i else .error chance.attachErr
    | none =>
      if Flag.has hi.flag INDEX_CREATE || Flag.has hi.flag INDEX_SYMLINK then
        if chance.attachErr = 0 then .ok (emptyItb env.itbDepth) else .error chance.attachErr
      else .error (-ENOENT)

/-- `mds_cbht_search`. -/
def mdsCbhtSearch (env : Environment) (chance : Chance) (m : Mds) (hi : HvfsIndex) :
    Option (Int × Mds) :=
  match reachItb env chance m hi with
  | .error err => some (err, m)
  | .ok i =>
    (cbhtItbHit chance m.hmi i hi).map fun (err, hmi, after) =>
      (err, ⟨hmi, Function.update m.cbht (hi.puuid, hi.itbid) (some after)⟩)

/-- A handler from its checks to its reply. -/
def serve (env : Environment) (m : Mds) (plan : HandlerPlan) (chance : Chance) :
    Option (HandlerEnd × Mds) :=
  match plan with
  | .reply err => some (.replied err, m)
  | .free => some (.freed, m)
  | .search hi => (mdsCbhtSearch env chance m hi).map fun (err, after) => (.replied err, after)

end Hvfs
