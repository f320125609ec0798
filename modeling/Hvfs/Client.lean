/-
This file embeds the client handlers of `mds/c2m.c` up to their call of
`mds_cbht_search`: the checks that a handler makes of a request, and the index
that it searches with.

All handlers make the same checks in the same order. They differ in the flags
they add to the client's own flags and in what they do with the payload.
-/

import Hvfs.Ite

namespace Hvfs

/-! ### Requests -/

/-- `sizeof(struct hvfs_index)`. -/
def sizeofHvfsIndex : Nat := 56

/-- What a handler reads of a message: `req->tx.len`, `req->xm_datacheck`, and the index at the
beginning of the payload. `dlen` is the field of the index that its `data` pointer overlays;
`hi.data` is read from the bytes behind the name. -/
structure ClientRequest where
  len : Nat
  datacheck : Bool
  hi : HvfsIndex
  dlen : U64
  deriving DecidableEq, Repr

/-- `if (hi->flag & INDEX_BY_NAME && !hi->hash) hi->hash = hvfs_hash(..)`. -/
def fillHash (hvfsHash : U64 → List U8 → U64) (hi : HvfsIndex) : HvfsIndex :=
  { hi with
    hash := if Flag.has hi.flag INDEX_BY_NAME && hi.hash == 0 then hvfsHash hi.puuid hi.name
      else hi.hash }

/-- The index that a handler without payload searches with; the pointer is still the length. -/
def plainIndex (flag : U32) (hvfsHash : U64 → List U8 → U64) (request : ClientRequest) :
    HvfsIndex :=
  { fillHash hvfsHash request.hi with
    flag := request.hi.flag ||| flag
    data := { request.hi.data with ptr := request.dlen } }

/-- The index that a handler with payload searches with. -/
def payloadIndex (flag : U32) (hvfsHash : U64 → List U8 → U64) (request : ClientRequest) :
    HvfsIndex :=
  { fillHash hvfsHash request.hi with flag := request.hi.flag ||| flag }

/-! ### The index of each handler -/

section Handlers

variable (hvfsHash : U64 → List U8 → U64) (request : ClientRequest)

/-- `mds_lookup`. -/
def lookupIndex : Option HvfsIndex := some (plainIndex INDEX_LOOKUP hvfsHash request)

/-- `mds_create`. A request without payload searches with a null pointer. -/
def createIndex : Option HvfsIndex :=
  let hi := payloadIndex (INDEX_CREATE ||| INDEX_BY_NAME) hvfsHash request
  if request.dlen == 0 then some { hi with data := { hi.data with ptr := 0, mu := none } }
  else some hi

/-- `mds_update`. A request without payload drops its transaction. -/
def updateIndex : Option HvfsIndex :=
  if request.dlen == 0 then none else some (payloadIndex INDEX_MDU_UPDATE hvfsHash request)

/-- `mds_linkadd`. -/
def linkaddIndex : Option HvfsIndex := some (plainIndex INDEX_LINK_ADD hvfsHash request)

/-- `mds_unlink`. -/
def unlinkIndex : Option HvfsIndex := some (plainIndex INDEX_UNLINK hvfsHash request)

/-- `mds_symlink`. A request without a symname drops its transaction. -/
def symlinkIndex : Option HvfsIndex :=
  if request.dlen == 0 then none
  else some (payloadIndex (INDEX_CREATE ||| INDEX_SYMLINK) hvfsHash request)

end Handlers

/-! ### The checks -/

/-- How a handler goes on after its checks: it replies, drops the transaction with `mds_free_tx`,
or calls `mds_cbht_search`. -/
inductive HandlerPlan
  | reply (err : Int)
  | free
  | search (hi : HvfsIndex)
  deriving DecidableEq, Repr

/-- A handler up to its call of `mds_cbht_search`; `hmr` says whether `get_hmr` succeeds. -/
def handlerPlan (index : Option HvfsIndex) (request : ClientRequest) (hmr : Bool) : HandlerPlan :=
  if request.len < sizeofHvfsIndex then if hmr then .reply (-EINVAL) else .free
  else if !request.datacheck then if hmr then .reply (-EFAULT) else .free
  else if !hmr then .free
  else
    match index with
    | none => .free
    | some hi => .search hi

end Hvfs
