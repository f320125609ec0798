/-
This file embeds one entry of an index table block: the metadata unit `struct
mdu`, the entry `struct ite`, the request index `struct hvfs_index`, and the
four functions that work on one entry, `ite_match`, `ite_create`, `ite_update`
and the state half of `ite_unlink`.

The payload behind `hi->data` is raw bytes that the code reads in one of four
ways, chosen by the request's flags. `Payload` holds what each reading finds.
A name is the list of the bytes before its terminator; the stored field
`name[256]` reads as zero past the listed bytes.
-/

import Hvfs.Const

namespace Hvfs

/-! ### Metadata -/

/-- `struct mdu`. The union of `llfs_ref` and `symname[16]` is kept as its sixteen bytes. -/
@[ext]
structure Mdu where
  size : U64 := 0
  dev : U64 := 0
  mode : U16 := 0
  nlink : U16 := 0
  uid : U32 := 0
  gid : U32 := 0
  flags : U32 := 0
  atime : U64 := 0
  ctime : U64 := 0
  mtime : U64 := 0
  dtime : U64 := 0
  version : U32 := 0
  symname : BitVec 128 := 0
  deriving DecidableEq, Repr

/-- `struct link_source`. -/
structure LinkSource where
  sHash : U64
  sPuuid : U64
  sUuid : U64
  deriving DecidableEq, Repr

/-- `struct column`. -/
structure Column where
  storedItbid : U64 := 0
  len : U64 := 0
  offset : U64 := 0
  deriving DecidableEq, Repr

/-- `struct mdu_update` with the `struct mu_column` records behind it. -/
structure MduUpdate where
  atime : U64
  mtime : U64
  ctime : U64
  size : U64
  valid : U32
  uid : U32
  gid : U32
  flags : U32
  version : U32
  mode : U16
  columns : List (Nat × Column)
  deriving DecidableEq, Repr

/-- The readings of the bytes behind `hi->data`. `ptr` is the pointer itself; the C union lays
`dlen` over it, so it is also what `hi->dlen` reads as once a handler has set `hi->data`. -/
structure Payload where
  ptr : U64
  mu : Option MduUpdate
  mdu : Mdu
  ls : LinkSource
  symname : BitVec 128
  deriving DecidableEq, Repr

/-- `struct hvfs_index`; `namelen` is the length of `name`. -/
structure HvfsIndex where
  flag : U32
  uuid : U64
  hash : U64
  itbid : U64
  puuid : U64
  data : Payload
  name : List U8
  deriving DecidableEq, Repr

/-- `struct ite`. A `link_source` overlays the first 24 bytes of the `mdu` (see `Mdu.setLs`). -/
structure Ite where
  hash : U64 := 0
  uuid : U64 := 0
  flag : U32 := 0
  mdu : Mdu := {}
  name : List U8 := []
  column : List Column := List.replicate 6 {}
  deriving DecidableEq, Repr

/-- `memcpy(&e->s.ls, ..)`: the 24 bytes of a link source written over an `mdu`. -/
def Mdu.setLs (mdu : Mdu) (ls : LinkSource) : Mdu :=
  { mdu with
    size := ls.sHash
    dev := ls.sPuuid
    mode := ls.sUuid.extractLsb' 0 16
    nlink := ls.sUuid.extractLsb' 16 16
    uid := ls.sUuid.extractLsb' 32 32 }

/-- The state bits of an entry, `e->flag & ITE_STATE_MASK`. -/
def Ite.state (e : Ite) : U32 := e.flag &&& ITE_STATE_MASK

/-- `e->flag = ((e->flag & ~ITE_STATE_MASK) | state)`. -/
def Ite.setState (e : Ite) (state : U32) : Ite :=
  { e with flag := (e.flag &&& ~~~ITE_STATE_MASK) ||| state }

/-! ### Matching -/

/-- `memcmp(e->s.name, hi->name, hi->namelen) == 0 && e->s.name[hi->namelen] == '\0'`. -/
def nameMatch (stored name : List U8) : Bool :=
  (List.range name.length).all (fun k => stored.getD k 0 == name.getD k 0) &&
    stored.getD name.length 0 == 0

/-- `ite_match`: true is `ITE_MATCH_HIT`. -/
def iteMatch (e : Ite) (hi : HvfsIndex) : Bool :=
  if Flag.has hi.flag INDEX_ITE_SHADOW && e.state != ITE_SHADOW && e.state != ITE_UNLINKED then
    false
  else if Flag.has hi.flag INDEX_ITE_ACTIVE && e.state != ITE_ACTIVE then false
  else if e.state == ITE_UNLINKED && !Flag.has hi.flag INDEX_ITE_SHADOW then false
  else if Flag.has hi.flag INDEX_BY_UUID then e.uuid == hi.uuid && e.hash == hi.hash
  else if Flag.has hi.flag INDEX_BY_NAME then nameMatch e.name hi.name
  else false

/-! ### Creating and updating -/

/-- The field copies that `ite_create` and `ite_update` make from an `mdu_update`, in order. The code
does not check the column numbers: from 6 on they leave the array. -/
def muApply (mu : MduUpdate) (e : Ite) : Ite :=
  let mdu := e.mdu
  let mdu := if Flag.has mu.valid MU_MODE then { mdu with mode := mu.mode } else mdu
  let mdu := if Flag.has mu.valid MU_UID then { mdu with uid := mu.uid } else mdu
  let mdu := if Flag.has mu.valid MU_GID then { mdu with gid := mu.gid } else mdu
  let mdu := if Flag.has mu.valid MU_FLAG_ADD then { mdu with flags := mdu.flags ||| mu.flags }
    else mdu
  let mdu := if Flag.has mu.valid MU_FLAG_CLR then
    { mdu with flags := mdu.flags &&& ~~~mu.flags } else mdu
  let mdu := if Flag.has mu.valid MU_ATIME then { mdu with atime := mu.atime } else mdu
  let mdu := if Flag.has mu.valid MU_CTIME then { mdu with ctime := mu.ctime } else mdu
  let mdu := if Flag.has mu.valid MU_MTIME then { mdu with mtime := mu.mtime } else mdu
  let mdu := if Flag.has mu.valid MU_VERSION then { mdu with version := mu.version } else mdu
  let mdu := if Flag.has mu.valid MU_SIZE then { mdu with size := mu.size } else mdu
  -- `e->column[cno] = c`, for the numbers of the array (see `HvfsIndex.Fits`)
  let column := if Flag.has mu.valid MU_COLUMN then
    mu.columns.foldl (fun column (cno, c) => column.set cno c) e.column else e.column
  { e with mdu, column }

/-- `memcpy(&e->s.name, hi->name, hi->namelen)` and the terminator behind it. -/
def copyName (stored name : List U8) : List U8 :=
  if name.length < HVFS_MAX_NAME_LEN then name ++ 0 :: stored.drop (name.length + 1)
  else name ++ stored.drop name.length

/-- The two size tests of `ite_create`. They compare the whole flag word with one flag. -/
def sizeFlags (e : Ite) (flags : U32) : U32 :=
  if e.flag == ITE_FLAG_SMALL then flags ||| HVFS_MDU_IF_SMALL
  else if e.flag == ITE_FLAG_LARGE then flags ||| HVFS_MDU_IF_LARGE
  else flags

/-- `memcpy(e->s.mdu.symname, hi->data, len)` for a length of at most sixteen. -/
def copySymname (stored data : BitVec 128) (len : Nat) : BitVec 128 :=
  (data &&& BitVec.ofNat 128 (2 ^ (8 * len) - 1)) |||
    (stored &&& ~~~BitVec.ofNat 128 (2 ^ (8 * len) - 1))

/-- `sizeof(void *)`. It is only here for the `memset` of `ite_create`, and proofs use no more of it
than that a pointer is no longer than a hash. -/
def sizeofPtr : Nat := 8

theorem sizeofPtr_le : sizeofPtr ≤ 8 := le_rfl

/-- The first bytes of a word in memory, as many as a pointer has. -/
def ptrMask : U64 := BitVec.ofNat 64 (2 ^ (8 * sizeofPtr) - 1)

/-- `ite_create`. -/
def iteCreate (hi : HvfsIndex) (e : Ite) : Ite :=
  let e := { e with name := copyName e.name hi.name }
  if Flag.has hi.flag INDEX_CREATE_COPY then { e with mdu := hi.data.mdu }
  else if Flag.has hi.flag INDEX_CREATE_LINK then { e with mdu := e.mdu.setLs hi.data.ls }
  else if Flag.has hi.flag INDEX_SYMLINK then
    let flags := e.mdu.flags ||| (HVFS_MDU_IF_NORMAL ||| HVFS_MDU_IF_SYMLINK)
    let e := { e with mdu := { e.mdu with flags := sizeFlags e flags, nlink := 1 } }
    -- `hi->dlen` is the pointer by now
    let dlen := hi.data.ptr.toNat
    if dlen > 16 then e
    else { e with mdu :=
      { e.mdu with symname := copySymname e.mdu.symname hi.data.symname dlen } }
  else
    -- `memset(e, 0, sizeof(e))` clears as many bytes as the pointer has, and the hash comes first
    let e := { e with hash := e.hash &&& ~~~ptrMask }
    let flags := e.mdu.flags ||| HVFS_MDU_IF_NORMAL
    let e := { e with mdu := { e.mdu with flags := sizeFlags e flags, nlink := 1 } }
    match hi.data.mu with
    | none => e
    | some mu => if mu.valid == 0 then e else muApply mu e

/-- `ite_update`. A request without payload comes here when the client sends INDEX_MDU_UPDATE along
with a forced copy, and the code then reads through a null pointer. -/
def iteUpdate (hi : HvfsIndex) (e : Ite) : Ite :=
  if Flag.has hi.flag INDEX_MDU_UPDATE then
    match hi.data.mu with
    | none => e
    | some mu => muApply mu e
  else if Flag.has hi.flag INDEX_CREATE_COPY then { e with mdu := hi.data.mdu }
  else if Flag.has hi.flag INDEX_CREATE_LINK then { e with mdu := e.mdu.setLs hi.data.ls }
  else e

/-- The request keeps to its entry and to its payload: the name and its terminator have room in
`name[256]`, the column numbers are those of the array, and the payload is there that the flags make
a search copy. The code checks none of this. What other requests do, which write behind the field or
read through a null pointer, is not said here. -/
structure HvfsIndex.Fits (hi : HvfsIndex) : Prop where
  name : hi.name.length < HVFS_MAX_NAME_LEN
  columns : ∀ mu ∈ hi.data.mu, Flag.has mu.valid MU_COLUMN = true →
    ∀ column ∈ mu.columns, column.1 < 6
  copied : (Flag.has hi.flag INDEX_CREATE || Flag.has hi.flag INDEX_SYMLINK) = true →
    (Flag.has hi.flag INDEX_CREATE_COPY || Flag.has hi.flag INDEX_CREATE_LINK) = true →
    hi.data.ptr ≠ 0
  updated : Flag.has hi.flag INDEX_MDU_UPDATE = true → Flag.has hi.flag INDEX_LOOKUP = false →
    (Flag.has hi.flag INDEX_CREATE = true → Flag.has hi.flag INDEX_CREATE_FORCE = true) →
    hi.data.mu.isSome = true

instance (hi : HvfsIndex) : Decidable hi.Fits :=
  decidable_of_iff (_ ∧ _ ∧ _ ∧ _)
    ⟨fun ⟨name, columns, copied, updated⟩ => ⟨name, columns, copied, updated⟩,
      fun fits => ⟨fits.name, fits.columns, fits.copied, fits.updated⟩⟩

/-- The branch of `ite_unlink` for a normal file: one link less, and the state that follows. -/
def iteUnlinkNormal (e : Ite) : Ite :=
  let e := { e with mdu := { e.mdu with nlink := e.mdu.nlink - 1 } }
  if e.mdu.nlink == 0 then e.setState ITE_UNLINKED else e.setState ITE_SHADOW

/-- The `HVFS_MDU_SIZE` bytes a search copies out of an entry: the `mdu` and the 24 bytes behind
it, which are the beginning of the name. -/
structure MduReply where
  mdu : Mdu
  tail : List U8
  deriving DecidableEq, Repr

/-- `memcpy(data, &(ite->g), HVFS_MDU_SIZE)`. -/
def mduReply (e : Ite) : MduReply :=
  { mdu := e.mdu, tail := (List.range 24).map fun k => e.name.getD k 0 }

end Hvfs
