/-
This file embeds a client request as the bytes that were received, and the
memory that the search for it touches: what `hvfs_hash`, `ite_match`,
`ite_create` and `ite_update` read through the index and through `hi->data`,
and what they write into an entry.

An address is a word, and what is read behind the end of a request is whatever
stands in memory there. The length of a name is signed in the index; as the size
of a copy or of a comparison it is extended to a word, as the length of a hash
it is taken as it is.
-/

import Hvfs.Reply

namespace Hvfs

open LittleEndian

/-! ### The request in memory -/

/-- A request that was received: `tx.len` bytes at `xm_data`, in the memory of the server. -/
structure RequestBuffer where
  memory : U64 → U8
  base : U64
  len : Nat
  datacheck : Bool
  room : base.toNat + len < 2 ^ 64

/-- The handlers. -/
inductive ClientOp
  | lookup
  | create
  | update
  | linkadd
  | unlink
  | symlink
  deriving DecidableEq, Repr

namespace RequestBuffer

variable (r : RequestBuffer)

/-- The bytes from an address on. -/
def readAt (address : U64) (count : Nat) : List U8 :=
  (List.range count).map fun k => r.memory (address + BitVec.ofNat 64 k)

/-- `hi`. -/
def header : IndexHeader := IndexHeader.read (r.readAt r.base sizeofHvfsIndex)

/-- `hi->name`. -/
def nameAt : U64 := r.base + BitVec.ofNat 64 sizeofHvfsIndex

/-- `hi->namelen` as the size of a copy or of a comparison. -/
def nameSize : Nat := (r.header.namelen.signExtend 64).toNat

/-- `tx->req->xm_data + sizeof(*hi) + hi->namelen`. -/
def behindName : U64 := r.nameAt + r.header.namelen.signExtend 64

/-- `*(struct column *)address`. -/
def columnAt (address : U64) : Column where
  storedItbid := getWord 64 8 (r.readAt address 8)
  len := getWord 64 8 (r.readAt (address + 8) 8)
  offset := getWord 64 8 (r.readAt (address + 16) 8)

/-- `*(struct mdu_update *)address`, with the columns behind it. -/
def mduUpdateAt (address : U64) : MduUpdate where
  atime := getWord 64 8 (r.readAt address 8)
  mtime := getWord 64 8 (r.readAt (address + 8) 8)
  ctime := getWord 64 8 (r.readAt (address + 16) 8)
  size := getWord 64 8 (r.readAt (address + 24) 8)
  valid := getWord 32 4 (r.readAt (address + 32) 4)
  uid := getWord 32 4 (r.readAt (address + 36) 4)
  gid := getWord 32 4 (r.readAt (address + 40) 4)
  flags := getWord 32 4 (r.readAt (address + 44) 4)
  version := getWord 32 4 (r.readAt (address + 48) 4)
  mode := getWord 16 2 (r.readAt (address + 52) 2)
  columns := (List.range (getWord 16 2 (r.readAt (address + 54) 2)).toNat).map fun k =>
    let mc := address + 56 + BitVec.ofNat 64 (32 * k)
    ((getWord 64 8 (r.readAt mc 8)).toNat, r.columnAt (mc + 8))

/-- The readings of `hi->data`. -/
def payloadAt (address : U64) : Payload where
  ptr := address
  mu := if address = 0 then none else some (r.mduUpdateAt address)
  mdu := Mdu.read (r.readAt address 88)
  ls := LinkSource.read (r.readAt address sizeofLinkSource)
  symname := getWord 128 16 (r.readAt address 16)

/-- `hi->data` at the search. A handler that does not set it leaves the length there. -/
def pointer : ClientOp → U64
  | .lookup | .linkadd | .unlink => r.header.dlen
  | .create => if r.header.dlen = 0 then 0 else r.behindName
  | .update | .symlink => r.behindName

/-- What a handler reads of the message. -/
def client (op : ClientOp) : ClientRequest where
  len := r.len
  datacheck := r.datacheck
  hi := {
    flag := r.header.flag
    uuid := r.header.uuid
    hash := r.header.hash
    itbid := r.header.itbid
    puuid := r.header.puuid
    data := r.payloadAt (r.pointer op)
    name := r.readAt r.nameAt r.nameSize }
  dlen := r.header.dlen

/-- The index that a handler searches with. -/
def index (hvfsHash : U64 → List U8 → U64) (op : ClientOp) : Option HvfsIndex :=
  match op with
  | .lookup => lookupIndex hvfsHash (r.client .lookup)
  | .create => createIndex hvfsHash (r.client .create)
  | .update => updateIndex hvfsHash (r.client .update)
  | .linkadd => linkaddIndex hvfsHash (r.client .linkadd)
  | .unlink => unlinkIndex hvfsHash (r.client .unlink)
  | .symlink => symlinkIndex hvfsHash (r.client .symlink)

end RequestBuffer

/-! ### What one function touches -/

/-- The fields of `struct ite` that a request is written to; a link source and a symname lie in the
`mdu`. -/
inductive IteField
  | hash
  | mdu
  | name
  | column
  deriving DecidableEq, Repr

/-- `sizeof` of a field. -/
def IteField.size : IteField → Nat
  | .hash => 8
  | .mdu => 88
  | .name => HVFS_MAX_NAME_LEN
  | .column => 144

/-- A read of memory through the index or through `hi->data`, or a write into a field of an
entry. -/
inductive Access
  | read (address : U64) (size : Nat)
  | write (field : IteField) (offset : Int) (size : Nat)
  deriving DecidableEq, Repr

/-- The range lies in the bytes received. -/
def Within (r : RequestBuffer) (address : U64) (size : Nat) : Prop :=
  size = 0 ∨ r.base.toNat ≤ address.toNat ∧ address.toNat + size ≤ r.base.toNat + r.len

instance (r : RequestBuffer) (address : U64) (size : Nat) : Decidable (Within r address size) :=
  inferInstanceAs (Decidable (_ ∨ _ ∧ _))

/-- A read lies in the bytes received, a write in the field. -/
def InBounds (r : RequestBuffer) : Access → Prop
  | .read address size => Within r address size
  | .write field offset size => size = 0 ∨ 0 ≤ offset ∧ offset + size ≤ field.size

@[simp] theorem inBounds_read {r : RequestBuffer} {address : U64} {size : Nat} :
    InBounds r (.read address size) ↔ Within r address size := Iff.rfl

@[simp] theorem inBounds_write {r : RequestBuffer} {field : IteField} {offset : Int} {size : Nat} :
    InBounds r (.write field offset size) ↔
      size = 0 ∨ 0 ≤ offset ∧ offset + size ≤ field.size := Iff.rfl

/-- A field of `struct mdu_update` that is copied when its bit is set in `valid`: where it is read
and where in the `mdu` it is written. -/
structure MuField where
  mask : U32
  source : U64
  target : Int
  size : Nat

def muFields : List MuField :=
  [⟨MU_MODE, 52, 16, 2⟩, ⟨MU_UID, 36, 20, 4⟩, ⟨MU_GID, 40, 24, 4⟩, ⟨MU_FLAG_ADD, 44, 28, 4⟩,
    ⟨MU_FLAG_CLR, 44, 28, 4⟩, ⟨MU_ATIME, 0, 32, 8⟩, ⟨MU_CTIME, 16, 40, 8⟩, ⟨MU_MTIME, 8, 48, 8⟩,
    ⟨MU_VERSION, 48, 64, 4⟩, ⟨MU_SIZE, 24, 0, 8⟩]

/-- `e->column + cno`. The product wraps around. -/
def columnOffset (cno : Nat) : Nat := ((24 : U64) * BitVec.ofNat 64 cno).toNat

/-- The field copies, see `muApply`. -/
def muApplyAccess (ptr : U64) (mu : MduUpdate) : List Access :=
  (muFields.filter fun field => Flag.has mu.valid field.mask).flatMap
      (fun field => [.read (ptr + field.source) field.size, .write .mdu field.target field.size]) ++
    if Flag.has mu.valid MU_COLUMN then
      .read (ptr + 54) 2 :: mu.columns.zipIdx.flatMap fun column =>
        let mc := ptr + 56 + BitVec.ofNat 64 (32 * column.2)
        [.read mc 8, .read (mc + 8) 24, .write .column (columnOffset column.1.1) 24]
    else []

/-- `hvfs_hash(hi->puuid, hi->name, hi->namelen, HASH_SEL_EH)`, when a handler calls it. -/
def hvfsHashAccess (r : RequestBuffer) : List Access :=
  if Flag.has r.header.flag INDEX_BY_NAME && r.header.hash == 0 then
    [.read r.nameAt r.header.namelen.toNat]
  else []

/-- `ite_match`. `memcmp` may read all bytes of the name. -/
def iteMatchAccess (r : RequestBuffer) (e : Ite) (hi : HvfsIndex) : List Access :=
  if Flag.has hi.flag INDEX_ITE_SHADOW && e.state != ITE_SHADOW && e.state != ITE_UNLINKED then []
  else if Flag.has hi.flag INDEX_ITE_ACTIVE && e.state != ITE_ACTIVE then []
  else if e.state == ITE_UNLINKED && !Flag.has hi.flag INDEX_ITE_SHADOW then []
  else if Flag.has hi.flag INDEX_BY_UUID then []
  else if Flag.has hi.flag INDEX_BY_NAME then [.read r.nameAt r.nameSize]
  else []

/-- The name that `ite_create` copies, and the terminator behind it. -/
def nameAccess (r : RequestBuffer) : List Access :=
  .read r.nameAt r.nameSize :: .write .name 0 r.nameSize ::
    if r.header.namelen.toInt < HVFS_MAX_NAME_LEN then [.write .name r.header.namelen.toInt 1]
    else []

/-- `ite_create` behind the name. -/
def createPayloadAccess (hi : HvfsIndex) : List Access :=
  let ptr := hi.data.ptr
  if Flag.has hi.flag INDEX_CREATE_COPY then [.read ptr 88, .write .mdu 0 88]
  else if Flag.has hi.flag INDEX_CREATE_LINK then
    [.read ptr sizeofLinkSource, .write .mdu 0 sizeofLinkSource]
  else if Flag.has hi.flag INDEX_SYMLINK then
    .write .mdu 28 4 :: .write .mdu 18 2 ::
      if ptr.toNat > 16 then [] else [.read ptr ptr.toNat, .write .mdu 72 ptr.toNat]
  else
    .write .hash 0 sizeofPtr :: .write .mdu 28 4 :: .write .mdu 18 2 ::
      match hi.data.mu with
      | none => []
      | some mu => .read (ptr + 32) 4 :: if mu.valid == 0 then [] else muApplyAccess ptr mu

/-- `ite_create`. -/
def iteCreateAccess (r : RequestBuffer) (hi : HvfsIndex) : List Access :=
  nameAccess r ++ createPayloadAccess hi

/-- `ite_update`. -/
def iteUpdateAccess (hi : HvfsIndex) : List Access :=
  let ptr := hi.data.ptr
  if Flag.has hi.flag INDEX_MDU_UPDATE then
    .read (ptr + 32) 4 ::
      match hi.data.mu with
      | none => []
      | some mu => muApplyAccess ptr mu
  else if Flag.has hi.flag INDEX_CREATE_COPY then [.read ptr 88, .write .mdu 0 88]
  else if Flag.has hi.flag INDEX_CREATE_LINK then
    [.read ptr sizeofLinkSource, .write .mdu 0 sizeofLinkSource]
  else []

/-! ### What a search touches -/

section Search

variable (r : RequestBuffer) (hi : HvfsIndex)

/-- The loop of `itb_search`, see `itbFind`. -/
def itbFindAccess (i : Itb) : Nat → Nat → List Access
  | 0, _ => []
  | fuel + 1, offset =>
    if offset < 2 * i.total then
      let ii := i.index offset
      let e := i.ite ii.entry
      match ii.flag with
      | .free => []
      | .unique => iteMatchAccess r e hi
      | _ => iteMatchAccess r e hi ++
        if iteMatch e hi then [] else itbFindAccess i fuel ii.conflict
    else []

/-- `itb_add_ite`, see `itbAddIte`. -/
def itbAddIteAccess (i : Itb) : List Access :=
  if i.entries + 1 ≤ (i.total : Int) ∧ findFirstZeroBit i.bitmap i.total < i.total then
    iteCreateAccess r hi
  else []

/-- What is done to the block, see `itbAct`. Unlinks and new links read nothing of the request. -/
def itbActAccess (i : Itb) : SearchAct → List Access
  | .update _ => iteUpdateAccess hi
  | .unlink _ | .linkAdd _ => []
  | .create => itbAddIteAccess r hi i

/-- `itb_search` on one block, see `itbSearch`. -/
def itbSearchAccess (i : Itb) : List Access :=
  itbFindAccess r hi i (2 * i.total + 1) (hashSlot i hi.hash) ++
    match itbPlan i hi with
    | some (.dirty act) => itbActAccess r hi i act
    | _ => []

/-- `itb_search` with a copy, see `itbSearchCow`. -/
def itbSearchCowAccess (i : Itb) (memory : Option (Nat → Ite)) : List Access :=
  match memory with
  | none => itbSearchAccess r hi i
  | some memory =>
    itbFindAccess r hi i (2 * i.total + 1) (hashSlot i hi.hash) ++
      match itbPlan i hi with
      | some (.dirty _) => itbSearchAccess r hi (itbCow i memory)
      | _ => []

/-- `mds_cbht_search`, see `mdsCbhtSearch`. A directory is read without any of the four. -/
def mdsCbhtSearchAccess (env : Environment) (chance : Chance) (m : Mds) : List Access :=
  match reachItb env chance m hi with
  | .error _ => []
  | .ok i =>
    if Flag.has hi.flag INDEX_BY_ITB then [] else itbSearchCowAccess r hi i chance.memory

end Search

/-- A handler up to the end of its search. -/
def handlerPlanOf (r : RequestBuffer) (op : ClientOp) (env : Environment) (chance : Chance) :
    HandlerPlan :=
  handlerPlan (r.index env.hvfsHash op) (r.client op) chance.hmr

/-- What a handler touches. -/
def handlerAccess (r : RequestBuffer) (op : ClientOp) (env : Environment) (chance : Chance)
    (m : Mds) : List Access :=
  if r.len < sizeofHvfsIndex ∨ r.datacheck = false then []
  else
    hvfsHashAccess r ++
      match handlerPlanOf r op env chance with
      | .search hi => mdsCbhtSearchAccess r hi env chance m
      | _ => []

end Hvfs
