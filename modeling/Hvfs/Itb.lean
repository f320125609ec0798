/-
This file embeds the index table block (ITB): its bitmap, its index cells with
their conflict chains, its entries and its counters, and the functions of
`mds/itb.c` that work on one block while its locks are held.

The first `2 ^ adepth` index cells are the chain heads, one for each hash slot;
the second `2 ^ adepth` are the cells a chain spills into. A cell names an
entry, and unless it is UNIQUE also the next cell of its chain.

The tables are functions of the index. The loops of the source follow chains
through the table, so they carry a fuel here; a result of `none` means that the
loop did not end within it or that an `ASSERT` of the source failed.
-/

import Hvfs.Ite

namespace Hvfs

/-! ### The block -/

/-- The two flag bits of an index cell. -/
inductive IndexFlag
  | free
  | unique
  | conflict
  | overflow
  deriving DecidableEq, Repr

/-- `struct itb_index`. -/
structure ItbIndex where
  flag : IndexFlag := .free
  entry : Nat := 0
  conflict : Nat := 0
  deriving DecidableEq, Repr

/-- The part of `struct itb` that the searches work on. `unlink` says whether the block is linked
into `hmo.async_unlink`. -/
structure Itb where
  adepth : Nat
  entries : Int
  maxOffset : Int
  pseudoConflicts : Int
  len : Int
  inf : Nat
  itu : Int
  unlink : Bool
  bitmap : Nat → Bool
  index : Nat → ItbIndex
  ite : Nat → Ite

/-- A `long` as the operands of `atomic.h` need it: with a longer one, `xaddl` and `addl` do not
assemble. -/
abbrev Long := BitVec 32

/-- The uuid counters of `struct hvfs_mds_info`. -/
structure Hmi where
  miUuid : Long
  uuidBase : U64
  deriving DecidableEq, Repr

/-- `sizeof(struct itb)` for a block of `2 ^ depth` entries: the header, one lock for each sixteen
entries, the bitmap and the index. The few bytes of padding that a compiler puts
into a block of less
than 64 entries are left out. -/
def sizeofItb (depth : Nat) : Int :=
  248 + 56 * (2 ^ depth / 16) + 2 ^ (depth - 3) + 4 * (2 * 2 ^ depth)

/-- `sizeof(struct ite)`. -/
def sizeofIte : Int := 520

/-- The block that `get_free_itb` hands out. -/
def emptyItb (depth : Nat) : Itb where
  adepth := depth
  entries := 0
  maxOffset := 0
  pseudoConflicts := 0
  len := sizeofItb depth
  inf := 0
  itu := 0
  unlink := false
  bitmap := fun _ => false
  index := fun _ => {}
  ite := fun _ => {}

/-- The number of entries, `1 << i->h.adepth`. -/
def Itb.total (i : Itb) : Nat := 2 ^ i.adepth

def Itb.setIndex (i : Itb) (cell : Nat) (value : ItbIndex) : Itb :=
  { i with index := Function.update i.index cell value }

def Itb.setBit (i : Itb) (nr : Nat) (value : Bool) : Itb :=
  { i with bitmap := Function.update i.bitmap nr value }

def Itb.setIte (i : Itb) (nr : Nat) (value : Ite) : Itb :=
  { i with ite := Function.update i.ite nr value }

/-- `hi->hash & ((1 << i->h.adepth) - 1)`. -/
def hashSlot (i : Itb) (hash : U64) : Nat := hash.toNat % i.total

/-! ### Adding an entry -/

/-- The scan of `__itb_get_free_index`: at most `count` cells from `nr` on, wrapping at `total`. -/
def scanFreeIndex (index : Nat → ItbIndex) (total : Nat) : Nat → Nat → Option Nat
  | 0, _ => none
  | count + 1, nr =>
    if (index (nr + total)).flag = .free then some nr
    else scanFreeIndex index total count (if nr + 1 = total then 0 else nr + 1)

/-- `__itb_get_free_index`: a free cell of the second half, and the block with that noted. -/
def itbGetFreeIndex (i : Itb) : Nat × Itb :=
  let nr := if i.inf ≥ i.total then 0 else i.inf
  match scanFreeIndex i.index i.total i.total nr with
  | some nr => (nr + i.total, { i with inf := nr + 1, itu := i.itu + 1 })
  | none => (i.total + i.total, i)

/-- The end of `__itb_add_index`: the greatest entry so far and the length that goes with it. -/
def noteOffset (i : Itb) (nr : Nat) : Itb :=
  { i with
    maxOffset := if i.maxOffset ≤ (nr : Int) then (nr : Int) else i.maxOffset
    len := if i.maxOffset ≤ (nr : Int) then sizeofItb i.adepth + ((nr : Int) + 1) * sizeofIte
      else i.len }

/-- `__itb_add_index`. -/
def itbAddIndex (i : Itb) (offset nr : Nat) : Itb :=
  match (i.index offset).flag with
  | .free =>
    noteOffset (i.setIndex offset { i.index offset with flag := .unique, entry := nr }) nr
  | .unique =>
    let (f, i) := itbGetFreeIndex i
    let i := i.setIndex offset { i.index offset with flag := .conflict, conflict := f }
    let i := i.setIndex f { i.index f with flag := .unique, entry := nr }
    noteOffset { i with pseudoConflicts := i.pseudoConflicts + 1 } nr
  | .conflict =>
    let (f, i) := itbGetFreeIndex i
    let i := i.setIndex f (i.index offset)
    let i := i.setIndex offset { i.index offset with entry := nr, conflict := f }
    noteOffset { i with pseudoConflicts := i.pseudoConflicts + 1 } nr
  | .overflow => noteOffset i nr

/-- The least clear bit from `nr` on among the next `count`, as `find_first_zero_bit` returns. -/
def findZeroBit (bitmap : Nat → Bool) : Nat → Nat → Nat
  | 0, nr => nr
  | count + 1, nr => if bitmap nr then findZeroBit bitmap count (nr + 1) else nr

/-- `find_first_zero_bit(bitmap, size)`: the least clear bit, or `size` when there is none. -/
def findFirstZeroBit (bitmap : Nat → Bool) (size : Nat) : Nat := findZeroBit bitmap size 0

/-- The flag word of a new entry. -/
def newFlag (hi : HvfsIndex) : U32 :=
  let flag := if Flag.has hi.flag INDEX_CREATE_LINK then ITE_FLAG_LS else ITE_FLAG_NORMAL
  let flag :=
    if Flag.has hi.flag INDEX_CREATE_COPY then flag ||| ITE_FLAG_GDT
    else if Flag.has hi.flag INDEX_CREATE_DIR then flag ||| ITE_FLAG_SDT
    else flag
  if Flag.has hi.flag INDEX_CREATE_SMALL then flag ||| ITE_FLAG_SMALL
  else if Flag.has hi.flag INDEX_CREATE_LARGE then flag ||| ITE_FLAG_LARGE
  else flag

/-- `atomic64_add_return`: what it returns, and the counter. -/
def atomic64AddReturn (i counter : Long) : Long × Long := (counter + i, counter + i)

/-- `atomic64_inc_return`. -/
def atomic64IncReturn (counter : Long) : Long × Long := atomic64AddReturn 1 counter

/-- The uuid of a new entry, and the counter. A copied entry gets none. -/
def newUuid (hmi : Hmi) (hi : HvfsIndex) : U64 × Hmi :=
  if Flag.has hi.flag INDEX_CREATE_COPY then (0, hmi)
  else
    let (next, miUuid) := atomic64IncReturn hmi.miUuid
    -- the `long` meets a `u64`, so it is extended with its sign
    let uuid := next.signExtend 64 ||| hmi.uuidBase
    (if Flag.has hi.flag INDEX_CREATE_DIR then uuid ||| HVFS_UUID_HIGHEST_BIT else uuid,
      { hmi with miUuid })

/-- The entry that `itb_add_ite` prepares before it links the entry in, and the uuid counter. -/
def newIte (hmi : Hmi) (hi : HvfsIndex) : Ite × Hmi :=
  ({ hash := hi.hash, uuid := (newUuid hmi hi).1, flag := newFlag hi }, (newUuid hmi hi).2)

/-- What a search leaves behind: its return value, the bytes it wrote to its data buffer (`none`
when it wrote none), the uuid counters and the block. -/
structure SearchResult where
  err : Int
  data : Option MduReply
  hmi : Hmi
  itb : Itb

/-- `itb_add_ite`. A failed attempt takes back its increment of `entries`. -/
def itbAddIte (hmi : Hmi) (i : Itb) (hi : HvfsIndex) : SearchResult :=
  let i := { i with entries := i.entries + 1 }
  if i.entries ≤ (i.total : Int) then
    let nr := findFirstZeroBit i.bitmap i.total
    if nr < i.total then
      let offset := hashSlot i hi.hash
      let i := i.setBit nr true
      let (ite, hmi) := newIte hmi hi
      let i := i.setIte nr ite
      let i := itbAddIndex i offset nr
      let i := i.setIte nr (iteCreate hi ite)
      ⟨0, some (mduReply (i.ite nr)), hmi, i⟩
    else ⟨-EINVAL, none, hmi, { i with entries := i.entries - 1 }⟩
  else ⟨-ESPLIT, none, hmi, { i with entries := i.entries - 1 }⟩

/-! ### Removing an entry -/

/-- `__ite_unlink`: frees one cell and its entry. -/
def iteUnlinkInternal (i : Itb) (offset : Nat) : Itb :=
  let ii := i.index offset
  { i with
    index := Function.update i.index offset { ii with flag := .free }
    pseudoConflicts := if offset ≥ i.total then i.pseudoConflicts - 1 else i.pseudoConflicts
    itu := if offset ≥ i.total then i.itu - 1 else i.itu
    entries := i.entries - 1
    maxOffset := if i.entries - 1 = 0 then 0
      else if i.maxOffset = ii.entry then i.maxOffset - 1 else i.maxOffset
    bitmap := Function.update i.bitmap ii.entry false }

/-- Exchanges the entries of two cells. -/
def swapEntries (i : Itb) (offset saved : Nat) : Itb :=
  let savedEntry := (i.index offset).entry
  let i := i.setIndex offset { i.index offset with entry := (i.index saved).entry }
  i.setIndex saved { i.index saved with entry := savedEntry }

/-- Takes the cell behind `prev` off its chain: the tail makes `prev` the new tail, a cell in the
middle is bypassed. -/
def unlinkBehind (i : Itb) (prev offset : Nat) : Itb :=
  if (i.index offset).flag = .unique then
    iteUnlinkInternal (i.setIndex prev { i.index prev with flag := .unique }) offset
  else
    iteUnlinkInternal
      (i.setIndex prev { i.index prev with conflict := (i.index offset).conflict }) offset

/-- The loop of `itb_del_ite` over the chain of `saved`; `target` is the cell to delete. -/
def itbDelLoop (saved target : Nat) :
    Nat → Itb → (offset prev : Nat) → (needswap hit : Bool) → Option (Itb × Bool)
  | 0, _, _, _, _, _ => none
  | fuel + 1, i, offset, prev, needswap, hit =>
    let ii := i.index offset
    let total := 2 * i.total
    if ii.flag = .free then some (i, needswap)
    else if target = offset ∨ hit then
      if offset = saved then
        if ii.conflict < total then
          itbDelLoop saved target fuel i ii.conflict offset true hit
        else some (i, true)
      else some (unlinkBehind i prev offset, needswap)
    else if needswap then
      itbDelLoop saved target fuel (swapEntries i offset saved) offset prev false true
    else if ii.flag = .unique then some (i, needswap)
    else if ii.conflict < total then itbDelLoop saved target fuel i ii.conflict offset needswap hit
    else some (i, needswap)

/-- The end of both chain loops: a head whose other cells are all gone is freed now. -/
def freeHead (i : Itb) (saved : Nat) : Option Itb :=
  if (i.index saved).flag = .unique then some (iteUnlinkInternal i saved) else none

/-- `itb_del_ite`: deletes the cell `offset` from the chain of the head `pos`. -/
def itbDelIte (i : Itb) (offset pos : Nat) : Option Itb :=
  match (i.index pos).flag with
  | .free => some i
  | .unique => if offset = pos then some (iteUnlinkInternal i offset) else some i
  | _ =>
    match itbDelLoop pos offset (4 * i.total) i pos pos false false with
    | none => none
    | some (i, needswap) => if needswap then freeHead i pos else some i

/-- `ite_unlink` of the entry at the cell `offset` of the chain of `pos`. -/
def iteUnlink (i : Itb) (offset pos : Nat) : Option Itb :=
  let nr := (i.index offset).entry
  let e := i.ite nr
  if Flag.has e.flag ITE_FLAG_NORMAL then
    let e := iteUnlinkNormal e
    -- an entry that went UNLINKED puts its block on the list of the asynchronous pass
    some { i.setIte nr e with unlink := i.unlink || e.mdu.nlink == 0 }
  else if Flag.has e.flag ITE_FLAG_LS then itbDelIte i offset pos
  else some i

/-! ### The asynchronous pass -/

/-- The counters of an asynchronous pass: `*dc` and `hmo.prof.itb.async_unlink`. -/
structure UnlinkCount where
  dc : Nat
  prof : Nat
  deriving DecidableEq, Repr

def UnlinkCount.bump (count : UnlinkCount) : UnlinkCount := ⟨count.dc + 1, count.prof + 1⟩

/-- The loop of `async_unlink_ite` over the chain of `saved`. -/
def asyncUnlinkLoop (saved : Nat) :
    Nat → Itb → (offset prev : Nat) → (needswap : Bool) → UnlinkCount →
      Option (Itb × Bool × UnlinkCount)
  | 0, _, _, _, _, _ => none
  | fuel + 1, i, offset, prev, needswap, count =>
    let ii := i.index offset
    let total := 2 * i.total
    if ii.flag = .free then some (i, needswap, count)
    else if (i.ite ii.entry).state = ITE_UNLINKED then
      if offset = saved then
        if ii.conflict < total then
          asyncUnlinkLoop saved fuel i ii.conflict offset true count.bump
        else some (i, true, count.bump)
      else if ii.flag = .unique then some (unlinkBehind i prev offset, needswap, count.bump)
      else if ii.conflict < total then
        asyncUnlinkLoop saved fuel (unlinkBehind i prev offset) ii.conflict prev needswap count.bump
      else some (unlinkBehind i prev offset, needswap, count.bump)
    else if needswap then
      asyncUnlinkLoop saved fuel (swapEntries i offset saved) offset prev false count
    else if ii.flag = .unique then some (i, needswap, count)
    else if ii.conflict < total then
      asyncUnlinkLoop saved fuel i ii.conflict offset needswap count
    else some (i, needswap, count)

/-- The body of the outer loop of `async_unlink_ite` for one head that is not FREE. -/
def asyncUnlinkChain (i : Itb) (offset : Nat) (count : UnlinkCount) :
    Option (Itb × UnlinkCount) :=
  if (i.index offset).flag = .unique then
    if (i.ite (i.index offset).entry).state = ITE_UNLINKED then
      some (iteUnlinkInternal i offset, count.bump)
    else some (i, count)
  else
    match asyncUnlinkLoop offset (4 * i.total) i offset offset false count with
    | none => none
    | some (i, needswap, count) =>
      if needswap then (freeHead i offset).map fun i => (i, count) else some (i, count)

/-- The outer loop of `async_unlink_ite` over the last `left` heads. -/
def asyncUnlinkHeads (limit : Nat) : Nat → Itb → UnlinkCount → Option (Itb × UnlinkCount)
  | 0, i, count => some (i, count)
  | left + 1, i, count =>
    let offset := i.total - (left + 1)
    if (i.index offset).flag = .free then asyncUnlinkHeads limit left i count
    else
      match asyncUnlinkChain i offset count with
      | none => none
      | some (i, count) =>
        if count.dc ≥ limit then some (i, count) else asyncUnlinkHeads limit left i count

/-- `async_unlink_ite`; `limit` is `hmo.conf.max_async_unlink`. -/
def asyncUnlinkIte (limit : Nat) (i : Itb) (count : UnlinkCount) : Option (Itb × UnlinkCount) :=
  asyncUnlinkHeads limit i.total i count

/-! ### Searching -/

/-- The loop of `itb_search`: the cell of the chain at `offset` whose entry matches, if any. The
outer `none` means that the loop did not end within its fuel. -/
def itbFind (i : Itb) (hi : HvfsIndex) : Nat → Nat → Option (Option Nat)
  | 0, _ => none
  | fuel + 1, offset =>
    if offset < 2 * i.total then
      let ii := i.index offset
      match ii.flag with
      | .free => some none
      | .unique => if iteMatch (i.ite ii.entry) hi then some (some offset) else some none
      | _ =>
        if iteMatch (i.ite ii.entry) hi then some (some offset) else itbFind i hi fuel ii.conflict
    else some none

/-- What a search does to the block once `itb_dirty` has returned the block itself. -/
inductive SearchAct
  | update (cell : Nat)
  | unlink (cell : Nat)
  | linkAdd (cell : Nat)
  | create
  deriving DecidableEq, Repr

/-- How `itb_search` goes on after its loop: it returns, or it calls `itb_dirty` first. -/
inductive SearchPlan
  | done (err : Int) (data : Option MduReply)
  | dirty (act : SearchAct)
  deriving DecidableEq, Repr

/-- The branches of `itb_search` for a matching entry at `cell`. -/
def planFound (i : Itb) (hi : HvfsIndex) (cell : Nat) : SearchPlan :=
  let e := i.ite (i.index cell).entry
  if Flag.has hi.flag INDEX_LOOKUP then .done 0 (some (mduReply e))
  else if Flag.has hi.flag INDEX_CREATE then
    if !Flag.has hi.flag INDEX_CREATE_FORCE then .done (-EEXIST) none
    else if Flag.has hi.flag INDEX_CREATE_DIR then .done 0 none
    else if Flag.has hi.flag INDEX_CREATE_COPY then .dirty (.update cell)
    else if Flag.has hi.flag INDEX_CREATE_LINK then .dirty (.update cell)
    else .done 0 none
  else if Flag.has hi.flag INDEX_MDU_UPDATE then .dirty (.update cell)
  else if Flag.has hi.flag INDEX_UNLINK then .dirty (.unlink cell)
  else if Flag.has hi.flag INDEX_LINK_ADD then
    if Flag.has e.flag ITE_FLAG_LS then .done (-EACCES) none else .dirty (.linkAdd cell)
  else if Flag.has hi.flag INDEX_SYMLINK then .done (-EEXIST) none
  else .done (-EINVAL) none

/-- The branches of `itb_search` when no entry matches. -/
def planMissing (hi : HvfsIndex) : SearchPlan :=
  if Flag.has hi.flag INDEX_CREATE || Flag.has hi.flag INDEX_SYMLINK then .dirty .create
  else .done (-ENOENT) none

/-- `itb_search` up to its return or its call of `itb_dirty`. -/
def itbPlan (i : Itb) (hi : HvfsIndex) : Option SearchPlan :=
  match itbFind i hi (2 * i.total + 1) (hashSlot i hi.hash) with
  | none => none
  | some none => some (planMissing hi)
  | some (some cell) => some (planFound i hi cell)

/-- `itb_search` from the return of `itb_dirty` on. -/
def itbAct (hmi : Hmi) (i : Itb) (hi : HvfsIndex) : SearchAct → Option SearchResult
  | .update cell =>
    let nr := (i.index cell).entry
    let i := i.setIte nr (iteUpdate hi (i.ite nr))
    some ⟨0, some (mduReply (i.ite nr)), hmi, i⟩
  | .unlink cell =>
    match iteUnlink i cell (hashSlot i hi.hash) with
    | none => none
    | some i => some ⟨0, some (mduReply (i.ite (i.index cell).entry)), hmi, i⟩
  | .linkAdd cell =>
    let nr := (i.index cell).entry
    let e := i.ite nr
    let i := i.setIte nr { e with mdu := { e.mdu with nlink := e.mdu.nlink + 1 } }
    some ⟨0, some (mduReply (i.ite nr)), hmi, i⟩
  | .create => some (itbAddIte hmi i hi)

/-- `itb_search` on a block that is already DIRTY in the request's transaction group, so that
`itb_dirty` returns the block itself. -/
def itbSearch (hmi : Hmi) (i : Itb) (hi : HvfsIndex) : Option SearchResult :=
  match itbPlan i hi with
  | none => none
  | some (.done err data) => some ⟨err, data, hmi, i⟩
  | some (.dirty act) => itbAct hmi i hi act

end Hvfs
