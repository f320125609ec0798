/-
This file embeds the CBHT of `mds/cbht.c`, an extendible hash table of blocks,
with each function run to completion.

Buckets and blocks are named by numbers in place of pointers. The directory is
a list of segments, each an array of bucket pointers; the part of an array that
was never written holds null. Allocations succeed. The source shifts 32-bit
integers, so a directory may not get as deep as 31; a split that would need
this stops with `Stop.depth`.
-/

import Hvfs.Const
import Mathlib.Algebra.BigOperators.Group.Finset.Basic
import Mathlib.Algebra.GroupWithZero.Nat
import Mathlib.Logic.Function.Basic

namespace Hvfs

/-! ### The data -/

/-- The number of entries of a segment. -/
def SEG_TOTAL : Nat := 16 * 1024

/-- `struct segment`. -/
structure Segment where
  offset : Nat
  len : Nat
  alen : Nat
  seg : Nat → Option Nat

/-- `struct bucket`. `content` gives the chain of each bucket entry. -/
structure Bucket where
  active : Int
  adepth : Nat
  depth : Nat
  id : Nat
  content : Nat → List Nat

/-- The part of `struct itbh` that the table works on. `be` names a bucket and one of its
entries. -/
structure Itbh where
  puuid : U64
  itbid : U64
  hash : U64
  be : Option (Nat × Nat)

/-- `struct eh`, with the buckets and the blocks it points to; `buckets` have been allocated. -/
structure Cbht where
  dir : List Segment
  dirDepth : Nat
  bucketDepth : Nat
  buckets : Nat
  bucket : Nat → Bucket
  itb : Nat → Itbh

/-- Why a call does not return: a loop is out of fuel, or the directory would be too deep. -/
inductive Stop
  | fuel
  | depth
  deriving DecidableEq, Repr

/-! ### Setting up -/

/-- `mds_segment_init`. -/
def mdsSegmentInit (offset alen : Nat) : Segment where
  offset := offset
  len := 0
  alen := alen
  seg := fun _ => none

/-- `cbht_bucket_alloc`. -/
def cbhtBucketAlloc (t : Cbht) (depth : Nat) : Nat × Cbht :=
  (t.buckets, { t with
    buckets := t.buckets + 1
    bucket := Function.update t.bucket t.buckets ⟨0, depth, 0, 0, fun _ => []⟩ })

/-- `mds_cbht_init`, for a server whose blocks are `itb`. -/
def mdsCbhtInit (bdepth : Nat) (itb : Nat → Itbh) : Cbht :=
  let (b, t) := cbhtBucketAlloc ⟨[], 0, bdepth, 0, fun _ => ⟨0, 0, 0, 0, fun _ => []⟩, itb⟩ bdepth
  let s := mdsSegmentInit 0 SEG_TOTAL
  { t with dir := [{ s with seg := Function.update s.seg 0 (some b), len := 1 }] }

/-! ### The directory -/

/-- The bucket pointer at an offset of the directory. -/
def dirEntry (dir : List Segment) (offset : Nat) : Option Nat :=
  (dir.find? fun s => s.offset ≤ offset && offset < s.offset + s.len).bind fun s =>
    s.seg (offset - s.offset)

/-- `mds_cbht_search_dir`. -/
def mdsCbhtSearchDir (t : Cbht) (hash : U64) : Option Nat :=
  dirEntry t.dir ((hash.toNat >>> t.bucketDepth) &&& ((1 <<< t.dirDepth) - 1))

/-- The inner loop of `segment_update_dir` over the `count` entries from `i` on, and `len`. -/
def segmentUpdate (mask id b offset : Nat) : Nat → Nat → Nat → (Nat → Option Nat) →
    (Nat → Option Nat) × Nat
  | 0, _, len, seg => (seg, len)
  | count + 1, i, len, seg =>
    let seg := if (offset + i) &&& mask = id &&& mask then Function.update seg i (some b) else seg
    if len - 1 = 0 then (seg, len - 1)
    else segmentUpdate mask id b offset count (i + 1) (len - 1) seg

/-- `segment_update_dir`. When `len` is 0 before the last segment, the next `--len` of the source
comes round to 2^64 - 1, and here it stays 0; the callers pass the length of the whole directory. -/
def segmentUpdateDir (mask id b : Nat) : Nat → List Segment → List Segment
  | _, [] => []
  | len, s :: rest =>
    let (seg, len) := segmentUpdate mask id b s.offset s.len 0 len s.seg
    { s with seg } :: segmentUpdateDir mask id b len rest

/-- `memcpy` of `count` bucket pointers. -/
def copyPointers (target : Nat → Option Nat) (dest : Nat) (source : Nat → Option Nat)
    (src count : Nat) : Nat → Option Nat :=
  fun k => if dest ≤ k ∧ k < dest + count then source (src + (k - dest)) else target k

/-- The loop of `cbht_copy_dir` with its `offset`, `len` and `cplen`; `base` is `s->len`. -/
def cbhtCopyDir (base : Nat) : List Segment → (offset len cplen : Nat) → (Nat → Option Nat) →
    Nat → Option Nat
  | [], _, _, _, seg => seg
  | pos :: rest, offset, len, cplen, seg =>
    if pos.offset ≤ offset ∧ offset < pos.offset + pos.len then
      let clen := min len (pos.offset + pos.len - offset)
      let seg := copyPointers seg (base + cplen) pos.seg (offset - pos.offset) clen
      if len - clen = 0 then seg
      else cbhtCopyDir base rest (offset + clen) (len - clen) (cplen + clen) seg
    else if len = 0 then seg
    else cbhtCopyDir base rest offset len cplen seg

/-- The directory around one segment. -/
structure DirCursor where
  front : List Segment
  ss : Segment
  behind : List Segment

def DirCursor.dir (c : DirCursor) : List Segment := c.front ++ c.ss :: c.behind

/-- The body of `if (olen)` in `cbht_enlarge_dir`. -/
def fillSegment (ss : Segment) (dir : List Segment) (offset olen : Nat) : Segment :=
  { ss with
    seg := cbhtCopyDir ss.len dir offset olen 0 ss.seg
    len := ss.len + olen }

/-- The search of `cbht_enlarge_dir` for the segment to begin with. -/
def enlargeFrom : Nat → List Segment → Option DirCursor
  | _, [] => none
  | olen, s :: rest =>
    if olen = s.len then some ⟨[], s, rest⟩
    else (enlargeFrom (olen - s.len) rest).map fun c => { c with front := s :: c.front }

/-- The `while` loop of `cbht_enlarge_dir`. -/
def enlargeLoop : Nat → DirCursor → (offset nlen : Nat) → Except Stop DirCursor
  | 0, _, _, _ => .error .fuel
  | fuel + 1, c, offset, nlen =>
    if nlen = 0 then .ok c
    else
      let olen := min (c.ss.alen - c.ss.len) nlen
      let ss := if olen = 0 then c.ss else fillSegment c.ss c.dir offset olen
      if nlen - olen ≠ 0 ∧ c.behind = [] then
        enlargeLoop fuel ⟨c.front ++ [ss], mdsSegmentInit (ss.offset + ss.alen) ss.alen, []⟩
          (offset + olen) (nlen - olen)
      else enlargeLoop fuel { c with ss } (offset + olen) (nlen - olen)

/-- `cbht_enlarge_dir`. Each turn of its loop fills a segment or appends one. -/
def cbhtEnlargeDir (t : Cbht) (tdepth : Nat) : Except Stop (Int × Cbht) :=
  if tdepth ≤ t.dirDepth then .ok (0, t)
  else
    match enlargeFrom (1 <<< t.dirDepth) t.dir with
    | none => .ok (-EINVAL, t)
    | some c =>
      match enlargeLoop (2 * 1 <<< t.dirDepth + 2) c 0 (1 <<< t.dirDepth) with
      | .error stop => .error stop
      | .ok c => .ok (0, { t with dir := c.dir, dirDepth := t.dirDepth + 1 })

/-- `cbht_update_dir`. -/
def cbhtUpdateDir (t : Cbht) (b : Nat) : Except Stop (Int × Cbht) :=
  let depth := (t.bucket b).depth
  match if depth > t.dirDepth then cbhtEnlargeDir t depth else .ok (0, t) with
  | .error stop => .error stop
  | .ok (err, t) =>
    if err ≠ 0 then .ok (err, t)
    else
      .ok (0, { t with
        dir := segmentUpdateDir ((1 <<< depth) - 1) (t.bucket b).id b (1 <<< t.dirDepth) t.dir })

/-! ### Splitting -/

/-- `(hash >> eh->bucket_depth) & (1 << (depth - 1))`. -/
def hashBit (bucketDepth : Nat) (hash : U64) (depth : Nat) : Bool :=
  (hash.toNat >>> bucketDepth) &&& (1 <<< (depth - 1)) != 0

/-- The loops of `cbht_bucket_split` that move blocks: of each chain of `ob`, those with the bit set
go one after the other to the head of the same chain of `nb`. -/
def moveItbs (t : Cbht) (ob nb : Nat) : Cbht :=
  let moves := fun ih => hashBit t.bucketDepth (t.itb ih).hash (t.bucket nb).depth
  let size := 1 <<< t.bucketDepth
  let chain := (t.bucket ob).content
  let moved := ((List.range size).map fun o => ((chain o).countP moves)).sum
  { t with
    bucket := Function.update (Function.update t.bucket ob
      { t.bucket ob with
        active := (t.bucket ob).active - moved
        content := fun o => if o < size then (chain o).filter fun ih => !moves ih else chain o })
      nb { t.bucket nb with
        active := (t.bucket nb).active + moved
        content := fun o =>
          if o < size then ((chain o).filter moves).reverse ++ (t.bucket nb).content o
          else (t.bucket nb).content o }
    itb := fun ih =>
      match (List.range size).find? fun o => ih ∈ chain o with
      | some o => if moves ih then { t.itb ih with be := some (nb, o) } else t.itb ih
      | none => t.itb ih }

/-- The part of `cbht_bucket_split` from `retry` to the update of the directory: the new bucket and
the table with the blocks moved. -/
def splitLevel (t : Cbht) (ob : Nat) : Nat × Cbht :=
  let (nb, t) := cbhtBucketAlloc t t.bucketDepth
  let depth := (t.bucket ob).depth + 1
  let t := { t with bucket := Function.update t.bucket ob { t.bucket ob with depth } }
  let t := { t with
    bucket := Function.update t.bucket nb
      { t.bucket nb with depth := depth, id := (t.bucket ob).id ||| (1 <<< (depth - 1)) } }
  (nb, moveItbs t ob nb)

/-- The levels of `cbht_bucket_split`. -/
def splitLoop (criminal : U64) : Nat → Cbht → Nat → Except Stop (Int × Cbht)
  | 0, _, _ => .error .fuel
  | fuel + 1, t, ob =>
    if (t.bucket ob).depth + 1 ≥ 31 then .error .depth
    else
      let (nb, t) := splitLevel t ob
      let inNew := hashBit t.bucketDepth criminal (t.bucket nb).depth
      match cbhtUpdateDir t nb with
      | .error stop => .error stop
      | .ok (err, t) =>
        if err ≠ 0 then .ok (err, t)
        -- a side that got everything is split again when the new block belongs there
        else if (t.bucket nb).active = 0 ∧ !inNew then splitLoop criminal fuel t ob
        else if (t.bucket ob).active = 0 ∧ inNew then splitLoop criminal fuel t nb
        else .ok (0, t)

/-- `cbht_bucket_split`. -/
def cbhtBucketSplit (t : Cbht) (ob : Nat) (criminal : U64) (sdepth : Nat) :
    Except Stop (Int × Cbht) :=
  if (t.bucket ob).active < ((2 <<< (t.bucket ob).adepth : Nat) : Int) then .ok (-EAGAIN, t)
  else if sdepth ≠ t.dirDepth then .ok (-EAGAIN, t)
  else splitLoop criminal 31 t ob

/-! ### The operations -/

/-- `i->h.hash = hash`. -/
def Cbht.noteHash (t : Cbht) (i : Nat) (hash : U64) : Cbht :=
  { t with itb := Function.update t.itb i { t.itb i with hash } }

/-- The table with the block `i` at the head of a chain, counted in its bucket. -/
def Cbht.attach (t : Cbht) (i b o : Nat) : Cbht :=
  { t with
    bucket := Function.update t.bucket b
      { t.bucket b with
        active := (t.bucket b).active + 1
        content := Function.update (t.bucket b).content o (i :: (t.bucket b).content o) }
    itb := Function.update t.itb i { t.itb i with be := some (b, o) } }

/-- The table without the block `i` on its chain. The count of the bucket stays. -/
def Cbht.detach (t : Cbht) (i b o : Nat) : Cbht :=
  { t with
    bucket := Function.update t.bucket b
      { t.bucket b with
        content := Function.update (t.bucket b).content o (((t.bucket b).content o).erase i) }
    itb := Function.update t.itb i { t.itb i with be := none } }

/-- What `mds_cbht_insert_bbrlocked` hands back: `ob`, `oe` and, with -EEXIST, `oi`. -/
structure InsertReply where
  err : Int
  ob : Option Nat
  oe : Option (Nat × Nat)
  oi : Option Nat
  deriving DecidableEq, Repr

/-- `ih->puuid == puuid && ih->itbid == itbid`. -/
def Cbht.keyIs (t : Cbht) (puuid itbid : U64) (ih : Nat) : Bool :=
  (t.itb ih).puuid == puuid && (t.itb ih).itbid == itbid

/-- `mds_cbht_insert_bbrlocked` from its `retry` on. -/
def insertLoop (i : Nat) (hash : U64) : Nat → Cbht → Except Stop (InsertReply × Cbht)
  | 0, _ => .error .fuel
  | fuel + 1, t =>
    match mdsCbhtSearchDir t hash with
    | none => .ok (⟨-ENOENT, none, none, none⟩, t)
    | some b =>
      let offset := hash.toNat &&& ((1 <<< t.bucketDepth) - 1)
      if (t.bucket b).active ≥ ((2 <<< (t.bucket b).adepth : Nat) : Int) then
        match cbhtBucketSplit t b hash t.dirDepth with
        | .error stop => .error stop
        | .ok (err, t) =>
          if err = 0 ∨ err = -EAGAIN then insertLoop i hash fuel t
          else .ok (⟨err, none, none, none⟩, t)
      else
        match ((t.bucket b).content offset).find? (t.keyIs (t.itb i).puuid (t.itb i).itbid) with
        | some ih => .ok (⟨-EEXIST, some b, some (b, offset), some ih⟩, t)
        | none => .ok (⟨0, some b, some (b, offset), none⟩, t.attach i b offset)

/-- `mds_cbht_insert_bbrlocked`. After one split the bucket has room, so it is searched for at most
twice. -/
def mdsCbhtInsert (hvfsHash : U64 → U64 → U64) (t : Cbht) (i : Nat) :
    Except Stop (InsertReply × Cbht) :=
  let hash := hvfsHash (t.itb i).puuid (t.itb i).itbid
  insertLoop i hash 2 (t.noteHash i hash)

/-- `mds_cbht_del`. -/
def mdsCbhtDel (t : Cbht) (i : Nat) : Int × Cbht :=
  match mdsCbhtSearchDir t (t.itb i).hash with
  | none => (-ENOENT, t)
  | some b =>
    let offset := (t.itb i).hash.toNat &&& ((1 <<< t.bucketDepth) - 1)
    if (t.itb i).be ≠ some (b, offset) then (0, t) else (0, t.detach i b offset)

/-- The lookup at the beginning of `mds_cbht_search`: the attached block of the key. -/
def mdsCbhtFind (hvfsHash : U64 → U64 → U64) (t : Cbht) (puuid itbid : U64) : Option Nat :=
  let hash := hvfsHash puuid itbid
  match mdsCbhtSearchDir t hash with
  | none => none
  | some b =>
    if (t.bucket b).active = 0 then none
    else
      ((t.bucket b).content (hash.toNat &&& ((1 <<< t.bucketDepth) - 1))).find?
        (t.keyIs puuid itbid)

/-- A call of one of the two operations. -/
inductive CbhtCall
  | insert (i : Nat)
  | del (i : Nat)
  deriving DecidableEq, Repr

def cbhtStep (hvfsHash : U64 → U64 → U64) (t : Cbht) : CbhtCall → Option Cbht
  | .insert i =>
    match mdsCbhtInsert hvfsHash t i with
    | .error _ => none
    | .ok (_, t) => some t
  | .del i => some (mdsCbhtDel t i).2

end Hvfs
