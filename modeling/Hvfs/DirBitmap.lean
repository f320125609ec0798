/-
This file embeds the bitmap of a directory, which says which of its ITBs exist:
the slices in the list of a `struct dhe`, the functions of `mds/xtable.c` on them,
and the turns of `mds_get_itbid`, which looks for the ITB of a hash and loads the
slices that it misses.

The sum of a slice's offset and its size is compared only where the offset is at
most one of an ITB, and so it does not leave the 56 bits of the field.
-/

import Hvfs.Const
import Mathlib.Data.List.Basic
import Mathlib.Data.Nat.Log

namespace Hvfs

def ITB_DEPTH : Nat := 10

/-! ### Slices -/

/-- The bits of a slice, and the bytes of its array. -/
def XTABLE_BITMAP_SIZE : Nat := 128 * 1024

def BITMAP_END : U8 := 0x80#8

/-- `struct itbitmap`; `array` by words. -/
structure Itbitmap where
  offset : BitVec 56
  flag : U8
  ts : U64
  array : Nat → U64

/-- `test_bit`. -/
def testBit (nr : Nat) (addr : Nat → U64) : Bool := (addr (nr / 64)).getLsbD (nr % 64)

/-- The slice has the bit of this offset. -/
def Itbitmap.Covers (b : Itbitmap) (offset : U64) : Prop :=
  b.offset.toNat ≤ offset.toNat ∧ offset.toNat < b.offset.toNat + XTABLE_BITMAP_SIZE

instance (b : Itbitmap) (offset : U64) : Decidable (b.Covers offset) :=
  inferInstanceAs (Decidable (_ ∧ _))

/-- `mds_bitmap_lookup`, in a slice that has the bit. -/
def mdsBitmapLookup (b : Itbitmap) (offset : U64) : Bool :=
  testBit (offset.toNat - b.offset.toNat) b.array

/-- `fls`: the place of the highest bit that is set, from 1 on, or 0. -/
def fls (x : U32) : Nat := if x = 0 then 0 else Nat.log2 x.toNat + 1

/-- `__clear_bit` in one word. -/
def clearBit (nr : Nat) (word : U64) : U64 := word &&& ~~~(1#64 <<< nr)

/-- `mds_bitmap_fallback`. The argument of `fls` is an `int`. -/
def mdsBitmapFallback (offset : U64) : U64 :=
  let nr := fls (offset.setWidth 32)
  if nr = 0 then 0 else clearBit (nr - 1) offset

/-- `mds_bitmap_update`. -/
def mdsBitmapUpdate (o n : Itbitmap) : Itbitmap :=
  { o with
    ts := n.ts
    array := fun i => if i < XTABLE_BITMAP_SIZE / 8 then o.array i ||| n.array i else o.array i }

/-! ### Loading slices -/

/-- The walk of `mds_bitmap_load` over the list. -/
def loadWalk (bitmap : Itbitmap) (offset : U64) : List Itbitmap → List Itbitmap
  | [] => []
  | b :: rest =>
    if b.offset.toNat < offset.toNat then b :: loadWalk bitmap offset rest
    else if b.offset.toNat = offset.toNat then mdsBitmapUpdate b bitmap :: rest
    else bitmap :: b :: rest

/-- The insertion of a loaded slice by `mds_bitmap_load`. -/
def loadInsert (slices : List Itbitmap) (bitmap : Itbitmap) (offset : U64) : List Itbitmap :=
  if slices = [] then [bitmap] else loadWalk bitmap offset slices

/-- What the server makes of a request for a slice: nothing, since the request cannot be made or
sent, or a reply with an error, without a bitmap, or with a slice. Every reply has data. -/
inductive LoadAnswer
  | failed (err : Int) (nonzero : err ≠ 0)
  | replyError (err : U32) (nonzero : err ≠ 0)
  | noBitmap
  | slice (bitmap : Itbitmap)

/-- `mds_bitmap_load`. Only a failure to send is an error. -/
def mdsBitmapLoad (slices : List Itbitmap) (offset : U64) : LoadAnswer → Int × List Itbitmap
  | .failed err _ => (err, slices)
  | .replyError _ _ => (0, slices)
  | .noBitmap => (0, slices)
  | .slice bitmap => (0, loadInsert slices bitmap offset)

/-- The walk of `__mds_bitmap_insert` over the list. -/
def insertWalk (b : Itbitmap) : List Itbitmap → Int × List Itbitmap
  | [] => (-EEXIST, [])
  | pos :: rest =>
    if pos.offset.toNat < b.offset.toNat then ((insertWalk b rest).1, pos :: (insertWalk b rest).2)
    else if pos.offset.toNat = b.offset.toNat then (-EEXIST, mdsBitmapUpdate pos b :: rest)
    else (0, b :: pos :: rest)

/-- `__mds_bitmap_insert`. -/
def mdsBitmapInsert (slices : List Itbitmap) (b : Itbitmap) : Int × List Itbitmap :=
  if slices = [] then (0, [b]) else insertWalk b slices

/-! ### `mds_get_itbid` -/

/-- What the walk over the list comes to. -/
inductive Turn
  | found
  | fall
  | load
  deriving DecidableEq, Repr

/-- The walk of `mds_get_itbid` over the list. -/
def itbidWalk (offset : U64) : List Itbitmap → Turn
  | [] => .load
  | b :: rest =>
    if b.Covers offset then (if mdsBitmapLookup b offset then .found else .fall)
    else if b.offset.toNat > offset.toNat then .load
    else if Flag.has b.flag BITMAP_END then .fall
    else itbidWalk offset rest

/-- `mds_get_itbid` at `retry:`: the offset, the list, and the number of loads so far. -/
structure ItbidSearch where
  offset : U64
  slices : List Itbitmap
  loads : Nat

/-- The search that `mds_get_itbid` starts with. -/
def ItbidSearch.start (slices : List Itbitmap) (hash : U64) : ItbidSearch :=
  ⟨hash >>> ITB_DEPTH, slices, 0⟩

/-- From `retry:` to `retry:`, or to the return with an ITB id and the number of loads. -/
def itbidTurn (answer : LoadAnswer) (s : ItbidSearch) : U64 × Nat ⊕ ItbidSearch :=
  match itbidWalk s.offset s.slices with
  | .found => .inl (s.offset, s.loads)
  | .fall => .inr { s with offset := mdsBitmapFallback s.offset }
  | .load =>
    let (err, slices) := mdsBitmapLoad s.slices s.offset answer
    if err = -ENOTEXIST then .inr ⟨mdsBitmapFallback s.offset, slices, s.loads + 1⟩
    else if err ≠ 0 then .inl (0, s.loads + 1)
    else .inr ⟨s.offset, slices, s.loads + 1⟩

/-- `mds_get_itbid` with the server's answers to its requests: the ITB id and the number of loads.
`none`: it has not returned after so many turns. -/
def itbidRun (answers : Nat → LoadAnswer) : Nat → ItbidSearch → Option (U64 × Nat)
  | 0, _ => none
  | turns + 1, s =>
    match itbidTurn (answers s.loads) s with
    | .inl result => some result
    | .inr s => itbidRun answers turns s

/-- `mds_get_itbid`. -/
def mdsGetItbid (answers : Nat → LoadAnswer) (turns : Nat) (slices : List Itbitmap) (hash : U64) :
    Option (U64 × Nat) :=
  itbidRun answers turns (ItbidSearch.start slices hash)

end Hvfs
