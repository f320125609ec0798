/-
This file embeds the reply to a metadata request: the memory layout of the
structures that travel in it, the end of `cbht_itb_hit`, which lays out the
data region, the part of `mds_send_reply` that puts the reply into a message,
and `hmr_extract`, which finds the regions again.

The four bytes of padding in `struct mdu` are zero. `hi->psalt`, which no search
reads, is an argument where the index is copied as a whole.
-/

import Hvfs.Library.Bytes
import Hvfs.Server

namespace Hvfs

open LittleEndian

/-! ### Layout -/

/-- `struct hvfs_index` without the name behind it; `dlen` is the union with the pointer. -/
structure IndexHeader where
  namelen : U32
  flag : U32
  uuid : U64
  hash : U64
  itbid : U64
  puuid : U64
  psalt : U64
  dlen : U64
  deriving DecidableEq, Repr

def IndexHeader.bytes (header : IndexHeader) : List U8 :=
  putWord 4 header.namelen ++ (putWord 4 header.flag ++ (putWord 8 header.uuid ++
    (putWord 8 header.hash ++ (putWord 8 header.itbid ++ (putWord 8 header.puuid ++
      (putWord 8 header.psalt ++ putWord 8 header.dlen))))))

/-- `*(struct hvfs_index *)memory`. -/
def IndexHeader.read (memory : List U8) : IndexHeader where
  namelen := getWord 32 4 memory
  flag := getWord 32 4 (memory.drop 4)
  uuid := getWord 64 8 (memory.drop 8)
  hash := getWord 64 8 (memory.drop 16)
  itbid := getWord 64 8 (memory.drop 24)
  puuid := getWord 64 8 (memory.drop 32)
  psalt := getWord 64 8 (memory.drop 40)
  dlen := getWord 64 8 (memory.drop 48)

/-- The index as it lies in memory. -/
def HvfsIndex.header (hi : HvfsIndex) (psalt : U64) : IndexHeader where
  namelen := BitVec.ofNat 32 hi.name.length
  flag := hi.flag
  uuid := hi.uuid
  hash := hi.hash
  itbid := hi.itbid
  puuid := hi.puuid
  psalt := psalt
  dlen := hi.data.ptr

def LinkSource.bytes (ls : LinkSource) : List U8 :=
  putWord 8 ls.sHash ++ (putWord 8 ls.sPuuid ++ putWord 8 ls.sUuid)

/-- `*(struct link_source *)memory`. -/
def LinkSource.read (memory : List U8) : LinkSource where
  sHash := getWord 64 8 memory
  sPuuid := getWord 64 8 (memory.drop 8)
  sUuid := getWord 64 8 (memory.drop 16)

def Mdu.bytes (mdu : Mdu) : List U8 :=
  putWord 8 mdu.size ++ (putWord 8 mdu.dev ++ (putWord 2 mdu.mode ++ (putWord 2 mdu.nlink ++
    (putWord 4 mdu.uid ++ (putWord 4 mdu.gid ++ (putWord 4 mdu.flags ++ (putWord 8 mdu.atime ++
      (putWord 8 mdu.ctime ++ (putWord 8 mdu.mtime ++ (putWord 8 mdu.dtime ++
        (putWord 4 mdu.version ++ (putWord 4 (0 : U32) ++ putWord 16 mdu.symname))))))))))))

/-- `*(struct mdu *)memory`. -/
def Mdu.read (memory : List U8) : Mdu where
  size := getWord 64 8 memory
  dev := getWord 64 8 (memory.drop 8)
  mode := getWord 16 2 (memory.drop 16)
  nlink := getWord 16 2 (memory.drop 18)
  uid := getWord 32 4 (memory.drop 20)
  gid := getWord 32 4 (memory.drop 24)
  flags := getWord 32 4 (memory.drop 28)
  atime := getWord 64 8 (memory.drop 32)
  ctime := getWord 64 8 (memory.drop 40)
  mtime := getWord 64 8 (memory.drop 48)
  dtime := getWord 64 8 (memory.drop 56)
  version := getWord 32 4 (memory.drop 64)
  symname := getWord 128 16 (memory.drop 72)

/-- The link source that overlays the first 24 bytes of an `mdu`. -/
def Mdu.ls (mdu : Mdu) : LinkSource where
  sHash := mdu.size
  sPuuid := mdu.dev
  sUuid := mdu.uid ++ (mdu.nlink ++ mdu.mode)

/-- `HVFS_MDU_SIZE`: an `mdu` and the 24 bytes behind it. -/
def HVFS_MDU_SIZE : Nat := 112

/-- `sizeof(struct link_source)`. -/
def sizeofLinkSource : Nat := 24

/-- The `HVFS_MDU_SIZE` bytes at an entry's `mdu`. -/
def MduReply.bytes (reply : MduReply) : List U8 := reply.mdu.bytes ++ reply.tail

def MduReply.read (memory : List U8) : MduReply where
  mdu := Mdu.read memory
  tail := memory.drop 88

/-! ### The reply -/

/-- `struct hvfs_md_reply`. On the server `data` is the memory that the pointer leads to; in a
message it is what follows the header. -/
structure MdReply where
  err : U16
  mduNo : U16
  lsNo : U16
  bitmapNo : U16
  len : Int
  flag : U32
  data : List U8
  deriving DecidableEq, Repr

/-- `get_hmr`. -/
def getHmr : MdReply where
  err := 0
  mduNo := 0
  lsNo := 0
  bitmapNo := 0
  len := 0
  flag := 0
  data := []

/-- `S_ISDIR`. -/
def sIsDir (mode : U16) : Bool := mode &&& 0xf000 == 0x4000

/-- What a reply depends on besides the block and the request: the uuid of the global directory
table, the salt in the index, and what the buffer `mdu_rpy` held before. -/
structure ReplyContext where
  gdtUuid : U64
  psalt : U64
  stack : List U8
  stackLength : stack.length = HVFS_MDU_SIZE

/-- The end of `cbht_itb_hit`, from `m = (struct mdu *)(mdu_rpy)` on, with the memory that
`xmalloc` returns. -/
def fillReply (context : ReplyContext) (hi : HvfsIndex) (mduRpy : List U8) (hmr : MdReply) :
    MdReply :=
  let m := Mdu.read mduRpy
  let flag := hmr.flag
  let flag := if Flag.has hi.flag INDEX_BY_ITB then flag ||| MD_REPLY_READDIR else flag
  let flag := if sIsDir m.mode && hi.puuid != context.gdtUuid then flag ||| MD_REPLY_DIR_SDT
    else flag
  let hmr :=
    if Flag.has m.flags HVFS_MDU_IF_LINKT then
      { hmr with
        flag := flag ||| MD_REPLY_WITH_LS
        len := hmr.len + sizeofLinkSource }
    else
      { hmr with
        flag := flag ||| MD_REPLY_WITH_MDU
        len := hmr.len + HVFS_MDU_SIZE
        mduNo := 1 }
  let hmr := { hmr with
    flag := hmr.flag ||| MD_REPLY_WITH_HI
    len := hmr.len + sizeofHvfsIndex }
  { hmr with
    data := (hi.header context.psalt).bytes ++
      if Flag.has m.flags HVFS_MDU_IF_LINKT then mduRpy.take sizeofLinkSource
      else mduRpy.take HVFS_MDU_SIZE }

/-- `cbht_itb_hit` on a block that is not COWED, with the reply it leaves. -/
def cbhtItbHitReply (context : ReplyContext) (chance : Chance) (hmi : Hmi) (i : Itb)
    (hi : HvfsIndex) (hmr : MdReply) : Option (Int × MdReply) :=
  if Flag.has hi.flag INDEX_BY_ITB then some (0, hmr)
  else
    (itbSearchCow hmi i hi chance.memory).map fun result =>
      if result.err = 0 then
        let mduRpy := (result.data.map MduReply.bytes).getD context.stack
        if chance.replyData then (0, fillReply context hi mduRpy hmr)
        -- the flags and the length are set by now, the memory is not there
        else (-ENOMEM, { fillReply context hi mduRpy hmr with data := [] })
      else (result.err, hmr)

/-- The reply as `mds_send_reply` sends it without an error: the header, and behind it `len` bytes
of the data. -/
def sendReply (hmr : MdReply) : MdReply :=
  { hmr with
    err := 0
    data := if hmr.len = 0 then [] else hmr.data.take hmr.len.toNat }

/-! ### Reading a reply -/

/-- `hmr_extract`: the number of entries of a region, and where it begins behind the header. -/
def hmrExtract (hmr : MdReply) (flag : U32) : Option (Int × Int) :=
  let behindHi : Int := if Flag.has hmr.flag MD_REPLY_WITH_HI then sizeofHvfsIndex else 0
  let behindMdu : Int := behindHi +
    if Flag.has hmr.flag MD_REPLY_WITH_MDU then HVFS_MDU_SIZE * hmr.mduNo.toInt else 0
  let behindLs : Int := behindMdu +
    if Flag.has hmr.flag MD_REPLY_WITH_LS then sizeofLinkSource * hmr.lsNo.toInt else 0
  if Flag.has flag EXTRACT_HI then
    if Flag.has hmr.flag MD_REPLY_WITH_HI then some (1, 0) else none
  else if Flag.has flag EXTRACT_MDU then
    if Flag.has hmr.flag MD_REPLY_WITH_MDU then some (hmr.mduNo.toInt, behindHi) else none
  else if Flag.has flag EXTRACT_LS then
    if Flag.has hmr.flag MD_REPLY_WITH_LS then some (hmr.lsNo.toInt, behindMdu) else none
  else if Flag.has flag EXTRACT_BITMAP then
    if Flag.has hmr.flag MD_REPLY_WITH_BITMAP then some (hmr.bitmapNo.toInt, behindLs) else none
  else none

/-- The `size` bytes of a region, when they lie within the `len` bytes of the data. -/
def MdReply.region (hmr : MdReply) (offset : Int) (size : Nat) : Option (List U8) :=
  if 0 ≤ offset ∧ offset + size ≤ hmr.len then some ((hmr.data.drop offset.toNat).take size)
  else none

end Hvfs
