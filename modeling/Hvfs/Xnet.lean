/-
This file embeds the messages of the network layer: the header `struct
xnet_msg_tx` in memory, the message with its data region, and the sending of a
message by `xnet_send`, which writes the header and then the data, so that two
threads with one connection take turns between the writes.

The writes are single steps. `XNET_EAGER_WRITEV` is not defined in this build.
-/

import Hvfs.Const
import Hvfs.Library.Bytes
import Hvfs.Library.Framing
import Mathlib.Logic.Function.Basic

namespace Hvfs

open LittleEndian

/-! ### Messages -/

/-- `struct xnet_msg_tx`. -/
structure XnetMsgTx where
  version : U8 := 0
  type : U8 := 0
  flag : U16 := 0
  err : U32 := 0
  ssite_id : U64 := 0
  dsite_id : U64 := 0
  cmd : U64 := 0
  arg0 : U64 := 0
  arg1 : U64 := 0
  reqno : U64 := 0
  len : U64 := 0
  handle : U64 := 0
  deriving DecidableEq, Repr

def XNET_MSG_REQ : U8 := 1
def XNET_MSG_RPY : U8 := 2

/-- `sizeof(struct xnet_msg_tx)`. -/
def sizeofXnetMsgTx : Nat := 72

def XnetMsgTx.bytes (tx : XnetMsgTx) : List U8 :=
  putWord 1 tx.version ++ (putWord 1 tx.type ++ (putWord 2 tx.flag ++ (putWord 4 tx.err ++
    (putWord 8 tx.ssite_id ++ (putWord 8 tx.dsite_id ++ (putWord 8 tx.cmd ++ (putWord 8 tx.arg0 ++
      (putWord 8 tx.arg1 ++ (putWord 8 tx.reqno ++ (putWord 8 tx.len ++
        putWord 8 tx.handle))))))))))

/-- `*(struct xnet_msg_tx *)memory`. -/
def XnetMsgTx.read (memory : List U8) : XnetMsgTx where
  version := getWord 8 1 memory
  type := getWord 8 1 (memory.drop 1)
  flag := getWord 16 2 (memory.drop 2)
  err := getWord 32 4 (memory.drop 4)
  ssite_id := getWord 64 8 (memory.drop 8)
  dsite_id := getWord 64 8 (memory.drop 16)
  cmd := getWord 64 8 (memory.drop 24)
  arg0 := getWord 64 8 (memory.drop 32)
  arg1 := getWord 64 8 (memory.drop 40)
  reqno := getWord 64 8 (memory.drop 48)
  len := getWord 64 8 (memory.drop 56)
  handle := getWord 64 8 (memory.drop 64)

theorem XnetMsgTx.bytes_length (tx : XnetMsgTx) : tx.bytes.length = sizeofXnetMsgTx := by
  simp only [XnetMsgTx.bytes, List.length_append, putWord_length]
  rfl

theorem XnetMsgTx.read_bytes (tx : XnetMsgTx) : XnetMsgTx.read tx.bytes = tx := by
  have last := getWord_putWord (show 2 ^ 64 ≤ 256 ^ 8 by decide) tx.handle []
  rw [List.append_nil] at last
  unfold XnetMsgTx.read XnetMsgTx.bytes
  simp (disch := decide) only [drop_putWord, getWord_putWord, Nat.reduceSub, List.drop_zero, last]

/-- The sending side of `struct xnet_msg`: the header and the data region. The length in the header
is that of the region. -/
structure XnetMsg where
  tx : XnetMsgTx
  siov : List (List U8)
  len : siov.flatten.length = tx.len.toNat
  deriving DecidableEq, Repr

/-- `xnet_alloc_msg`. -/
def xnetAllocMsg : XnetMsg := ⟨{}, [], rfl⟩

/-- `xnet_msg_add_sdata`, with data for which there is room in the length. -/
def xnetMsgAddSdata (msg : XnetMsg) (buf : List U8)
    (room : msg.tx.len.toNat + buf.length < 2 ^ 64) : XnetMsg where
  tx := { msg.tx with len := msg.tx.len + BitVec.ofNat 64 buf.length }
  siov := msg.siov ++ [buf]
  len := by
    rw [List.flatten_append, List.flatten_singleton, List.length_append, msg.len,
      BitVec.toNat_add, BitVec.toNat_ofNat]
    omega

/-- The fields that `xnet_send` sets before it writes: the own site, the request number, and the
message's address unless it is a reply. -/
def XnetMsg.fill (msg : XnetMsg) (siteId reqno self : U64) : XnetMsg :=
  { msg with tx := { msg.tx with
    ssite_id := siteId
    reqno := reqno
    handle := if msg.tx.type ≠ XNET_MSG_RPY then self else msg.tx.handle } }

/-- The reading of a message by `__xnet_handle_tx`: a header, and the data that it announces. -/
def xnetCodec : Framing.Codec U8 XnetMsgTx where
  size := sizeofXnetMsgTx
  encode := XnetMsgTx.bytes
  decode := XnetMsgTx.read
  payload tx := tx.len.toNat
  size_pos := by decide
  length_encode := XnetMsgTx.bytes_length
  decode_encode := XnetMsgTx.read_bytes

/-- The message as it should stand on the stream. -/
def XnetMsg.frame (msg : XnetMsg) : Framing.Frame xnetCodec := ⟨msg.tx, msg.siov.flatten, msg.len⟩

/-! ### Threads that send -/

/-- Where a thread is in `xnet_send`. -/
inductive SendStage
  | idle
  /-- The connection is selected, the header is to be written. -/
  | tx (fd : Nat) (msg : XnetMsg)
  /-- The header is written, the data region is to be written. -/
  | data (fd : Nat) (msg : XnetMsg)

/-- The connections, by descriptor: the bytes that were written to them, and the messages of which
all bytes were written. -/
structure Senders where
  stage : Nat → SendStage
  stream : Nat → List U8
  sent : Nat → List XnetMsg

/-- No thread sends and no byte was written. -/
def Senders.start : Senders := ⟨fun _ => .idle, fun _ => [], fun _ => []⟩

/-- One step of one thread: a call of `xnet_send` up to its first write, the `write` of the header,
the `writev` of the data region. -/
inductive SendEvent
  | send (thread fd : Nat) (siteId reqno self : U64) (msg : XnetMsg)
  | writeTx (thread : Nat)
  | writeData (thread : Nat)

def Senders.setStage (s : Senders) (thread : Nat) (stage : SendStage) : Senders :=
  { s with stage := Function.update s.stage thread stage }

/-- The bytes go to the end of the stream. -/
def Senders.write (s : Senders) (fd : Nat) (bytes : List U8) : Senders :=
  { s with stream := Function.update s.stream fd (s.stream fd ++ bytes) }

/-- All bytes of the message are written. -/
def Senders.finish (s : Senders) (fd : Nat) (msg : XnetMsg) : Senders :=
  { s with sent := Function.update s.sent fd (s.sent fd ++ [msg]) }

section Updates

variable (s : Senders) (fd thread : Nat) (bytes : List U8) (msg : XnetMsg) (stage : SendStage)

@[simp] theorem setStage_stream : (s.setStage thread stage).stream = s.stream := rfl

@[simp] theorem setStage_sent : (s.setStage thread stage).sent = s.sent := rfl

@[simp] theorem write_stream_self : (s.write fd bytes).stream fd = s.stream fd ++ bytes :=
  Function.update_self _ _ _

@[simp] theorem write_sent : (s.write fd bytes).sent = s.sent := rfl

@[simp] theorem finish_stream : (s.finish fd msg).stream = s.stream := rfl

@[simp] theorem finish_sent_self : (s.finish fd msg).sent fd = s.sent fd ++ [msg] :=
  Function.update_self _ _ _

end Updates

def sendStep (s : Senders) : SendEvent → Option Senders
  | .send thread fd siteId reqno self msg =>
    match s.stage thread with
    | .idle => some (s.setStage thread (.tx fd (msg.fill siteId reqno self)))
    | _ => none
  | .writeTx thread =>
    match s.stage thread with
    | .tx fd msg =>
      let s := s.write fd msg.tx.bytes
      let s := if msg.siov.flatten = [] then s.finish fd msg else s
      some (s.setStage thread (if msg.siov = [] then .idle else .data fd msg))
    | _ => none
  | .writeData thread =>
    match s.stage thread with
    | .data fd msg =>
      let s := s.write fd msg.siov.flatten
      let s := if msg.siov.flatten = [] then s else s.finish fd msg
      some (s.setStage thread .idle)
    | _ => none

end Hvfs
