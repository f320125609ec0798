/-
This file develops messages on a byte stream. A frame is a header of a fixed
size followed by as many bytes of data as its header says; the receiver reads a
header, then the data, and starts over.

A stream of whole frames is received as these frames, also when the beginning of
another frame stands behind them.
-/

import Mathlib.Data.List.Basic
import Mathlib.Tactic.Common

namespace Framing

/-- A header as bytes, and the length of the data behind it. -/
structure Codec (Byte Header : Type*) where
  size : Nat
  encode : Header → List Byte
  decode : List Byte → Header
  payload : Header → Nat
  size_pos : 0 < size
  length_encode : ∀ header, (encode header).length = size
  decode_encode : ∀ header, decode (encode header) = header

variable {Byte Header : Type*} (codec : Codec Byte Header)

/-- A header with the data that it announces. -/
structure Frame where
  header : Header
  data : List Byte
  length : data.length = codec.payload header

/-- A frame on the stream. -/
def Frame.bytes {codec : Codec Byte Header} (frame : Frame codec) : List Byte :=
  codec.encode frame.header ++ frame.data

/-- The next message of the stream and what is behind it, when all of it has come. -/
def receiveOne (stream : List Byte) : Option ((Header × List Byte) × List Byte) :=
  if stream.length < codec.size then none
  else
    let header := codec.decode (stream.take codec.size)
    let rest := stream.drop codec.size
    if rest.length < codec.payload header then none
    else some ((header, rest.take (codec.payload header)), rest.drop (codec.payload header))

/-- At most `count` messages of the stream, as far as they have come. -/
def receive : Nat → List Byte → List (Header × List Byte)
  | 0, _ => []
  | count + 1, stream =>
    match receiveOne codec stream with
    | none => []
    | some (message, rest) => message :: receive count rest

variable {codec}

/-- A frame at the front of the stream is received. -/
theorem receiveOne_bytes (frame : Frame codec) (rest : List Byte) :
    receiveOne codec (frame.bytes ++ rest) = some ((frame.header, frame.data), rest) := by
  have front : (frame.bytes ++ rest).take codec.size = codec.encode frame.header := by
    rw [Frame.bytes, List.append_assoc]
    exact List.take_left' (codec.length_encode _)
  have behind : (frame.bytes ++ rest).drop codec.size = frame.data ++ rest := by
    rw [Frame.bytes, List.append_assoc]
    exact List.drop_left' (codec.length_encode _)
  have long : ¬(frame.bytes ++ rest).length < codec.size := by
    rw [Frame.bytes, List.length_append, List.length_append, codec.length_encode]
    omega
  have enough : ¬(frame.data ++ rest).length < codec.payload frame.header := by
    rw [List.length_append, frame.length]
    omega
  rw [receiveOne, if_neg long]
  simp only [front, behind, codec.decode_encode, if_neg enough]
  rw [List.take_left' frame.length, List.drop_left' frame.length]

/-- Of the beginning of a frame nothing is received. -/
theorem receiveOne_part (frame : Frame codec) {part : List Byte} (prefixed : part <+: frame.bytes)
    (less : part ≠ frame.bytes) : receiveOne codec part = none := by
  obtain ⟨missing, whole⟩ := prefixed
  have some : missing ≠ [] := by
    rintro rfl
    exact less (by rw [← whole, List.append_nil])
  have shorter : part.length < codec.size + codec.payload frame.header := by
    have length := congrArg List.length whole
    rw [List.length_append, Frame.bytes, List.length_append, codec.length_encode, frame.length]
      at length
    have positive := List.length_pos_of_ne_nil some
    omega
  rw [receiveOne]
  split
  · rfl
  · next long =>
    have front : part.take codec.size = codec.encode frame.header := by
      have taken := congrArg (List.take codec.size) whole
      rw [List.take_append_of_le_length (by omega), Frame.bytes,
        List.take_left' (codec.length_encode _)] at taken
      exact taken
    simp only [front, codec.decode_encode]
    rw [if_pos]
    rw [List.length_drop]
    omega

/-- Whole frames with the beginning of another one behind them are received as these frames. -/
theorem receive_frames (frames : List (Frame codec)) {part : List Byte}
    (none : receiveOne codec part = none) {count : Nat} (enough : frames.length ≤ count) :
    receive codec count (frames.flatMap Frame.bytes ++ part) =
      frames.map fun frame => (frame.header, frame.data) := by
  induction frames generalizing count with
  | nil =>
    rw [List.flatMap_nil, List.nil_append]
    cases count with
    | zero => rfl
    | succ count => rw [receive, none, List.map_nil]
  | cons frame frames inductionHypothesis =>
    cases count with
    | zero => exact absurd enough (Nat.not_succ_le_zero _)
    | succ count =>
      rw [List.flatMap_cons, List.append_assoc, receive, receiveOne_bytes]
      simp only
      rw [inductionHypothesis (Nat.le_of_succ_le_succ enough), List.map_cons]

theorem receiveOne_nil : receiveOne codec [] = none := if_pos codec.size_pos

end Framing
