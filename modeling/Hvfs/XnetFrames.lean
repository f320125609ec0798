/-
This file settles when the frames on a shared connection stay whole: a header
may be written to a connection only while no other thread has announced data on
it that it has not written yet. In the runs that keep to this, every stream is
received as the messages that were sent.
-/

import Hvfs.Library.Transition
import Hvfs.Xnet

namespace Hvfs

open Transition

/-! ### The streams and the messages -/

/-- The messages that the receiver makes of the stream. -/
def received (s : Senders) (fd : Nat) : List (XnetMsgTx × List U8) :=
  Framing.receive xnetCodec (s.stream fd).length (s.stream fd)

/-- The thread has written the header of the message, and the data is still missing. -/
def Owes (s : Senders) (fd thread : Nat) (msg : XnetMsg) : Prop :=
  s.stage thread = .data fd msg ∧ msg.siov.flatten ≠ []

/-- The stream is the messages sent, each header followed by its data, with at most the header of
one more message behind them, and the receiver makes these messages of it. -/
structure Framed (s : Senders) (fd : Nat) : Prop where
  whole : s.stream fd = (s.sent fd).flatMap (fun msg => msg.frame.bytes) ∨
    ∃ thread msg, Owes s fd thread msg ∧
      s.stream fd = (s.sent fd).flatMap (fun msg => msg.frame.bytes) ++ msg.tx.bytes
  received : received s fd = (s.sent fd).map fun msg => (msg.tx, msg.siov.flatten)

/-- No header is written to a connection on which another thread still owes the data of its
message. -/
def KeepsFrames (s : Senders) : SendEvent → Prop
  | .writeTx thread => ∀ fd msg, s.stage thread = .tx fd msg → ∀ other due, ¬Owes s fd other due
  | _ => True

/-! ### The invariant -/

/-- What stands on a stream between the steps: whole messages, or whole messages and the header of
the only message of which data is missing. -/
def Whole (s : Senders) (fd : Nat) : Prop :=
  ((∀ thread msg, ¬Owes s fd thread msg) ∧
      s.stream fd = (s.sent fd).flatMap fun msg => msg.frame.bytes) ∨
    ∃ thread msg, Owes s fd thread msg ∧
      (∀ other due, Owes s fd other due → other = thread) ∧
      s.stream fd = (s.sent fd).flatMap (fun msg => msg.frame.bytes) ++ msg.tx.bytes

section Steps

variable {s : Senders} {fd thread other : Nat} {msg due : XnetMsg} {stage : SendStage}

theorem frame_bytes (msg : XnetMsg) : msg.frame.bytes = msg.tx.bytes ++ msg.siov.flatten := rfl

/-- A thread that comes to a stage without missing data leaves what the others owe. -/
theorem owes_setStage (pays : ∀ due, stage = .data fd due → due.siov.flatten = []) :
    Owes (s.setStage thread stage) fd other due ↔ Owes s fd other due ∧ other ≠ thread := by
  unfold Owes Senders.setStage
  by_cases same : other = thread
  · subst same
    simp only [Function.update_self, ne_eq, not_true_eq_false, and_false, iff_false]
    rintro ⟨here, missing⟩
    exact missing (pays due here)
  · simp only [Function.update_of_ne same, ne_eq, same, not_false_eq_true, and_true]

/-- A thread that owed nothing and comes to owe nothing changes nothing of a stream. -/
theorem Whole.setStage (whole : Whole s fd) (before : ∀ due, ¬Owes s fd thread due)
    (after : ∀ due, stage = .data fd due → due.siov.flatten = []) :
    Whole (s.setStage thread stage) fd := by
  have same : ∀ other due, Owes (s.setStage thread stage) fd other due ↔ Owes s fd other due := by
    intro other due
    rw [owes_setStage after, and_iff_left_iff_imp]
    rintro owes rfl
    exact before due owes
  unfold Whole
  simp only [same]
  exact whole

/-- What stands on a stream is a matter of the stages, the stream and its messages. -/
theorem Whole.congr {next : Senders} (whole : Whole s fd) (stage : next.stage = s.stage)
    (stream : next.stream fd = s.stream fd) (sent : next.sent fd = s.sent fd) :
    Whole next fd := by
  unfold Whole Owes at whole ⊢
  rw [stage, stream, sent]
  exact whole

theorem Whole.write_other {fdOther : Nat} (whole : Whole s fdOther) (different : fdOther ≠ fd)
    (bytes : List U8) : Whole (s.write fd bytes) fdOther :=
  whole.congr rfl (Function.update_of_ne different _ _) rfl

theorem Whole.finish_other {fdOther : Nat} (whole : Whole s fdOther) (different : fdOther ≠ fd)
    (msg : XnetMsg) : Whole (s.finish fd msg) fdOther :=
  whole.congr rfl rfl (Function.update_of_ne different _ _)

/-- The messages of a stream once another one is complete. -/
theorem flatMap_finish (msg : XnetMsg) :
    ((s.finish fd msg).sent fd).flatMap (fun msg => msg.frame.bytes) =
      (s.sent fd).flatMap (fun msg => msg.frame.bytes) ++ msg.frame.bytes := by
  rw [finish_sent_self, List.flatMap_append, List.flatMap_singleton]

/-- The header of a message without data completes it. -/
theorem Whole.writeTx_empty (whole : Whole s fd) (clear : ∀ other due, ¬Owes s fd other due)
    (empty : msg.siov.flatten = []) : Whole ((s.write fd msg.tx.bytes).finish fd msg) fd := by
  rcases whole with ⟨_, stream⟩ | ⟨other, due, owes, _⟩
  · refine Or.inl ⟨clear, ?_⟩
    rw [flatMap_finish, frame_bytes, empty, List.append_nil, finish_stream, write_stream_self,
      write_sent, stream]
  · exact absurd owes (clear other due)

/-- The header of a message with data announces them. -/
theorem Whole.writeTx_data (whole : Whole s fd) (clear : ∀ other due, ¬Owes s fd other due)
    (data : msg.siov.flatten ≠ []) :
    Whole ((s.write fd msg.tx.bytes).setStage thread (.data fd msg)) fd := by
  rcases whole with ⟨_, stream⟩ | ⟨other, due, owes, _⟩
  · refine Or.inr ⟨thread, msg, ⟨Function.update_self _ _ _, data⟩, ?_, ?_⟩
    · intro other due owes
      by_contra different
      refine clear other due ⟨?_, owes.2⟩
      rw [← owes.1]
      exact (Function.update_of_ne different _ _).symm
    · rw [setStage_stream, setStage_sent, write_stream_self, write_sent, stream]
  · exact absurd owes (clear other due)

/-- The data of a message complete it. -/
theorem Whole.writeData (whole : Whole s fd) (owes : Owes s fd thread msg) :
    Whole (((s.write fd msg.siov.flatten).finish fd msg).setStage thread .idle) fd := by
  rcases whole with ⟨clear, _⟩ | ⟨owing, due, owesDue, sole, stream⟩
  · exact absurd owes (clear thread msg)
  · obtain rfl := sole thread msg owes
    have same : due = msg := by
      have stages := owesDue.1.symm.trans owes.1
      cases stages
      rfl
    subst same
    refine Or.inl ⟨fun other later owesLater => ?_, ?_⟩
    · have idle : ∀ later, SendStage.idle = .data fd later → later.siov.flatten = [] :=
        fun _ absurdity => by cases absurdity
      have before := (owes_setStage idle).mp owesLater
      exact before.2 (sole other later before.1)
    · rw [setStage_stream, setStage_sent, flatMap_finish, frame_bytes, ← List.append_assoc,
        finish_stream, write_stream_self, write_sent, stream]

end Steps

/-- Every step that keeps the frames leaves every stream whole. -/
theorem sendStep_whole {s next : Senders} {event : SendEvent} (whole : ∀ fd, Whole s fd)
    (keeps : KeepsFrames s event) (stepped : sendStep s event = some next) (fd : Nat) :
    Whole next fd := by
  cases event with
  | send thread target siteId reqno self msg =>
    simp only [sendStep] at stepped
    split at stepped
    · next idle =>
      cases stepped
      refine (whole fd).setStage (fun due owes => ?_) fun due absurdity => by cases absurdity
      rw [owes.1] at idle
      cases idle
    · cases stepped
  | writeTx thread =>
    simp only [sendStep] at stepped
    split at stepped
    · next target msg here =>
      have clear := keeps target msg here
      have owesNothing : ∀ {place : Nat} (due : XnetMsg), ¬Owes s place thread due := by
        intro place due owes
        rw [owes.1] at here
        cases here
      by_cases empty : msg.siov.flatten = []
      · simp only [empty, if_true] at stepped
        cases stepped
        have written : Whole ((s.write target msg.tx.bytes).finish target msg) fd := by
          by_cases same : fd = target
          · subst same
            exact (whole fd).writeTx_empty clear empty
          · exact ((whole fd).write_other same _).finish_other same msg
        refine written.setStage owesNothing fun due there => ?_
        split_ifs at there
        cases there
        exact empty
      · have some : msg.siov ≠ [] := by
          intro none
          rw [none] at empty
          exact empty rfl
        simp only [empty, some, if_false] at stepped
        cases stepped
        by_cases same : fd = target
        · subst same
          exact (whole fd).writeTx_data clear empty
        · refine ((whole fd).write_other same _).setStage owesNothing fun due there => ?_
          cases there
          exact absurd rfl same
    · cases stepped
  | writeData thread =>
    simp only [sendStep] at stepped
    split at stepped
    · next target msg here =>
      by_cases empty : msg.siov.flatten = []
      · simp only [empty, if_true] at stepped
        cases stepped
        have unwritten : Whole (s.write target []) fd := by
          refine (whole fd).congr rfl ?_ rfl
          rw [Senders.write, List.append_nil, Function.update_eq_self]
        refine unwritten.setStage (fun due owes => ?_) fun due absurdity => by cases absurdity
        have stages := here.symm.trans owes.1
        cases stages
        exact owes.2 empty
      · simp only [empty, if_false] at stepped
        cases stepped
        by_cases same : fd = target
        · subst same
          exact (whole fd).writeData ⟨here, empty⟩
        · refine (((whole fd).write_other same _).finish_other same msg).setStage
            (fun due owes => ?_) fun due absurdity => by cases absurdity
          have stages := here.symm.trans owes.1
          cases stages
          exact same rfl
    · cases stepped

/-- There are at least as many bytes as messages. -/
theorem length_le_flatMap (msgs : List XnetMsg) :
    msgs.length ≤ (msgs.flatMap fun msg => msg.frame.bytes).length := by
  induction msgs with
  | nil => exact Nat.le_refl _
  | cons msg msgs inductionHypothesis =>
    rw [List.flatMap_cons, List.length_append, frame_bytes, List.length_append,
      XnetMsgTx.bytes_length, List.length_cons, sizeofXnetMsgTx]
    omega

/-- What the receiver makes of whole messages with a part of a message behind them. -/
theorem received_eq {s : Senders} {fd : Nat} {part : List U8}
    (stream : s.stream fd = (s.sent fd).flatMap (fun msg => msg.frame.bytes) ++ part)
    (none : Framing.receiveOne xnetCodec part = none) :
    received s fd = (s.sent fd).map fun msg => (msg.tx, msg.siov.flatten) := by
  have frames : (s.sent fd).flatMap (fun msg => msg.frame.bytes) =
      ((s.sent fd).map XnetMsg.frame).flatMap Framing.Frame.bytes := by
    rw [List.flatMap_map]
  have enough : ((s.sent fd).map XnetMsg.frame).length ≤ (s.stream fd).length := by
    rw [stream, List.length_append, List.length_map]
    exact (length_le_flatMap _).trans (Nat.le_add_right _ _)
  unfold received
  generalize (s.stream fd).length = count at enough
  rw [stream, frames, Framing.receive_frames _ none enough, List.map_map]
  rfl

/-- What is whole is framed, and received. -/
theorem Whole.framed {s : Senders} {fd : Nat} (whole : Whole s fd) : Framed s fd := by
  rcases whole with ⟨_, stream⟩ | ⟨thread, msg, owes, _, stream⟩
  · refine ⟨Or.inl stream, received_eq ?_ Framing.receiveOne_nil⟩
    rw [List.append_nil, stream]
  · refine ⟨Or.inr ⟨thread, msg, owes, stream⟩, received_eq stream ?_⟩
    refine Framing.receiveOne_part msg.frame ⟨msg.siov.flatten, rfl⟩ fun same => owes.2 ?_
    rw [frame_bytes] at same
    exact (List.self_eq_append_right.mp same)

/-- In every run in which no header is written to a connection while another thread still owes
data on it, every stream stays framed and is received as the messages sent. -/
theorem frames_whole (events : List SendEvent) (final : Senders)
    (keeps : Guarded sendStep KeepsFrames Senders.start events)
    (reached : run sendStep Senders.start events = some final) (fd : Nat) : Framed final fd := by
  have initial : ∀ fd, Whole Senders.start fd := by
    refine fun fd => Or.inl ⟨?_, rfl⟩
    rintro thread msg ⟨stage, _⟩
    cases stage
  exact (guarded_invariant (fun s => ∀ fd, Whole s fd)
    (fun s event next whole keeps stepped => sendStep_whole whole keeps stepped) initial keeps
    reached fd).framed

/-- A message with one byte of data. -/
def byteMsg (byte : U8) : XnetMsg :=
  xnetMsgAddSdata xnetAllocMsg [byte] (show (0 : U64).toNat + 1 < 2 ^ 64 by decide)

/-- Two threads that send on one connection, one after the other. -/
def takeTurns : List SendEvent :=
  [.send 0 5 0 0 0 (byteMsg 7), .send 1 5 0 0 0 (byteMsg 8), .writeTx 0, .writeData 0, .writeTx 1,
    .writeData 1]

/-- Two threads take turns with whole messages. -/
theorem frames_whole_turns : ∃ final,
    run sendStep Senders.start takeTurns = some final ∧ (final.sent 5).length = 2 ∧
      Framed final 5 := by
  refine ⟨_, rfl, rfl, frames_whole takeTurns _ ?_ rfl 5⟩
  refine .cons trivial rfl (.cons trivial rfl (.cons ?_ rfl (.cons trivial rfl
    (.cons ?_ rfl (.cons trivial rfl trivial)))))
  · rintro fd msg - (_ | _ | other) due ⟨owes, -⟩
    · cases owes
    · cases owes
    · cases owes
  · rintro fd msg - (_ | _ | other) due ⟨owes, -⟩
    · cases owes
    · cases owes
    · cases owes

/-- Two threads write their headers before their data. -/
theorem frames_interleave : ∃ final,
    run sendStep Senders.start [.send 0 5 0 0 0 (byteMsg 7), .send 1 5 0 0 0 (byteMsg 8),
      .writeTx 0, .writeTx 1, .writeData 0, .writeData 1] = some final ∧ ¬Framed final 5 := by
  refine ⟨_, rfl, fun framed => ?_⟩
  exact absurd framed.received (by decide +kernel)

end Hvfs
