/-
This file determines when `xnet_send` has sent what it says it has sent.

The header is written in a loop, which takes short counts and interrupted calls.
The data region is written with a single `writev`, and after a short count the
function returns what stands in `errno`, although no call has failed.
-/

import Hvfs.Xnet
import Hvfs.Dispatch

namespace Hvfs

/-! ### System calls -/

def EINTR : Int := 4

/-- The number of an error, as a call that fails leaves it in `errno`. -/
structure Errno where
  code : Int
  positive : 0 < code
  deriving DecidableEq, Repr

/-- What `write` and `writev` return. A call that succeeds takes `count` bytes, or all bytes if
there are fewer, and says nothing about `errno`: it is zero or the number of an earlier error. -/
inductive WriteResult
  | wrote (count errno : Nat)
  | failed (errno : Errno)
  deriving DecidableEq, Repr

/-- What `sem_wait` returns. -/
inductive SemResult
  | posted
  | failed (errno : Errno)
  deriving DecidableEq, Repr

/-- The selection of a connection. The sleep after a `connect` that fails can end with a connection
that another thread has made; `err` is not reset then. -/
inductive Selection
  | connected
  | connectedAfter (errno : Errno)
  | failed (errno : Errno)
  | notFound
  deriving DecidableEq, Repr

/-! ### `xnet_send` -/

/-- The loop that writes the header from `bw` on; `stream` is what the connection got so far. The
loop ends with the calls that are left, or with an error. `none`: the calls are used up. -/
def writeTxLoop (tx : List U8) :
    Nat → List U8 → List WriteResult → Option (Except Int (List WriteResult) × List U8)
  | _, _, [] => none
  | bw, stream, .failed errno :: results =>
    if errno.code = EINTR ∨ errno.code = EAGAIN then writeTxLoop tx bw stream results
    else some (.error (-errno.code), stream)
  | bw, stream, .wrote count _ :: results =>
    let bt := min count (sizeofXnetMsgTx - bw)
    let stream := stream ++ (tx.drop bw).take bt
    if bw + bt < sizeofXnetMsgTx then writeTxLoop tx (bw + bt) stream results
    else some (.ok results, stream)

/-- The `writev` of the data region. `bt` is an `int`. -/
def writevData (msg : XnetMsg) (stream : List U8) :
    List WriteResult → Option (Except Int Unit × List U8)
  | [] => none
  | .failed errno :: _ => some (.error (-errno.code), stream)
  | .wrote count errno :: _ =>
    let taken := min count msg.siov.flatten.length
    let bt := (BitVec.ofNat 32 taken).toInt
    let stream := stream ++ msg.siov.flatten.take taken
    if bt < 0 ∨ (msg.tx.len.toNat : Int) > bt then some (.error (-(errno : Int)), stream)
    else some (.ok (), stream)

/-- The wait for the reply. -/
def semWaitLoop : List SemResult → Option Int
  | [] => none
  | .posted :: _ => some 0
  | .failed errno :: waits => if errno.code = EINTR then semWaitLoop waits else some (-1)

/-- The end of `xnet_send`, with everything sent. -/
def xnetSendWait (flag : U16) (err : Int) (waits : List SemResult) : Option Int :=
  if Flag.has flag XNET_NEED_REPLY then semWaitLoop waits else some err

/-- `xnet_send` from the selected connection on. -/
def xnetSendSelected (msg : XnetMsg) (err : Int) (results : List WriteResult)
    (waits : List SemResult) : Option (Int × List U8) :=
  match writeTxLoop msg.tx.bytes 0 [] results with
  | none => none
  | some (.error err, stream) => some (err, stream)
  | some (.ok results, stream) =>
    if msg.siov = [] then (xnetSendWait msg.tx.flag err waits).map (·, stream)
    else
      match writevData msg stream results with
      | none => none
      | some (.error err, stream) => some (err, stream)
      | some (.ok _, stream) => (xnetSendWait msg.tx.flag err waits).map (·, stream)

/-- `xnet_send`: the value, and the bytes that the connection got. `none`: it has not returned after
these calls. -/
def xnetSend (selection : Selection) (siteId reqno self : U64) (msg : XnetMsg)
    (results : List WriteResult) (waits : List SemResult) : Option (Int × List U8) :=
  match selection with
  | .notFound => some (-EINVAL, [])
  | .failed errno => some (-errno.code, [])
  | .connected => xnetSendSelected (msg.fill siteId reqno self) 0 results waits
  | .connectedAfter errno =>
    xnetSendSelected (msg.fill siteId reqno self) (-errno.code) results waits

/-! ### The calls that write the header -/

/-- The bytes that a call offers to take. -/
def WriteResult.count : WriteResult → Nat
  | .wrote count _ => count
  | .failed _ => 0

/-- The loop goes on after this call. -/
def WriteResult.Retried : WriteResult → Prop
  | .wrote _ _ => True
  | .failed errno => errno.code = EINTR ∨ errno.code = EAGAIN

/-- The calls write the header from `bw` on, and the last one of them completes it. -/
def WritesTx (bw : Nat) (calls : List WriteResult) : Prop :=
  (∀ call ∈ calls, call.Retried) ∧
    sizeofXnetMsgTx ≤ bw + (calls.map WriteResult.count).sum ∧
    ∀ i < calls.length, bw + ((calls.take i).map WriteResult.count).sum < sizeofXnetMsgTx

/-- The header is written, and then `writev` takes fewer bytes than there are. -/
def ShortData (msg : XnetMsg) (results : List WriteResult) (errno : Nat) : Prop :=
  ∃ calls count rest, results = calls ++ .wrote count errno :: rest ∧ WritesTx 0 calls ∧
    count < msg.tx.len.toNat

/-- The value of `xnet_send` says what was sent. -/
def SendSound (selection : Selection) (siteId reqno self : U64) (msg : XnetMsg)
    (results : List WriteResult) (waits : List SemResult) : Prop :=
  ∀ err stream, xnetSend selection siteId reqno self msg results waits = some (err, stream) →
    (¬Flag.has msg.tx.flag XNET_NEED_REPLY → err = 0 →
      stream = (msg.fill siteId reqno self).tx.bytes ++ msg.siov.flatten) ∧
    (err ≠ 0 → err < 0)

section Loop

variable {tx stream final : List U8} {bw : Nat} {call : WriteResult}
  {calls results rest : List WriteResult}

theorem writesTx_nil : WritesTx bw [] ↔ sizeofXnetMsgTx ≤ bw := by
  constructor
  · intro writes
    exact writes.2.1
  · intro written
    exact ⟨fun _ mem => absurd mem List.not_mem_nil, written,
      fun i bound => absurd bound (Nat.not_lt_zero i)⟩

/-- The first call either completes the header or leaves the rest to the others. -/
theorem writesTx_cons :
    WritesTx bw (call :: calls) ↔
      call.Retried ∧ bw < sizeofXnetMsgTx ∧
        (sizeofXnetMsgTx ≤ bw + call.count ∧ calls = [] ∨
          bw + call.count < sizeofXnetMsgTx ∧ WritesTx (bw + call.count) calls) := by
  unfold WritesTx
  rw [List.forall_mem_cons, List.map_cons, List.sum_cons, ← Nat.add_assoc]
  constructor
  · rintro ⟨⟨retried, others⟩, written, before⟩
    have first := before 0 (Nat.succ_pos _)
    refine ⟨retried, first, ?_⟩
    rcases Nat.lt_or_ge (bw + call.count) sizeofXnetMsgTx with short | complete
    · refine Or.inr ⟨short, others, written, fun i bound => ?_⟩
      have next := before (i + 1) (Nat.succ_lt_succ bound)
      rw [List.take_succ_cons, List.map_cons, List.sum_cons, ← Nat.add_assoc] at next
      exact next
    · refine Or.inl ⟨complete, List.eq_nil_iff_length_eq_zero.mpr ?_⟩
      by_contra some
      have next := before 1 (Nat.succ_lt_succ (Nat.pos_of_ne_zero some))
      rw [List.take_succ_cons, List.take_zero, List.map_cons, List.sum_cons] at next
      exact absurd complete (Nat.not_le.mpr next)
  · rintro ⟨retried, room, ⟨complete, rfl⟩ | ⟨short, others, written, before⟩⟩
    · refine ⟨⟨retried, fun _ mem => absurd mem List.not_mem_nil⟩, complete, fun i bound => ?_⟩
      obtain rfl : i = 0 := Nat.lt_one_iff.mp bound
      exact room
    · refine ⟨⟨retried, others⟩, written, fun i bound => ?_⟩
      cases i with
      | zero => exact room
      | succ i =>
        rw [List.take_succ_cons, List.map_cons, List.sum_cons, ← Nat.add_assoc]
        exact before i (Nat.lt_of_succ_lt_succ bound)

/-- The loop completes the header with exactly the calls that write it, and the whole header is
written then. -/
theorem writeTxLoop_ok (size : tx.length = sizeofXnetMsgTx) (room : bw < sizeofXnetMsgTx) :
    writeTxLoop tx bw stream results = some (.ok rest, final) ↔
      ∃ calls, results = calls ++ rest ∧ WritesTx bw calls ∧ final = stream ++ tx.drop bw := by
  induction results generalizing bw stream with
  | nil =>
    rw [writeTxLoop]
    constructor
    · intro ended
      exact absurd ended (Option.some_ne_none _).symm
    · rintro ⟨calls, split, writes, _⟩
      rw [(List.append_eq_nil_iff.mp split.symm).1, writesTx_nil] at writes
      exact absurd room (Nat.not_lt.mpr writes)
  | cons call results inductionHypothesis =>
    -- The calls that write the header are not none, since there is something to write.
    have first : (∃ calls, call :: results = calls ++ rest ∧ WritesTx bw calls ∧
        final = stream ++ tx.drop bw) ↔
        ∃ calls, results = calls ++ rest ∧ WritesTx bw (call :: calls) ∧
          final = stream ++ tx.drop bw := by
      constructor
      · rintro ⟨calls, split, writes, bytes⟩
        cases calls with
        | nil => exact absurd room (Nat.not_lt.mpr (writesTx_nil.mp writes))
        | cons other calls =>
          rw [List.cons_append, List.cons.injEq] at split
          rw [← split.1] at writes
          exact ⟨calls, split.2, writes, bytes⟩
      · rintro ⟨calls, split, writes, bytes⟩
        exact ⟨call :: calls, by rw [split, List.cons_append], writes, bytes⟩
    rw [first]
    cases call with
    | failed errno =>
      rw [writeTxLoop]
      split_ifs with retried
      · rw [inductionHypothesis room]
        refine exists_congr fun calls => and_congr_right fun _ => and_congr_left fun _ => ?_
        rw [writesTx_cons]
        constructor
        · intro writes
          exact ⟨retried, room, Or.inr ⟨room, writes⟩⟩
        · rintro ⟨_, _, ⟨complete, _⟩ | ⟨_, writes⟩⟩
          · exact absurd room (Nat.not_lt.mpr complete)
          · exact writes
      · constructor
        · intro ended
          cases ended
        · rintro ⟨calls, _, writes, _⟩
          exact absurd (writesTx_cons.mp writes).1 retried
    | wrote count errno =>
      rw [writeTxLoop]
      have taken : stream ++ (tx.drop bw).take (min count (sizeofXnetMsgTx - bw)) ++
          tx.drop (bw + min count (sizeofXnetMsgTx - bw)) = stream ++ tx.drop bw := by
        rw [List.append_assoc, ← List.drop_drop, List.take_append_drop]
      split_ifs with short
      · have few : min count (sizeofXnetMsgTx - bw) = count := by omega
        rw [inductionHypothesis short, taken, few]
        rw [few] at short
        refine exists_congr fun calls => and_congr_right fun _ => and_congr_left fun _ => ?_
        rw [writesTx_cons]
        constructor
        · intro writes
          exact ⟨trivial, room, Or.inr ⟨short, writes⟩⟩
        · rintro ⟨_, _, ⟨complete, _⟩ | ⟨_, writes⟩⟩
          · exact absurd short (Nat.not_lt.mpr complete)
          · exact writes
      · have complete : sizeofXnetMsgTx ≤ bw + count := by omega
        have all : (tx.drop bw).take (min count (sizeofXnetMsgTx - bw)) = tx.drop bw := by
          refine List.take_of_length_le ?_
          rw [List.length_drop, size]
          omega
        rw [all]
        constructor
        · intro ended
          cases ended
          exact ⟨[], rfl, writesTx_cons.mpr ⟨trivial, room, Or.inl ⟨complete, rfl⟩⟩, rfl⟩
        · rintro ⟨calls, rfl, writes, rfl⟩
          rcases (writesTx_cons.mp writes).2.2 with ⟨_, rfl⟩ | ⟨more, _⟩
          · rfl
          · exact absurd complete (Nat.not_le.mpr more)

/-- An error of the loop is negative. -/
theorem writeTxLoop_error {err : Int}
    (ended : writeTxLoop tx bw stream results = some (.error err, final)) : err < 0 := by
  induction results generalizing bw stream with
  | nil => cases ended
  | cons call results inductionHypothesis =>
    cases call with
    | failed errno =>
      rw [writeTxLoop] at ended
      split_ifs at ended
      · exact inductionHypothesis ended
      · cases ended
        exact neg_lt_zero.mpr errno.positive
    | wrote count errno =>
      rw [writeTxLoop] at ended
      split_ifs at ended
      · exact inductionHypothesis ended
      · cases ended

end Loop

/-! ### The data region -/

section Data

variable {msg : XnetMsg} {stream final : List U8} {count errno : Nat} {err ret : Int}
  {results rest : List WriteResult} {waits : List SemResult}

/-- An `int` holds no more than the count that it is made from. -/
theorem int_le (taken : Nat) : (BitVec.ofNat 32 taken).toInt ≤ taken := by
  have part : (BitVec.ofNat 32 taken).toNat ≤ taken := by
    rw [BitVec.toNat_ofNat]
    exact Nat.mod_le _ _
  rw [BitVec.toInt_eq_toNat_cond]
  split_ifs <;> omega

/-- The `writev` is found complete only if it took all of the data. -/
theorem writevData_ok (ended : writevData msg stream results = some (.ok (), final)) :
    final = stream ++ msg.siov.flatten := by
  cases results with
  | nil => cases ended
  | cons call results =>
    cases call with
    | failed errno => cases ended
    | wrote count errno =>
      unfold writevData at ended
      simp only at ended
      split_ifs at ended with short
      · cases ended
      rw [not_or, not_lt, gt_iff_lt, not_lt] at short
      have taken := short.2.trans (int_le _)
      rw [← msg.len] at taken
      have all : msg.siov.flatten.length ≤ min count msg.siov.flatten.length := by omega
      cases ended
      rw [List.take_of_length_le all]

/-- An error of the `writev` is negative, or it is `errno` after a count that is too small. -/
theorem writevData_error (ended : writevData msg stream results = some (.error err, final)) :
    err ≤ 0 ∧ (err = 0 → final = stream ++ msg.siov.flatten ∨
      ∃ count rest, results = .wrote count 0 :: rest ∧ count < msg.tx.len.toNat) := by
  cases results with
  | nil => cases ended
  | cons call results =>
    cases call with
    | failed errno =>
      cases ended
      have negative := errno.positive
      exact ⟨by omega, fun zero => by omega⟩
    | wrote count errno =>
      unfold writevData at ended
      simp only at ended
      split_ifs at ended with short
      · cases ended
        refine ⟨by omega, fun zero => ?_⟩
        obtain rfl : errno = 0 := by omega
        rcases Nat.lt_or_ge count msg.tx.len.toNat with less | complete
        · exact Or.inr ⟨count, results, rfl, less⟩
        · rw [← msg.len] at complete
          rw [Nat.min_eq_right complete, List.take_length]
          exact Or.inl rfl
      · cases ended

/-- A `writev` that takes fewer bytes than there are ends the call with `errno`. -/
theorem writevData_short (short : count < msg.tx.len.toNat) :
    writevData msg stream (.wrote count errno :: rest) =
      some (.error (-(errno : Int)), stream ++ msg.siov.flatten.take count) := by
  have few : min count msg.siov.flatten.length = count := by
    rw [msg.len]
    omega
  unfold writevData
  simp only [few]
  rw [if_pos]
  have taken := int_le count
  omega

theorem semWaitLoop_le (ended : semWaitLoop waits = some ret) : ret ≤ 0 := by
  induction waits with
  | nil => cases ended
  | cons result waits inductionHypothesis =>
    cases result with
    | posted =>
      cases ended
      exact le_rfl
    | failed errno =>
      rw [semWaitLoop] at ended
      split_ifs at ended
      · exact inductionHypothesis ended
      · cases ended
        decide

theorem xnetSendWait_le (value : err ≤ 0)
    (ended : xnetSendWait msg.tx.flag err waits = some ret) : ret ≤ 0 := by
  unfold xnetSendWait at ended
  split_ifs at ended
  · exact semWaitLoop_le ended
  · cases ended
    exact value

end Data

/-! ### What the value says -/

section Value

variable {msg : XnetMsg} {stream : List U8} {err ret : Int} {errno : Nat}
  {results : List WriteResult} {waits : List SemResult}

variable (err waits) in
/-- After a short `writev` the value is `errno`, and some data was not written. -/
theorem xnetSendSelected_short (short : ShortData msg results errno) :
    ∃ stream, xnetSendSelected msg err results waits = some (-(errno : Int), stream) ∧
      stream ≠ msg.tx.bytes ++ msg.siov.flatten := by
  obtain ⟨calls, count, rest, rfl, writes, less⟩ := short
  have header : writeTxLoop msg.tx.bytes 0 [] (calls ++ .wrote count errno :: rest) =
      some (.ok (.wrote count errno :: rest), msg.tx.bytes) :=
    (writeTxLoop_ok msg.tx.bytes_length (by decide)).mpr ⟨calls, rfl, writes, rfl⟩
  have data : msg.siov ≠ [] := by
    intro none
    have length := msg.len
    rw [none] at length
    exact absurd less (Nat.not_lt.mpr (length.symm.le.trans (Nat.zero_le _)))
  refine ⟨msg.tx.bytes ++ msg.siov.flatten.take count, ?_, ?_⟩
  · unfold xnetSendSelected
    simp only [header, if_neg data, writevData_short less]
  · intro same
    have length := congrArg List.length (List.append_cancel_left same)
    rw [List.length_take, msg.len] at length
    omega

/-- Otherwise a value of zero says that everything was written. -/
theorem xnetSendSelected_sent (value : err ≤ 0)
    (ended : xnetSendSelected msg err results waits = some (ret, stream)) :
    ret ≤ 0 ∧ (ret = 0 → ¬ShortData msg results 0 → stream = msg.tx.bytes ++ msg.siov.flatten) := by
  unfold xnetSendSelected at ended
  rcases header : writeTxLoop msg.tx.bytes 0 [] results with _ | ⟨failed | left, written⟩
  · rw [header] at ended
    cases ended
  · rw [header] at ended
    cases ended
    have negative := writeTxLoop_error header
    exact ⟨negative.le, fun zero => absurd zero negative.ne⟩
  · rw [header] at ended
    obtain ⟨calls, rfl, writes, rfl⟩ :=
      (writeTxLoop_ok msg.tx.bytes_length (by decide)).mp header
    simp only at ended
    split_ifs at ended with empty
    · obtain ⟨value', waited, pair⟩ := Option.map_eq_some_iff.mp ended
      cases pair
      refine ⟨xnetSendWait_le value waited, fun _ _ => ?_⟩
      rw [empty]
      rfl
    · rcases data : writevData msg msg.tx.bytes left with _ | ⟨failed | done, final⟩
      all_goals
        rw [List.nil_append, List.drop_zero, data] at ended
      · cases ended
      · cases ended
        obtain ⟨negative, zero⟩ := writevData_error data
        refine ⟨negative, fun none notShort => ?_⟩
        rcases zero none with all | ⟨count, rest, rfl, less⟩
        · exact all
        · exact absurd ⟨calls, count, rest, rfl, writes, less⟩ notShort
      · obtain ⟨value', waited, pair⟩ := Option.map_eq_some_iff.mp ended
        cases pair
        exact ⟨xnetSendWait_le value waited, fun _ _ => writevData_ok data⟩

end Value

/-- A connection has been selected. -/
def Selection.Selected : Selection → Prop
  | .connected => True
  | .connectedAfter _ => True
  | .failed _ => False
  | .notFound => False

/-- With a connection, the message is filled in and sent; `err` is not positive then. -/
theorem xnetSend_selected {selection : Selection} (selected : selection.Selected)
    (siteId reqno self : U64) (msg : XnetMsg) (results : List WriteResult)
    (waits : List SemResult) :
    ∃ err ≤ 0, xnetSend selection siteId reqno self msg results waits =
      xnetSendSelected (msg.fill siteId reqno self) err results waits := by
  cases selection with
  | connected => exact ⟨0, le_rfl, rfl⟩
  | connectedAfter errno => exact ⟨-errno.code, (neg_lt_zero.mpr errno.positive).le, rfl⟩
  | failed errno => exact selected.elim
  | notFound => exact selected.elim

/-- Without a connection the value is an error. -/
theorem xnetSend_unselected {selection : Selection} (unselected : ¬selection.Selected)
    (siteId reqno self : U64) (msg : XnetMsg) (results : List WriteResult)
    (waits : List SemResult) :
    ∃ err < 0, xnetSend selection siteId reqno self msg results waits = some (err, []) := by
  cases selection with
  | connected => exact absurd trivial unselected
  | connectedAfter errno => exact absurd trivial unselected
  | failed errno => exact ⟨-errno.code, neg_lt_zero.mpr errno.positive, rfl⟩
  | notFound => exact ⟨-EINVAL, by decide, rfl⟩

/-- The value of `xnet_send` is right unless, for a message that needs no reply, `writev` takes a
part of the data while `errno` is zero. -/
theorem xnet_send_sent (selection : Selection) (siteId reqno self : U64) (msg : XnetMsg)
    (results : List WriteResult) (waits : List SemResult) :
    SendSound selection siteId reqno self msg results waits ↔
      ¬(selection.Selected ∧ ¬Flag.has msg.tx.flag XNET_NEED_REPLY ∧ ShortData msg results 0) := by
  constructor
  · rintro sound ⟨selected, noReply, short⟩
    obtain ⟨err, _, send⟩ := xnetSend_selected selected siteId reqno self msg results waits
    have filled : ShortData (msg.fill siteId reqno self) results 0 := short
    obtain ⟨stream, ended, different⟩ :=
      xnetSendSelected_short err waits filled
    rw [← send] at ended
    exact different ((sound _ _ ended).1 noReply rfl)
  · intro notShort err stream ended
    by_cases selected : selection.Selected
    · obtain ⟨start, value, send⟩ := xnetSend_selected selected siteId reqno self msg results waits
      rw [send] at ended
      obtain ⟨negative, sent⟩ := xnetSendSelected_sent value ended
      refine ⟨fun noReply zero => ?_, fun nonzero => lt_of_le_of_ne negative nonzero⟩
      exact sent zero fun short => notShort ⟨selected, noReply, short⟩
    · obtain ⟨code, negative, send⟩ :=
        xnetSend_unselected selected siteId reqno self msg results waits
      rw [send] at ended
      cases ended
      exact ⟨fun _ zero => absurd zero negative.ne, fun _ => negative⟩

/-- When every call takes what it is given, the message stands on the connection as its frame. -/
theorem xnetSend_whole (siteId reqno self : U64) (msg : XnetMsg) (waits : List SemResult)
    (noReply : ¬Flag.has msg.tx.flag XNET_NEED_REPLY) (small : msg.tx.len.toNat < 2 ^ 31) :
    xnetSend .connected siteId reqno self msg
        [.wrote sizeofXnetMsgTx 0, .wrote msg.tx.len.toNat 0] waits =
      some (0, (msg.fill siteId reqno self).frame.bytes) := by
  have header : writeTxLoop (msg.fill siteId reqno self).tx.bytes 0 []
      [.wrote sizeofXnetMsgTx 0, .wrote msg.tx.len.toNat 0] =
      some (.ok [.wrote msg.tx.len.toNat 0], (msg.fill siteId reqno self).tx.bytes) := by
    refine (writeTxLoop_ok (XnetMsgTx.bytes_length _) (by decide)).mpr ⟨[_], rfl, ?_, rfl⟩
    exact writesTx_cons.mpr ⟨trivial, by decide, Or.inl ⟨le_of_eq rfl, rfl⟩⟩
  have wait : xnetSendWait (msg.fill siteId reqno self).tx.flag 0 waits = some 0 := if_neg noReply
  have data : ∀ stream, writevData (msg.fill siteId reqno self) stream
      [.wrote msg.tx.len.toNat 0] = some (.ok (), stream ++ msg.siov.flatten) := by
    intro stream
    have all : min msg.tx.len.toNat msg.siov.flatten.length = msg.siov.flatten.length := by
      rw [msg.len, Nat.min_self]
    have int : (BitVec.ofNat 32 msg.siov.flatten.length).toInt = msg.tx.len.toNat := by
      rw [msg.len, BitVec.toInt_eq_toNat_cond, BitVec.toNat_ofNat, Nat.mod_eq_of_lt (by omega),
        if_pos (by omega)]
    unfold writevData
    simp only [XnetMsg.fill, all, int, List.take_length]
    rw [if_neg]
    omega
  unfold xnetSend xnetSendSelected
  simp only [header, data, wait, Option.map_some]
  split_ifs with empty
  · have none : msg.siov = [] := empty
    show some ((0 : Int), (msg.fill siteId reqno self).tx.bytes) =
      some (0, (msg.fill siteId reqno self).tx.bytes ++ msg.siov.flatten)
    rw [none, List.flatten_nil, List.append_nil]
  · rfl

/-- A reply of three bytes, of which the connection takes two. -/
theorem xnet_send_truncates :
    ∃ stream, xnetSend .connected 1 2 3 (xnetMsgAddSdata xnetAllocMsg [7, 8, 9] (by decide))
        [.wrote sizeofXnetMsgTx 0, .wrote 2 0] [] = some (0, stream) ∧
      stream.length = sizeofXnetMsgTx + 2 ∧
      ¬SendSound .connected 1 2 3 (xnetMsgAddSdata xnetAllocMsg [7, 8, 9] (by decide))
        [.wrote sizeofXnetMsgTx 0, .wrote 2 0] [] := by
  refine ⟨(xnetSend .connected 1 2 3 (xnetMsgAddSdata xnetAllocMsg [7, 8, 9] (by decide))
    [.wrote sizeofXnetMsgTx 0, .wrote 2 0] []).get!.2, rfl, rfl, fun sound => ?_⟩
  have whole := (sound _ _ rfl).1 (by decide) rfl
  exact absurd (congrArg List.length whole) (by decide)

end Hvfs
