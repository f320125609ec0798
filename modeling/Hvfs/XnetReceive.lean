/-
This file proves that the messages of a connection are received as they were
sent, however the calls of `read` cut the stream.

`__xnet_handle_tx` has two loops of the same form, one for the header and one for
the data. What such a loop reads depends only on the bytes of the stream, and so
a call receives what `receiveOne` of the framing library receives.

The allocation of a message and of its data succeeds here; the exit for a message that
cannot be allocated is in the model of the poll thread. A message that is received is
not followed to its handler. `XNET_EAGER_WRITEV` is not defined in this build.
-/

import Hvfs.XnetSend
import Mathlib.Data.PNat.Basic

namespace Hvfs

/-! ### Sockets -/

/-- What a `read` meets: some bytes, a signal, or no bytes yet. -/
inductive Offer
  | upTo (count : PNat)
  | eintr
  | eagain
  deriving DecidableEq, Repr

/-- The receiving end of a connection: the bytes that were not read, what the next calls meet, and
whether the other side has closed it. After the offers every call reads all it asks for. -/
structure Socket where
  stream : List U8
  offers : List Offer
  closed : Bool
  deriving DecidableEq, Repr

/-- The result of a `read`; no bytes are the end of the stream. -/
inductive ReadResult
  | bytes (data : List U8)
  | failed (errno : Int)
  deriving DecidableEq, Repr

/-- A `read` that at most `count` bytes are there for. -/
def Socket.take (s : Socket) (count : Nat) : ReadResult × Socket :=
  if s.stream = [] then (if s.closed then .bytes [] else .failed EAGAIN, s)
  else (.bytes (s.stream.take count), { s with stream := s.stream.drop count })

def Socket.read (s : Socket) (want : Nat) : ReadResult × Socket :=
  match s.offers with
  | [] => s.take want
  | .upTo count :: offers => { s with offers }.take (min count want)
  | .eintr :: offers => (.failed EINTR, { s with offers })
  | .eagain :: offers => (.failed EAGAIN, { s with offers })

/-! ### `__xnet_handle_tx` -/

/-- The loops that read `size` bytes; `br` is the length of `buf`. With `pseudo`, a first call that
finds no bytes ends the loop with `next = 0`, as the loop of the header does. `none`: the loop is
still running, or `br` leaves its type. -/
def readLoop (size : Nat) (pseudo : Bool) :
    Nat → List U8 → Socket → Option (Except Int (List U8) × Socket)
  | 0, _, _ => none
  | fuel + 1, buf, s =>
    match s.read (size - buf.length) with
    | (.failed errno, s) =>
      if pseudo ∧ errno = EAGAIN ∧ buf = [] then some (.error 0, s)
      else if errno = EAGAIN ∨ errno = EINTR then readLoop size pseudo fuel buf s
      else some (.error (-1), s)
    | (.bytes [], s) => some (.error (-1), s)
    | (.bytes (byte :: data), s) =>
      let buf := buf ++ byte :: data
      if buf.length ≥ 2 ^ 31 then none
      else if buf.length < size then readLoop size pseudo fuel buf s
      else some (.ok buf, s)

/-- As many calls as a loop can make before it waits for bytes that have not come. -/
def Socket.calls (s : Socket) : Nat := s.offers.length + s.stream.length + 1

/-- The reading of the header. -/
def readTx (s : Socket) : Option (Except Int (List U8) × Socket) :=
  readLoop sizeofXnetMsgTx true s.calls [] s

/-- The reading of the data. -/
def readData (len : Nat) (s : Socket) : Option (Except Int (List U8) × Socket) :=
  readLoop len false s.calls [] s

/-- `__xnet_handle_tx`: its value, the message that it has received, and the socket. -/
def xnetHandleTx (s : Socket) : Option (Int × Option (XnetMsgTx × List U8) × Socket) :=
  match readTx s with
  | none => none
  | some (.error next, s) => some (next, none, s)
  | some (.ok memory, s) =>
    let tx := XnetMsgTx.read memory
    if tx.len ≠ 0 then
      match readData tx.len.toNat s with
      | none => none
      | some (.error next, s) => some (next, none, s)
      | some (.ok buf, s) => some (1, some (tx, buf), s)
    else some (1, some (tx, []), s)

/-- The messages that so many successive calls receive; a negative value is the last one. -/
def handleCalls : Nat → Socket → Option (List (XnetMsgTx × List U8))
  | 0, _ => some []
  | calls + 1, s =>
    match xnetHandleTx s with
    | none => none
    | some (next, got, s) =>
      if next < 0 then some got.toList else (handleCalls calls s).map (got.toList ++ ·)

/-! ### One `read` -/

section Read

variable {s : Socket} {want : Nat}

theorem Socket.take_some (some : s.stream ≠ []) (count : Nat) :
    s.take count = (.bytes (s.stream.take (min count s.stream.length)),
      { s with stream := s.stream.drop (min count s.stream.length) }) := by
  rcases Nat.le_total count s.stream.length with few | many
  · rw [Nat.min_eq_left few]
    exact if_neg some
  · rw [Nat.min_eq_right many, List.take_length, List.drop_length]
    unfold Socket.take
    rw [if_neg some, List.take_of_length_le many, List.drop_eq_nil_of_le many]

variable (want) in
/-- Where bytes are left, a `read` gets some of them unless it is interrupted, and then an offer is
used up. -/
theorem Socket.read_cases (positive : 0 < want) (some : s.stream ≠ []) :
    (∃ errno offers, (errno = EAGAIN ∨ errno = EINTR) ∧ offers.length < s.offers.length ∧
      s.read want = (.failed errno, { s with offers })) ∨
    ∃ count offers, 0 < count ∧ count ≤ want ∧ count ≤ s.stream.length ∧
      offers.length ≤ s.offers.length ∧
      s.read want = (.bytes (s.stream.take count),
        { s with stream := s.stream.drop count, offers }) := by
  have available : 0 < s.stream.length := List.length_pos_iff.mpr some
  obtain ⟨stream, offers, closed⟩ := s
  rcases offers with _ | ⟨_ | _ | _, offers⟩
  · exact Or.inr ⟨min want stream.length, [], lt_min positive available, min_le_left _ _,
      min_le_right _ _, le_rfl, Socket.take_some some want⟩
  · next count =>
    refine Or.inr ⟨min (min count want) stream.length, offers,
      lt_min (lt_min count.pos positive) available, (min_le_left _ _).trans (min_le_right _ _),
      min_le_right _ _, Nat.le_succ _, ?_⟩
    exact Socket.take_some (s := ⟨stream, offers, closed⟩) some _
  · exact Or.inl ⟨EINTR, offers, Or.inr rfl, Nat.lt_succ_self _, rfl⟩
  · exact Or.inl ⟨EAGAIN, offers, Or.inl rfl, Nat.lt_succ_self _, rfl⟩

variable (want) in
/-- Where no bytes have come on an open connection, a `read` fails. -/
theorem Socket.read_wait (stillOpen : s.closed = false) (none : s.stream = []) :
    ∃ errno offers, (errno = EAGAIN ∨ errno = EINTR ∧ offers.length < s.offers.length) ∧
      s.read want = (.failed errno, { s with offers }) := by
  have taken : ∀ (offers : List Offer) (count : Nat), Socket.take { s with offers } count =
      (.failed EAGAIN, { s with offers }) := by
    intro offers count
    unfold Socket.take
    rw [if_pos none, stillOpen]
    rfl
  obtain ⟨stream, offers, closed⟩ := s
  rcases offers with _ | ⟨_ | _ | _, offers⟩
  · exact ⟨EAGAIN, [], Or.inl rfl, taken [] _⟩
  · exact ⟨EAGAIN, offers, Or.inl rfl, taken offers _⟩
  · exact ⟨EINTR, offers, Or.inr ⟨rfl, Nat.lt_succ_self _⟩, rfl⟩
  · exact ⟨EAGAIN, offers, Or.inl rfl, rfl⟩

variable (want) in
/-- At the end of a closed stream a `read` finds the end unless it is interrupted. -/
theorem Socket.read_end (closed : s.closed = true) (none : s.stream = []) :
    (∃ errno offers, (errno = EAGAIN ∨ errno = EINTR) ∧ offers.length < s.offers.length ∧
      s.read want = (.failed errno, { s with offers })) ∨
    ∃ offers, s.read want = (.bytes [], { s with offers }) := by
  have taken : ∀ (offers : List Offer) (count : Nat), Socket.take { s with offers } count =
      (.bytes [], { s with offers }) := by
    intro offers count
    unfold Socket.take
    rw [if_pos none, if_pos closed]
  unfold Socket.read
  rcases known : s.offers with _ | ⟨_ | _ | _, offers⟩
  · exact Or.inr ⟨_, taken s.offers _⟩
  · exact Or.inr ⟨_, taken offers _⟩
  · exact Or.inl ⟨EINTR, offers, Or.inr rfl, Nat.lt_succ_self _, rfl⟩
  · exact Or.inl ⟨EAGAIN, offers, Or.inl rfl, Nat.lt_succ_self _, rfl⟩

end Read

/-! ### One loop -/

section Loop

variable {size fuel : Nat} {pseudo : Bool} {buf : List U8} {s : Socket}

/-- The loop has ended before its first byte, with an offer used up. -/
def EndsIdle (s : Socket) (pseudo : Bool) (buf : List U8)
    (result : Option (Except Int (List U8) × Socket)) : Prop :=
  pseudo = true ∧ buf = [] ∧
    ∃ offers, offers.length < s.offers.length ∧ result = some (.error 0, { s with offers })

theorem EndsIdle.fewer {offers : List Offer} {result : Option (Except Int (List U8) × Socket)}
    (idle : EndsIdle { s with offers } pseudo buf result)
    (fewer : offers.length ≤ s.offers.length) : EndsIdle s pseudo buf result := by
  obtain ⟨header, start, last, less, ended⟩ := idle
  exact ⟨header, start, last, less.trans_le fewer, ended⟩

variable (fuel pseudo) in
/-- A call that is interrupted ends the loop or is made again. -/
theorem readLoop_failed {errno : Int} {offers : List Offer}
    (again : errno = EAGAIN ∨ errno = EINTR) (fewer : offers.length < s.offers.length)
    (read : s.read (size - buf.length) = (.failed errno, { s with offers })) :
    EndsIdle s pseudo buf (readLoop size pseudo (fuel + 1) buf s) ∨
      readLoop size pseudo (fuel + 1) buf s = readLoop size pseudo fuel buf { s with offers } := by
  rw [readLoop, read]
  simp only [if_pos again]
  split_ifs with idle
  · exact Or.inl ⟨idle.1, idle.2.2, offers, fewer, rfl⟩
  · exact Or.inr rfl

/-- A call that gets bytes ends the loop or leaves the rest to the next one, unless there are too
many of them for `br`. -/
theorem readLoop_bytes {data : List U8} {next : Socket} (some : data ≠ [])
    (read : s.read (size - buf.length) = (.bytes data, next)) :
    readLoop size pseudo (fuel + 1) buf s =
      if (buf ++ data).length ≥ 2 ^ 31 then none
      else if (buf ++ data).length < size then readLoop size pseudo fuel (buf ++ data) next
      else .some (.ok (buf ++ data), next) := by
  rw [readLoop, read]
  cases data with
  | nil => exact absurd rfl some
  | cons byte data => rfl

variable (fuel pseudo) in
/-- A loop that has bytes to read makes progress: it ends before its first byte, or it goes on with
an offer used up, or with some bytes read. -/
theorem readLoop_progress (more : buf.length < size) (left : s.stream ≠ []) :
    EndsIdle s pseudo buf (readLoop size pseudo (fuel + 1) buf s) ∨
    (∃ offers, offers.length < s.offers.length ∧
      readLoop size pseudo (fuel + 1) buf s = readLoop size pseudo fuel buf { s with offers }) ∨
    ∃ count offers, 0 < count ∧ buf.length + count ≤ size ∧ count ≤ s.stream.length ∧
      offers.length ≤ s.offers.length ∧ readLoop size pseudo (fuel + 1) buf s =
        if buf.length + count ≥ 2 ^ 31 then none
        else if buf.length + count < size then
          readLoop size pseudo fuel (buf ++ s.stream.take count)
            { s with stream := s.stream.drop count, offers }
        else some (.ok (buf ++ s.stream.take count),
          { s with stream := s.stream.drop count, offers }) := by
  rcases Socket.read_cases (size - buf.length) (by omega) left with
    ⟨errno, offers, again, fewer, read⟩ | ⟨count, offers, positive, bound, there, kept, read⟩
  · rcases readLoop_failed fuel pseudo again fewer read with idle | same
    · exact Or.inl idle
    · exact Or.inr (Or.inl ⟨offers, fewer, same⟩)
  · have taken : (s.stream.take count).length = count := List.length_take_of_le there
    have longer : (buf ++ s.stream.take count).length = buf.length + count := by
      rw [List.length_append, taken]
    have some : s.stream.take count ≠ [] := by
      intro none
      rw [none, List.length_nil] at taken
      omega
    refine Or.inr (Or.inr ⟨count, offers, positive, by omega, there, kept, ?_⟩)
    rw [readLoop_bytes some read, longer]

variable (size pseudo buf) in
/-- A loop for which all bytes are there reads them, or ends before its first byte. -/
theorem readLoop_whole (enough : s.offers.length + s.stream.length < fuel)
    (more : buf.length < size) (small : size < 2 ^ 31)
    (whole : size ≤ buf.length + s.stream.length) :
    EndsIdle s pseudo buf (readLoop size pseudo fuel buf s) ∨
    ∃ offers, offers.length ≤ s.offers.length ∧ readLoop size pseudo fuel buf s =
      some (.ok (buf ++ s.stream.take (size - buf.length)),
        { s with stream := s.stream.drop (size - buf.length), offers }) := by
  induction fuel generalizing buf s with
  | zero => exact absurd enough (Nat.not_lt_zero _)
  | succ fuel inductionHypothesis =>
    have left : s.stream ≠ [] := by
      intro none
      rw [none, List.length_nil] at whole
      omega
    rcases readLoop_progress fuel pseudo more left with
      idle | ⟨offers, fewer, same⟩ | ⟨count, offers, positive, bound, there, kept, next⟩
    · exact Or.inl idle
    · rw [same]
      rcases inductionHypothesis _ (s := { s with offers }) (by simp only; omega) more whole with
        idle | ⟨last, fewer', ended⟩
      · exact Or.inl (idle.fewer fewer.le)
      · exact Or.inr ⟨last, fewer'.trans fewer.le, ended⟩
    · rw [next, if_neg (by omega)]
      split_ifs with short
      · have longer : (buf ++ s.stream.take count).length = buf.length + count := by
          rw [List.length_append, List.length_take_of_le there]
        rcases inductionHypothesis (buf ++ s.stream.take count)
          (s := { s with stream := s.stream.drop count, offers })
          (by simp only [List.length_drop]; omega) (by rw [longer]; exact short)
          (by rw [longer]; simp only [List.length_drop]; omega) with
          ⟨_, none, _⟩ | ⟨last, fewer, ended⟩
        · rw [none, List.length_nil] at longer
          omega
        · refine Or.inr ⟨last, fewer.trans kept, ?_⟩
          have rest : size - buf.length = count + (size - (buf.length + count)) := by omega
          rw [ended, longer, rest, List.append_assoc, ← List.take_add, List.drop_drop]
      · obtain rfl : count = size - buf.length := by omega
        exact Or.inr ⟨offers, kept, rfl⟩

variable (size pseudo buf s) in
/-- A loop for which not all bytes come before the end of the stream gives up. -/
theorem readLoop_end (closed : s.closed = true)
    (enough : s.offers.length + s.stream.length < fuel) (small : size < 2 ^ 31)
    (part : buf.length + s.stream.length < size) :
    EndsIdle s pseudo buf (readLoop size pseudo fuel buf s) ∨
    ∃ next, readLoop size pseudo fuel buf s = some (.error (-1), next) := by
  induction fuel generalizing buf s with
  | zero => exact absurd enough (Nat.not_lt_zero _)
  | succ fuel inductionHypothesis =>
    have again : ∀ offers : List Offer, offers.length < s.offers.length →
        readLoop size pseudo (fuel + 1) buf s = readLoop size pseudo fuel buf { s with offers } →
        EndsIdle s pseudo buf (readLoop size pseudo (fuel + 1) buf s) ∨
          ∃ next, readLoop size pseudo (fuel + 1) buf s = some (.error (-1), next) := by
      intro offers fewer same
      rw [same]
      rcases inductionHypothesis buf { s with offers } closed (by simp only; omega) part with
        idle | ended
      · exact Or.inl (idle.fewer fewer.le)
      · exact Or.inr ended
    by_cases left : s.stream = []
    · rcases Socket.read_end (size - buf.length) closed left with
        ⟨errno, offers, retried, fewer, read⟩ | ⟨offers, read⟩
      · rcases readLoop_failed fuel pseudo retried fewer read with idle | same
        · exact Or.inl idle
        · exact again offers fewer same
      · refine Or.inr ⟨{ s with offers }, ?_⟩
        rw [readLoop, read]
    · have more : buf.length < size := by omega
      rcases readLoop_progress fuel pseudo more left with
        idle | ⟨offers, fewer, same⟩ | ⟨count, offers, positive, bound, there, kept, next⟩
      · exact Or.inl idle
      · exact again offers fewer same
      · have longer : (buf ++ s.stream.take count).length = buf.length + count := by
          rw [List.length_append, List.length_take_of_le there]
        rw [next, if_neg (by omega), if_pos (by omega)]
        rcases inductionHypothesis (buf ++ s.stream.take count)
          { s with stream := s.stream.drop count, offers } closed
          (by simp only [List.length_drop]; omega)
          (by rw [longer]; simp only [List.length_drop]; omega) with
          ⟨_, none, _⟩ | ended
        · rw [none, List.length_nil] at longer
          omega
        · exact Or.inr ended

/-- What a loop has read when it ends. -/
structure LoopEnd (size : Nat) (pseudo : Bool) (buf : List U8) (s : Socket)
    (result : Except Int (List U8)) (next : Socket) : Prop where
  closed : next.closed = s.closed
  cases :
    (size ≤ buf.length + s.stream.length ∧ size < 2 ^ 31 ∧
      result = .ok (buf ++ s.stream.take (size - buf.length)) ∧
      next.stream = s.stream.drop (size - buf.length)) ∨
    (pseudo = true ∧ buf = [] ∧ result = .error 0 ∧ next.stream = s.stream) ∨
    (s.closed = true ∧ buf.length + s.stream.length < size ∧ result = .error (-1) ∧
      next.stream = [])

theorem readLoop_ended {result : Except Int (List U8)} {next : Socket}
    (more : buf.length < size)
    (ended : readLoop size pseudo fuel buf s = some (result, next)) :
    LoopEnd size pseudo buf s result next := by
  induction fuel generalizing buf s with
  | zero => cases ended
  | succ fuel inductionHypothesis =>
    -- An offer that is used up changes nothing that the result depends on.
    have again : ∀ offers : List Offer,
        readLoop size pseudo fuel buf { s with offers } = some (result, next) →
        LoopEnd size pseudo buf s result next := by
      intro offers ended
      obtain ⟨closed, cases⟩ := inductionHypothesis more ended
      exact ⟨closed, cases⟩
    have failed : ∀ errno offers, (errno = EAGAIN ∨ errno = EINTR) →
        s.read (size - buf.length) = (.failed errno, { s with offers }) →
        LoopEnd size pseudo buf s result next := by
      intro errno offers retried read
      rw [readLoop, read] at ended
      simp only [if_pos retried] at ended
      split_ifs at ended with idle
      · cases ended
        exact ⟨rfl, Or.inr (Or.inl ⟨idle.1, idle.2.2, rfl, rfl⟩)⟩
      · exact again offers ended
    by_cases left : s.stream = []
    · cases closed : s.closed with
      | false =>
        obtain ⟨errno, offers, retried, read⟩ := Socket.read_wait _ closed left
        exact failed errno offers (retried.imp_right And.left) read
      | true =>
        rcases Socket.read_end (size - buf.length) closed left with
          ⟨errno, offers, retried, _, read⟩ | ⟨offers, read⟩
        · exact failed errno offers retried read
        · rw [readLoop, read] at ended
          cases ended
          exact ⟨rfl, Or.inr (Or.inr ⟨closed, by rw [left]; exact more, rfl, left⟩)⟩
    · rcases readLoop_progress fuel pseudo more left with
        ⟨header, start, offers, _, idle⟩ | ⟨offers, _, same⟩ |
        ⟨count, offers, positive, bound, there, _, progress⟩
      · rw [idle] at ended
        cases ended
        exact ⟨rfl, Or.inr (Or.inl ⟨header, start, rfl, rfl⟩)⟩
      · rw [same] at ended
        exact again offers ended
      · rw [progress] at ended
        have longer : (buf ++ s.stream.take count).length = buf.length + count := by
          rw [List.length_append, List.length_take_of_le there]
        split_ifs at ended with large short
        · obtain ⟨closed, whole | ⟨_, none, _⟩ | ⟨gone, part, error, empty⟩⟩ :=
            inductionHypothesis (by rw [longer]; exact short) ended
          · simp only [longer, List.length_drop] at whole
            have rest : size - buf.length = count + (size - (buf.length + count)) := by omega
            refine ⟨closed, Or.inl ⟨by omega, whole.2.1, ?_, ?_⟩⟩
            · rw [whole.2.2.1, rest, List.append_assoc, ← List.take_add]
            · rw [whole.2.2.2, List.drop_drop, ← rest]
          · rw [none, List.length_nil] at longer
            omega
          · simp only [longer, List.length_drop] at part
            exact ⟨closed, Or.inr (Or.inr ⟨gone, by omega, error, empty⟩)⟩
        · obtain rfl : count = size - buf.length := by omega
          cases ended
          exact ⟨rfl, Or.inl ⟨by omega, by omega, rfl, rfl⟩⟩

variable (size fuel) in
/-- Before the next message an open connection gives the loop of the header nothing. -/
theorem readLoop_idle (stillOpen : s.closed = false) (none : s.stream = [])
    (enough : s.offers.length < fuel) :
    ∃ offers, readLoop size true fuel [] s = some (.error 0, { s with offers }) := by
  induction fuel generalizing s with
  | zero => exact absurd enough (Nat.not_lt_zero _)
  | succ fuel inductionHypothesis =>
    obtain ⟨errno, offers, rfl | ⟨rfl, fewer⟩, read⟩ :=
      Socket.read_wait (size - ([] : List U8).length) stillOpen none
    · refine ⟨offers, ?_⟩
      rw [readLoop, read]
      exact if_pos ⟨rfl, rfl, rfl⟩
    · obtain ⟨last, ended⟩ := inductionHypothesis (s := { s with offers }) stillOpen none (by
        simp only
        omega)
      refine ⟨last, ?_⟩
      rw [readLoop, read]
      exact ended

end Loop

/-! ### One call -/

section Call

variable {s : Socket} {tx : XnetMsgTx} {data rest : List U8}

theorem readTx_whole (header : sizeofXnetMsgTx ≤ s.stream.length) :
    (∃ offers, offers.length < s.offers.length ∧
      readTx s = some (.error 0, { s with offers })) ∨
    ∃ offers, offers.length ≤ s.offers.length ∧ readTx s =
      some (.ok (s.stream.take sizeofXnetMsgTx),
        { s with stream := s.stream.drop sizeofXnetMsgTx, offers }) := by
  rcases readLoop_whole sizeofXnetMsgTx true []
    (Nat.lt_succ_self _) (by decide) (by decide)
    (by rw [List.length_nil, Nat.zero_add]; exact header)
    with ⟨_, _, idle⟩ | whole
  · exact Or.inl idle
  · exact Or.inr whole

theorem readData_whole {len : Nat} (positive : 0 < len) (small : len < 2 ^ 31)
    (there : len ≤ s.stream.length) :
    ∃ offers, offers.length ≤ s.offers.length ∧ readData len s =
      some (.ok (s.stream.take len), { s with stream := s.stream.drop len, offers }) := by
  rcases readLoop_whole len false []
    (Nat.lt_succ_self _) positive small (by rw [List.length_nil, Nat.zero_add]; exact there)
    with ⟨impossible, _⟩ | whole
  · cases impossible
  · exact whole

/-- A message that has come is received by the first call that is not told to come again. -/
theorem xnetHandleTx_message
    (message : Framing.receiveOne xnetCodec s.stream = some ((tx, data), rest))
    (small : tx.len.toNat < 2 ^ 31) :
    (∃ offers, offers.length < s.offers.length ∧
      xnetHandleTx s = some (0, none, { s with offers })) ∨
    ∃ offers, offers.length ≤ s.offers.length ∧
      xnetHandleTx s = some (1, some (tx, data), { s with stream := rest, offers }) := by
  unfold Framing.receiveOne at message
  simp only at message
  split_ifs at message with short few
  have header : sizeofXnetMsgTx ≤ s.stream.length := Nat.not_lt.mp short
  have there := Nat.not_lt.mp few
  cases message
  unfold xnetHandleTx
  rcases readTx_whole header with ⟨offers, fewer, read⟩ | ⟨offers, kept, read⟩
  · rw [read]
    exact Or.inl ⟨offers, fewer, rfl⟩
  · rw [read]
    simp only
    split_ifs with some
    · have positive : 0 < (XnetMsgTx.read (s.stream.take sizeofXnetMsgTx)).len.toNat :=
        Nat.pos_of_ne_zero fun zero => some (BitVec.eq_of_toNat_eq zero)
      obtain ⟨last, kept', readRest⟩ := readData_whole
        (s := { s with stream := s.stream.drop sizeofXnetMsgTx, offers }) positive small there
      rw [readRest]
      exact Or.inr ⟨last, kept'.trans kept, rfl⟩
    · rw [not_not] at some
      have none : xnetCodec.payload (xnetCodec.decode (s.stream.take xnetCodec.size)) = 0 :=
        congrArg BitVec.toNat some
      rw [none, List.take_zero, List.drop_zero]
      exact Or.inr ⟨offers, kept, rfl⟩

/-- Of a message that has not come before the end of the stream nothing is received. -/
theorem xnetHandleTx_end (closed : s.closed = true)
    (none : Framing.receiveOne xnetCodec s.stream = .none)
    (small : sizeofXnetMsgTx ≤ s.stream.length →
      (XnetMsgTx.read (s.stream.take sizeofXnetMsgTx)).len.toNat < 2 ^ 31) :
    (∃ offers, offers.length < s.offers.length ∧
      xnetHandleTx s = some (0, .none, { s with offers })) ∨
    ∃ next, xnetHandleTx s = some (-1, .none, next) := by
  unfold Framing.receiveOne at none
  simp only at none
  unfold xnetHandleTx
  split_ifs at none with short few
  · rcases readLoop_end sizeofXnetMsgTx true [] s closed
      (Nat.lt_succ_self _) (by decide) (by rw [List.length_nil, Nat.zero_add]; exact short)
      with ⟨_, _, offers, fewer, read⟩ | ⟨next, read⟩
    · rw [readTx, Socket.calls, read]
      exact Or.inl ⟨offers, fewer, rfl⟩
    · rw [readTx, Socket.calls, read]
      exact Or.inr ⟨next, rfl⟩
  · have header : sizeofXnetMsgTx ≤ s.stream.length := Nat.not_lt.mp short
    rcases readTx_whole header with ⟨offers, fewer, read⟩ | ⟨offers, kept, read⟩
    · rw [read]
      exact Or.inl ⟨offers, fewer, rfl⟩
    · rw [read]
      simp only
      have some : (XnetMsgTx.read (s.stream.take sizeofXnetMsgTx)).len ≠ 0 := by
        intro zero
        exact absurd few (Nat.not_lt.mpr ((congrArg BitVec.toNat zero).le.trans (Nat.zero_le _)))
      rw [if_pos some]
      rcases readLoop_end (XnetMsgTx.read (s.stream.take sizeofXnetMsgTx)).len.toNat false []
        { s with stream := s.stream.drop sizeofXnetMsgTx, offers } closed
        (Nat.lt_succ_self _) (small header) (by rw [List.length_nil, Nat.zero_add]; exact few)
        with ⟨impossible, _⟩ | ⟨next, readRest⟩
      · cases impossible
      · rw [readData, Socket.calls, readRest]
        exact Or.inr ⟨next, rfl⟩

/-- With its header a message has come when its data has. -/
theorem receiveOne_header {stream : List U8} (long : sizeofXnetMsgTx ≤ stream.length) :
    Framing.receiveOne xnetCodec stream =
      if (stream.drop sizeofXnetMsgTx).length <
          (XnetMsgTx.read (stream.take sizeofXnetMsgTx)).len.toNat then none
      else some ((XnetMsgTx.read (stream.take sizeofXnetMsgTx),
        (stream.drop sizeofXnetMsgTx).take
          (XnetMsgTx.read (stream.take sizeofXnetMsgTx)).len.toNat),
        (stream.drop sizeofXnetMsgTx).drop
          (XnetMsgTx.read (stream.take sizeofXnetMsgTx)).len.toNat) :=
  if_neg (Nat.not_lt.mpr long)

/-- What a call that returns has found. -/
theorem xnetHandleTx_ended {next : Int} {got : Option (XnetMsgTx × List U8)} {socket : Socket}
    (handled : xnetHandleTx s = some (next, got, socket)) :
    socket.closed = s.closed ∧
      ((next = 1 ∧ ∃ message, got = some message ∧ message.1.len.toNat < 2 ^ 31 ∧
        Framing.receiveOne xnetCodec s.stream = some (message, socket.stream)) ∨
      (next = 0 ∧ got = none ∧ socket.stream = s.stream) ∨
      (next = -1 ∧ got = none ∧ Framing.receiveOne xnetCodec s.stream = none ∧
        socket.stream = [])) := by
  unfold xnetHandleTx at handled
  rcases header : readTx s with _ | ⟨result, middle⟩
  · rw [header] at handled
    cases handled
  rw [header] at handled
  obtain ⟨closed, ⟨long, _, rfl, stream⟩ | ⟨_, _, rfl, stream⟩ | ⟨_, short, rfl, stream⟩⟩ :=
    readLoop_ended (by decide) header
  · rw [List.length_nil, Nat.zero_add] at long
    rw [receiveOne_header long]
    rw [List.length_nil, Nat.sub_zero] at stream handled
    rw [← stream]
    simp only [List.nil_append] at handled
    generalize XnetMsgTx.read (s.stream.take sizeofXnetMsgTx) = tx at handled ⊢
    split_ifs at handled with some
    · have positive : ([] : List U8).length < tx.len.toNat :=
        Nat.pos_of_ne_zero fun zero => some (BitVec.eq_of_toNat_eq zero)
      rcases data : readData tx.len.toNat middle with _ | ⟨result, final⟩
      · rw [data] at handled
        cases handled
      rw [data] at handled
      obtain ⟨closed', ⟨enough, small, rfl, rest⟩ | ⟨impossible, _⟩ | ⟨_, few, rfl, rest⟩⟩ :=
        readLoop_ended positive data
      · rw [List.length_nil, Nat.zero_add] at enough
        cases handled
        refine ⟨closed'.trans closed, Or.inl ⟨rfl, _, rfl, small, ?_⟩⟩
        rw [if_neg (Nat.not_lt.mpr enough), rest]
        rfl
      · cases impossible
      · rw [List.length_nil, Nat.zero_add] at few
        cases handled
        exact ⟨closed'.trans closed, Or.inr (Or.inr ⟨rfl, rfl, if_pos few, rest⟩)⟩
    · rw [not_not] at some
      have none : tx.len.toNat = 0 := congrArg BitVec.toNat some
      cases handled
      refine ⟨closed, Or.inl ⟨rfl, _, rfl, by simp only; omega, ?_⟩⟩
      rw [if_neg (by omega), none]
      rfl
  · cases handled
    exact ⟨closed, Or.inr (Or.inl ⟨rfl, rfl, stream⟩)⟩
  · cases handled
    refine ⟨closed, Or.inr (Or.inr ⟨rfl, rfl, if_pos ?_, stream⟩)⟩
    rw [List.length_nil, Nat.zero_add] at short
    exact short

/-- Between two messages an open connection gives a call nothing. -/
theorem xnetHandleTx_idle (stillOpen : s.closed = false) (none : s.stream = []) :
    ∃ offers, xnetHandleTx s = some (0, .none, { s with offers }) := by
  obtain ⟨offers, read⟩ := readLoop_idle sizeofXnetMsgTx s.calls stillOpen none
    (by
      unfold Socket.calls
      omega)
  refine ⟨offers, ?_⟩
  unfold xnetHandleTx
  rw [readTx, read]

end Call

/-! ### Successive calls -/

section Calls

variable {part : List U8} {closed : Bool} {offers : List Offer}

/-- What a stream ends with: the beginning of a message, if the other side is gone. -/
structure Tail (part : List U8) (closed : Bool) (last : XnetMsg) : Prop where
  prefixed : part <+: last.frame.bytes
  inside : part ≠ last.frame.bytes
  stillOpen : closed = false → part = []

/-- The header of a message that has not come whole is that of the message. -/
theorem Tail.header {last : XnetMsg} (tail : Tail part closed last)
    (header : sizeofXnetMsgTx ≤ part.length) :
    XnetMsgTx.read (part.take sizeofXnetMsgTx) = last.tx := by
  obtain ⟨missing, whole⟩ := tail.prefixed
  have front : part.take sizeofXnetMsgTx = last.tx.bytes := by
    have longer : (part ++ missing).take sizeofXnetMsgTx = part.take sizeofXnetMsgTx :=
      List.take_append_of_le_length header
    rw [← longer, whole]
    exact List.take_left' last.tx.bytes_length
  rw [front, XnetMsgTx.read_bytes]

/-- Behind the last whole message no call receives anything. -/
theorem handleCalls_tail {last : XnetMsg} (tail : Tail part closed last)
    (small : last.tx.len.toNat < 2 ^ 31) (calls : Nat) :
    handleCalls calls ⟨part, offers, closed⟩ = some [] := by
  induction calls generalizing offers with
  | zero => rfl
  | succ calls inductionHypothesis =>
    have again : ∀ left : List Offer,
        xnetHandleTx ⟨part, offers, closed⟩ = some (0, none, ⟨part, left, closed⟩) →
        handleCalls (calls + 1) ⟨part, offers, closed⟩ = some [] := by
      intro left handled
      rw [handleCalls, handled]
      show (handleCalls calls ⟨part, left, closed⟩).map ([] ++ ·) = some []
      rw [inductionHypothesis]
      rfl
    cases closed with
    | false =>
      obtain ⟨left, handled⟩ := xnetHandleTx_idle (s := ⟨part, offers, false⟩) rfl
        (tail.stillOpen rfl)
      exact again left handled
    | true =>
      have none := Framing.receiveOne_part last.frame tail.prefixed tail.inside
      rcases xnetHandleTx_end (s := ⟨part, offers, true⟩) rfl none (fun header => by
        rw [tail.header header]
        exact small) with ⟨left, _, handled⟩ | ⟨next, handled⟩
      · exact again left handled
      · rw [handleCalls, handled]
        rfl

/-- Enough calls receive all whole messages of the stream. -/
theorem handleCalls_messages {last : XnetMsg} (tail : Tail part closed last)
    (smallLast : last.tx.len.toNat < 2 ^ 31) {msgs : List XnetMsg}
    (small : ∀ msg ∈ msgs, msg.tx.len.toNat < 2 ^ 31) {calls : Nat}
    (enough : msgs.length + offers.length ≤ calls) :
    handleCalls calls ⟨msgs.flatMap (·.frame.bytes) ++ part, offers, closed⟩ =
      some (msgs.map fun msg => (msg.tx, msg.siov.flatten)) := by
  induction calls generalizing msgs offers with
  | zero =>
    obtain rfl : msgs = [] := List.eq_nil_iff_length_eq_zero.mpr (by omega)
    rfl
  | succ calls inductionHypothesis =>
    cases msgs with
    | nil => exact handleCalls_tail tail smallLast _
    | cons msg msgs =>
      have message : Framing.receiveOne xnetCodec
          ((msg :: msgs).flatMap (·.frame.bytes) ++ part) =
          some ((msg.tx, msg.siov.flatten), msgs.flatMap (·.frame.bytes) ++ part) := by
        rw [List.flatMap_cons, List.append_assoc]
        exact Framing.receiveOne_bytes msg.frame _
      rw [List.length_cons] at enough
      rcases xnetHandleTx_message
        (s := ⟨(msg :: msgs).flatMap (·.frame.bytes) ++ part, offers, closed⟩) message
        (small msg List.mem_cons_self) with ⟨left, fewer, handled⟩ | ⟨left, kept, handled⟩
      · rw [handleCalls, handled]
        show (handleCalls calls ⟨(msg :: msgs).flatMap (·.frame.bytes) ++ part, left, closed⟩).map
          ([] ++ ·) = _
        rw [inductionHypothesis small (by rw [List.length_cons]; simp only at fewer; omega)]
        rfl
      · rw [handleCalls, handled]
        show (handleCalls calls ⟨msgs.flatMap (·.frame.bytes) ++ part, left, closed⟩).map
          ([(msg.tx, msg.siov.flatten)] ++ ·) = _
        rw [inductionHypothesis (fun other mem => small other (List.mem_cons_of_mem _ mem))
          (by simp only at kept; omega)]
        rfl

end Calls

/-- However the calls of `read` cut the stream, the messages on it are received as they were sent,
and nothing is received of a message that the stream ends in. -/
theorem xnet_receives_as_sent (msgs : List XnetMsg) (last : XnetMsg) (part : List U8)
    (closed : Bool) (offers : List Offer) (tail : Tail part closed last)
    (small : ∀ msg ∈ last :: msgs, msg.tx.len.toNat < 2 ^ 31) (calls : Nat)
    (enough : msgs.length + offers.length ≤ calls) :
    handleCalls calls ⟨msgs.flatMap (·.frame.bytes) ++ part, offers, closed⟩ =
      some (msgs.map fun msg => (msg.tx, msg.siov.flatten)) :=
  handleCalls_messages tail (small last List.mem_cons_self)
    (fun msg mem => small msg (List.mem_cons_of_mem _ mem)) enough

/-- Two messages and the first bytes of a third one, with a header that comes in two parts. -/
theorem xnet_receives_as_sent_cut :
    handleCalls 9
      ⟨[xnetMsgAddSdata xnetAllocMsg [7, 8, 9] (by decide), xnetAllocMsg].flatMap (·.frame.bytes) ++
        [0, 0], [.eagain, .upTo 5, .eagain, .eintr, .upTo 67, .upTo 1, .eintr], true⟩ =
      some ([xnetMsgAddSdata xnetAllocMsg [7, 8, 9] (by decide), xnetAllocMsg].map
        fun msg => (msg.tx, msg.siov.flatten)) :=
  xnet_receives_as_sent _ xnetAllocMsg _ _ _
    ⟨by decide, by decide, by decide⟩
    (by decide) 9 (by decide)

end Hvfs
