/-
This file determines when the poll thread leaves nothing behind on the sockets
that it polls.

The descriptors are polled with `EPOLLET`: `epoll_wait` reports one again only for
bytes that come after the last report. For each report the thread handles one
message, and so a second message that has come with the first one waits until
something else arrives on its connection.

A connection counts as one from its first byte on. It is not broken (`EPOLLERR`),
and `accept` succeeds.
-/

import Hvfs.XnetReceive
import Hvfs.Library.Transition

namespace Hvfs

open Transition

/-! ### The poll thread -/

/-- The connections, by descriptor, with `pollin_thread_main`: the bytes that were not read, whether
the other side has closed the connection, whether something has come since the last report, and the
reported descriptors that are still to be handled. -/
structure PollThread where
  stream : Nat → List U8
  closed : Nat → Bool
  edge : Nat → Bool
  events : List Nat

/-- Nothing has come yet. -/
def PollThread.start : PollThread := ⟨fun _ => [], fun _ => false, fun _ => false, []⟩

/-- The size of `events`. -/
def maxEvents : Nat := 10

inductive PollEvent
  /-- Bytes come on a connection. -/
  | arrive (fd : Nat) (bytes : List U8)
  /-- The other side closes a connection. -/
  | shutdown (fd : Nat)
  /-- `epoll_wait` reports descriptors. -/
  | wait (fds : List Nat)
  /-- The thread handles the next report; the calls of `read` meet the offers, and `memory` says
  whether `xnet_alloc_msg` succeeds. -/
  | handle (offers : List Offer) (memory : Bool)

/-- The loop around `__xnet_handle_tx`, which is left with the first value that is not zero. -/
def pollLoop : Nat → Socket → Option (Int × Socket)
  | 0, _ => none
  | fuel + 1, s =>
    match xnetHandleTx s with
    | none => none
    | some (next, _, s) => if next = 0 then pollLoop fuel s else some (next, s)

/-- The handling of one report. A call of `__xnet_handle_tx` that gets no message from
`xnet_alloc_msg` returns 1 before it reads, and the ones before it have read nothing either. -/
def pollHandle (memory : Bool) (s : Socket) : Option (Int × Socket) :=
  if memory then pollLoop (s.offers.length + 1) s else some (1, s)

/-- One step. A thread that finds only a part of a message has no step: it goes on reading until the
rest has come. -/
def pollStep (s : PollThread) : PollEvent → Option PollThread
  | .arrive fd bytes =>
    if s.closed fd ∨ bytes = [] then none
    else some { s with
      stream := Function.update s.stream fd (s.stream fd ++ bytes)
      edge := Function.update s.edge fd true }
  | .shutdown fd =>
    if s.closed fd then none
    else some { s with
      closed := Function.update s.closed fd true
      edge := Function.update s.edge fd true }
  | .wait fds =>
    if s.events = [] ∧ fds.Nodup ∧ fds.length ≤ maxEvents ∧ ∀ fd ∈ fds, s.edge fd then
      some { s with edge := fun fd => s.edge fd && !fds.contains fd, events := fds }
    else none
  | .handle offers memory =>
    match s.events with
    | [] => none
    | fd :: events =>
      match pollHandle memory ⟨s.stream fd, offers, s.closed fd⟩ with
      | none => none
      | some (next, socket) =>
        some { s with
          stream := Function.update s.stream fd socket.stream
          edge := if next < 0 then Function.update s.edge fd false else s.edge
          events }

/-- A whole message is in the receive buffer. -/
def Complete (stream : List U8) : Prop := Framing.receiveOne xnetCodec stream ≠ none

/-- A connection with a whole message is still to be handled, or something has come on it since it
was reported. -/
def PollDrained (s : PollThread) : Prop :=
  ∀ fd, Complete (s.stream fd) → fd ∈ s.events ∨ s.edge fd = true

/-- Behind the message that the step handles there is no other one, and there is none at all when
it has no memory, unless something has come since the report. Messages that no call returns from are
left out. -/
def OneMessage (s : PollThread) : PollEvent → Prop
  | .handle _ true => ∀ fd events tx data rest, s.events = fd :: events →
      Framing.receiveOne xnetCodec (s.stream fd) = some ((tx, data), rest) →
      tx.len.toNat < 2 ^ 31 → ¬Complete rest ∨ s.edge fd = true
  | .handle _ false => ∀ fd events, s.events = fd :: events →
      ¬Complete (s.stream fd) ∨ s.edge fd = true
  | _ => True

/-! ### One report -/

section Handle

variable {socket : Socket} {s : Socket} {fuel : Nat} {tx : XnetMsgTx} {data rest : List U8}

/-- A report that has been handled stood for one message, or for the end of the stream. -/
theorem pollLoop_ended {next : Int} (handled : pollLoop fuel s = some (next, socket)) :
    (next = 1 ∧ ∃ message, message.1.len.toNat < 2 ^ 31 ∧
      Framing.receiveOne xnetCodec s.stream = some (message, socket.stream)) ∨
    (next = -1 ∧ ¬Complete s.stream ∧ ¬Complete socket.stream) := by
  induction fuel generalizing s with
  | zero => cases handled
  | succ fuel inductionHypothesis =>
    rw [pollLoop] at handled
    rcases called : xnetHandleTx s with _ | ⟨value, got, middle⟩
    · rw [called] at handled
      cases handled
    rw [called] at handled
    simp only at handled
    obtain ⟨_, ⟨rfl, message, _, small, received⟩ | ⟨rfl, _, stream⟩ | ⟨rfl, _, none, empty⟩⟩ :=
      xnetHandleTx_ended called
    · cases handled
      exact Or.inl ⟨rfl, message, small, received⟩
    · rw [← stream]
      exact inductionHypothesis handled
    · cases handled
      refine Or.inr ⟨rfl, fun complete => complete none, fun complete => complete ?_⟩
      rw [empty]
      exact Framing.receiveOne_nil

variable (fuel) in
/-- A message that has come is handled. -/
theorem pollLoop_message
    (message : Framing.receiveOne xnetCodec s.stream = some ((tx, data), rest))
    (small : tx.len.toNat < 2 ^ 31) (enough : s.offers.length < fuel) :
    ∃ socket, pollLoop fuel s = some (1, socket) ∧ socket.stream = rest := by
  induction fuel generalizing s with
  | zero => exact absurd enough (Nat.not_lt_zero _)
  | succ fuel inductionHypothesis =>
    rcases xnetHandleTx_message message small with ⟨offers, fewer, called⟩ | ⟨offers, _, called⟩
    · rw [pollLoop, called]
      exact inductionHypothesis (s := { s with offers }) message (by simp only; omega)
    · rw [pollLoop, called]
      exact ⟨{ s with stream := rest, offers }, rfl, rfl⟩

/-- A message that has come is handled when there is memory for it. -/
theorem pollHandle_message
    (message : Framing.receiveOne xnetCodec s.stream = some ((tx, data), rest))
    (small : tx.len.toNat < 2 ^ 31) :
    ∃ socket, pollHandle true s = some (1, socket) ∧ socket.stream = rest :=
  pollLoop_message _ message small (Nat.lt_succ_self _)

end Handle

/-! ### One step -/

section Step

variable {s next : PollThread} {event : PollEvent}

/-- What holds between the steps: nothing is left behind, and no report is there twice. -/
structure Polled (s : PollThread) : Prop where
  drained : PollDrained s
  once : s.events.Nodup

theorem pollStep_once (once : s.events.Nodup) (stepped : pollStep s event = some next) :
    next.events.Nodup := by
  cases event with
  | arrive fd bytes =>
    rw [pollStep] at stepped
    split_ifs at stepped
    cases stepped
    exact once
  | shutdown fd =>
    rw [pollStep] at stepped
    split_ifs at stepped
    cases stepped
    exact once
  | wait fds =>
    rw [pollStep] at stepped
    split_ifs at stepped with ready
    cases stepped
    exact ready.2.1
  | handle offers memory =>
    rw [pollStep] at stepped
    rcases reports : s.events with _ | ⟨fd, events⟩
    · rw [reports] at stepped
      cases stepped
    rw [reports] at stepped once
    simp only at stepped
    split at stepped
    · cases stepped
    · cases stepped
      exact (List.nodup_cons.mp once).2

theorem pollStep_handle {fd : Nat} {events : List Nat} (offers : List Offer) {memory : Bool}
    {value : Int} {socket : Socket} (reports : s.events = fd :: events)
    (handled : pollHandle memory ⟨s.stream fd, offers, s.closed fd⟩ = some (value, socket)) :
    pollStep s (.handle offers memory) = some { s with
      stream := Function.update s.stream fd socket.stream
      edge := if value < 0 then Function.update s.edge fd false else s.edge
      events } := by
  simp only [pollStep, reports, handled]

theorem PollDrained.arrive (drained : PollDrained s) {fd : Nat} {bytes : List U8}
    (stepped : pollStep s (.arrive fd bytes) = some next) : PollDrained next := by
  rw [pollStep] at stepped
  split_ifs at stepped
  cases stepped
  intro other complete
  by_cases same : other = fd
  · rw [same]
    exact Or.inr (Function.update_self _ _ _)
  · simp only [Function.update_of_ne same] at complete ⊢
    exact drained other complete

theorem PollDrained.shutdown (drained : PollDrained s) {fd : Nat}
    (stepped : pollStep s (.shutdown fd) = some next) : PollDrained next := by
  rw [pollStep] at stepped
  split_ifs at stepped
  cases stepped
  intro other complete
  by_cases same : other = fd
  · rw [same]
    exact Or.inr (Function.update_self _ _ _)
  · simp only [Function.update_of_ne same]
    exact drained other complete

theorem PollDrained.wait (drained : PollDrained s) {fds : List Nat}
    (stepped : pollStep s (.wait fds) = some next) : PollDrained next := by
  rw [pollStep] at stepped
  split_ifs at stepped with ready
  cases stepped
  intro fd complete
  by_cases reported : fd ∈ fds
  · exact Or.inl reported
  · refine Or.inr ?_
    rcases drained fd complete with queued | edge
    · rw [ready.1] at queued
      exact absurd queued List.not_mem_nil
    · simp only [edge, Bool.true_and, Bool.not_eq_true', List.contains_eq_mem,
        decide_eq_false_iff_not]
      exact reported

/-- What is left on the other connections when a report has been handled. -/
theorem PollDrained.others {fd other : Nat} {events : List Nat} (drained : PollDrained s)
    (reports : s.events = fd :: events) (different : other ≠ fd)
    (complete : Complete (s.stream other)) (value : Int) :
    other ∈ events ∨
      (if value < 0 then Function.update s.edge fd false else s.edge) other = true := by
  have before := drained other complete
  rw [reports, List.mem_cons] at before
  rcases before with (first | queued) | edge
  · exact absurd first different
  · exact Or.inl queued
  · refine Or.inr ?_
    split_ifs
    · rw [Function.update_of_ne different]
      exact edge
    · exact edge

/-- The handling of a report leaves nothing behind exactly when there is one message. -/
theorem Polled.handle (polled : Polled s) (offers : List Offer) :
    (∀ next, pollStep s (.handle offers true) = some next → PollDrained next) ↔
      OneMessage s (.handle offers true) := by
  obtain ⟨drained, once⟩ := polled
  constructor
  · intro leaves fd events tx data rest reports message small
    obtain ⟨socket, handled, stream⟩ := pollHandle_message
      (s := ⟨s.stream fd, offers, s.closed fd⟩) message small
    have left := leaves _ (pollStep_handle _ reports handled) fd
    simp only [Function.update_self, stream] at left
    rw [reports, List.nodup_cons] at once
    by_contra behind
    rw [not_or, not_not] at behind
    rcases left behind.1 with queued | edge
    · exact once.1 queued
    · exact behind.2 edge
  · intro one next stepped
    rw [pollStep] at stepped
    rcases reports : s.events with _ | ⟨fd, events⟩
    · rw [reports] at stepped
      cases stepped
    rw [reports] at stepped
    simp only at stepped
    rcases handled : pollHandle true ⟨s.stream fd, offers, s.closed fd⟩ with _ | ⟨value, socket⟩
    · rw [handled] at stepped
      cases stepped
    rw [handled] at stepped
    cases stepped
    intro other complete
    by_cases same : other = fd
    · subst same
      simp only [Function.update_self] at complete
      rcases pollLoop_ended handled with ⟨rfl, ⟨tx, data⟩, small, message⟩ | ⟨_, _, none⟩
      · rcases one other events tx data _ reports message small with none | edge
        · exact absurd complete none
        · exact Or.inr edge
      · exact absurd complete none
    · simp only [Function.update_of_ne same] at complete
      exact drained.others reports same complete value

/-- Without memory the report is used up, and nothing is read. -/
theorem Polled.handleNone (polled : Polled s) (offers : List Offer) :
    (∀ next, pollStep s (.handle offers false) = some next → PollDrained next) ↔
      OneMessage s (.handle offers false) := by
  obtain ⟨drained, once⟩ := polled
  constructor
  · intro leaves fd events reports
    have left := leaves _ (pollStep_handle offers reports rfl) fd
    simp only [Function.update_self] at left
    rw [reports, List.nodup_cons] at once
    rw [or_iff_not_imp_left, not_not]
    exact fun complete => (left complete).resolve_left once.1
  · intro one next stepped
    rcases reports : s.events with _ | ⟨fd, events⟩
    · rw [pollStep, reports] at stepped
      cases stepped
    rw [pollStep_handle offers reports rfl] at stepped
    cases stepped
    intro other complete
    by_cases same : other = fd
    · subst same
      simp only [Function.update_self] at complete
      exact Or.inr ((one other events reports).resolve_left (not_not_intro complete))
    · simp only [Function.update_of_ne same] at complete
      exact drained.others reports same complete 1

/-- One step leaves nothing behind exactly when it meets the condition. -/
theorem Polled.step (polled : Polled s) :
    (∀ next, pollStep s event = some next → PollDrained next) ↔ OneMessage s event := by
  cases event with
  | arrive fd bytes => exact ⟨fun _ => trivial, fun _ _ => polled.drained.arrive⟩
  | shutdown fd => exact ⟨fun _ => trivial, fun _ _ => polled.drained.shutdown⟩
  | wait fds => exact ⟨fun _ => trivial, fun _ _ => polled.drained.wait⟩
  | handle offers memory =>
    cases memory with
    | true => exact polled.handle offers
    | false => exact polled.handleNone offers

end Step

/-! ### Runs -/

theorem PollThread.start_polled : Polled PollThread.start where
  drained := fun _ complete => absurd Framing.receiveOne_nil complete
  once := List.nodup_nil

/-- The run lemma. -/
theorem polled_runs (events : List PollEvent) :
    (∀ before after final, events = before ++ after →
        run pollStep PollThread.start before = some final → PollDrained final) ↔
      Guarded pollStep OneMessage PollThread.start events := by
  rw [reached_iff_guarded PollThread.start_polled.drained]
  refine guarded_iff_of_invariant Polled (fun s event polled => polled.step) ?_
    PollThread.start_polled
  intro s event next polled leaves stepped
  exact ⟨leaves next stepped, pollStep_once polled.once stepped⟩

/-- Nothing is left behind in any state of a run exactly when there is one message for each report.
Back at `epoll_wait`, a connection on which nothing has come since its report has no whole message
then. -/
theorem poll_leaves_nothing (events : List PollEvent) :
    ((∀ before after final, events = before ++ after →
        run pollStep PollThread.start before = some final → PollDrained final) ↔
      Guarded pollStep OneMessage PollThread.start events) ∧
    (Guarded pollStep OneMessage PollThread.start events →
      ∀ before after final, events = before ++ after →
        run pollStep PollThread.start before = some final → final.events = [] →
          ∀ fd, final.edge fd = false → ¬Complete (final.stream fd)) := by
  refine ⟨polled_runs events, ?_⟩
  intro guarded before after final split reached back fd clear complete
  rcases (polled_runs events).mpr guarded before after final split reached fd complete with
    queued | edge
  · rw [back] at queued
    exact absurd queued List.not_mem_nil
  · rw [clear] at edge
    cases edge

/-- A message is in the buffer once all of it has come. -/
theorem complete_frame (msg : XnetMsg) : Complete msg.frame.bytes := by
  have whole := Framing.receiveOne_bytes msg.frame []
  rw [List.append_nil] at whole
  unfold Complete
  rw [whole]
  exact Option.some_ne_none _

theorem frame_bytes_ne_nil (msg : XnetMsg) : msg.frame.bytes ≠ [] := by
  intro none
  have length := congrArg List.length none
  rw [Framing.Frame.bytes, List.length_append, xnetCodec.length_encode] at length
  have positive := xnetCodec.size_pos
  rw [List.length_nil] at length
  omega

/-- The thread learns of the first bytes that come. -/
theorem first_report (fd : Nat) {bytes : List U8} (nonempty : bytes ≠ []) : ∃ reported,
    run pollStep PollThread.start [.arrive fd bytes, .wait [fd]] = some reported ∧
      reported.stream fd = bytes ∧ reported.edge fd = false ∧ reported.events = [fd] ∧
      reported.closed fd = false := by
  refine ⟨{ PollThread.start with
    stream := Function.update (fun _ => []) fd bytes
    edge := fun other =>
      Function.update (fun _ => false) fd true other && !([fd] : List Nat).contains other
    events := [fd] }, ?_, ?_, ?_, rfl, rfl⟩
  · refine run_cons_eq_some.mpr ⟨_, if_neg (not_or.mpr ⟨Bool.false_ne_true, nonempty⟩), ?_⟩
    refine run_cons_eq_some.mpr ⟨_, if_pos ⟨rfl, List.nodup_singleton fd, Nat.le_add_left 1 9,
      fun other mem => ?_⟩, rfl⟩
    rw [List.mem_singleton.mp mem]
    exact Function.update_self ..
  · simp only [Function.update_self]
  · simp only [List.contains_cons, beq_self_eq_true, Bool.true_or, Bool.not_true, Bool.and_false]

/-- Of two messages that come before the thread looks, the second one is left, and it is not
reported. -/
theorem second_message_left (fd : Nat) (first second : XnetMsg)
    (small : first.tx.len.toNat < 2 ^ 31) : ∃ final,
    run pollStep PollThread.start
      [.arrive fd (first.frame.bytes ++ second.frame.bytes), .wait [fd], .handle [] true] =
        some final ∧
      final.events = [] ∧ final.edge fd = false ∧ Complete (final.stream fd) ∧
      ∀ fds, fd ∈ fds → pollStep final (.wait fds) = none := by
  obtain ⟨socket, handled, stream⟩ := pollHandle_message
    (s := ⟨first.frame.bytes ++ second.frame.bytes, [], false⟩)
    (Framing.receiveOne_bytes first.frame second.frame.bytes) small
  obtain ⟨reported, learns, buffer, clear, reports, stillOpen⟩ := first_report fd
    (fun none => frame_bytes_ne_nil first (List.append_eq_nil_iff.mp none).1 :
      first.frame.bytes ++ second.frame.bytes ≠ [])
  rw [← buffer, ← stillOpen] at handled
  have handles := pollStep_handle [] reports handled
  rw [if_neg (by decide)] at handles
  obtain ⟨_, arrives, rest⟩ := run_cons_eq_some.mp learns
  obtain ⟨_, waits, last⟩ := run_cons_eq_some.mp rest
  cases last
  refine ⟨_, run_cons_eq_some.mpr ⟨_, arrives, run_cons_eq_some.mpr ⟨_, waits,
    run_cons_eq_some.mpr ⟨_, handles, rfl⟩⟩⟩, rfl, clear, ?_, fun fds mem => if_neg ?_⟩
  · simp only [Function.update_self]
    rw [stream]
    exact complete_frame second
  · rintro ⟨_, _, _, edges⟩
    have pending : reported.edge fd = true := edges fd mem
    rw [clear] at pending
    cases pending

/-- Two requests come at once. -/
theorem poll_leaves_message : ∃ final,
    run pollStep PollThread.start
      [.arrive 3 (xnetAllocMsg.frame.bytes ++ xnetAllocMsg.frame.bytes), .wait [3], .handle [] true] =
        some final ∧
      final.events = [] ∧ final.edge 3 = false ∧ Complete (final.stream 3) ∧
      ∀ fds, 3 ∈ fds → pollStep final (.wait fds) = none :=
  second_message_left 3 xnetAllocMsg xnetAllocMsg (by decide)

end Hvfs
