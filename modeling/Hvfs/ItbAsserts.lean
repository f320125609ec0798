/-
This file settles when the assertions of `itb_dirty` hold. They fail for a block
that a request has just inserted: it carries the request's TXG and is CLEAN, and
a request of the TXG before may come to it first.
-/

import Hvfs.ItbSteps

namespace Hvfs

open Transition

/-- What `itb_dirty` asserts and takes for granted of a call. -/
structure DirtyCall.Asserted (call : DirtyCall) : Prop where
  reassigned : call.txg + 1 = call.itbTxg →
    call.itbState = .dirty ∧ call.itbTxg = call.openTxg
  next : call.txg = call.itbTxg + 1 → call.itbState ≠ .cowed
  notOlder : call.itbTxg ≤ call.txg + 1

section Asserts

variable {Thread : Type} [DecidableEq Thread] {c : ItbConfig} {s t : ItbServer Thread}

/-- No request that is going to change a new block is in an older TXG than one that has inserted
it and is on its way to it. -/
def InsertedFirst (c : ItbConfig) (s : ItbServer Thread) (event : ServerEvent Thread) : Prop :=
  ∀ thread request x u, Comes c s event thread request x u →
    (∃ act, itbPlan (s.block x) request.hi = some (.dirty act)) → (s.head x).state = .clean →
      ∀ other later, s.stage other = .insertHit later x none → later.txg ≤ request.txg

omit [DecidableEq Thread] in
/-- The call of a thread that has come to a block. -/
theorem Sound.asserted {steady : Prop} {place : Nat → Place Thread} (sound : Sound steady c s place)
    {thread : Thread}
    {request : Request} {x : Nat} (visits : Visits steady s place thread request x)
    (first : (s.head x).state = .clean →
      ∀ other, (s.stage other).Awaits x (s.head x).txg → (s.head x).txg ≤ request.txg) :
    DirtyCall.Asserted ⟨request.txg, (s.head x).txg, (s.head x).state, s.openTxg⟩ := by
  have live := sound.heldLive thread _ visits.held
  obtain ⟨below, above⟩ := sound.live_bounds live
  have notAfter := (sound.blocks x).usedTxg visits.used
  refine ⟨fun before => ?_, fun next cowed => ?_, Nat.le_trans notAfter above⟩
  · simp only at before
    have isOpen : (s.head x).txg = s.openTxg := by omega
    refine ⟨?_, isOpen⟩
    rcases state : (s.head x).state with _ | _ | _
    · rcases (sound.blocks x).usedClean visits.used state with settled | awaited
      · exact absurd settled.1 (by omega)
      · obtain ⟨-, other, awaits⟩ := awaited
        have order := first state other awaits
        omega
    · rfl
    · exact visits.ready.elim (absurd state) fun same => by omega
  · exact visits.ready.elim (absurd cowed) fun same => by simp only at next; omega

/-- A step notes only calls for which the assertions hold. -/
theorem Sound.moves_asserted {steady : Prop} {place : Nat → Place Thread}
    (sound : Sound steady c s place)
    {event : ServerEvent Thread} (moves : Moves c s event t) (first : InsertedFirst c s event)
    (before : ∀ call ∈ s.calls, call.Asserted) : ∀ call ∈ t.calls, call.Asserted := by
  rcases moves.sameLogs with ⟨thread, request, x, u, comes, visited⟩ | same
  · obtain ⟨after, soundAfter, visits, -⟩ := sound.comes comes
    have brings := comes.brings
    rcases visited.calls with calls | ⟨plan, calls⟩ <;> rw [calls, brings.logs.calls]
    · exact before
    · intro call member
      rcases List.mem_append.mp member with old | new
      · exact before call old
      · rw [List.mem_singleton.mp new]
        refine soundAfter.asserted visits fun clean other awaits => ?_
        obtain ⟨later, stage, sameTxg, creates⟩ := awaits
        rw [← sameTxg]
        by_cases same : other = thread
        · obtain ⟨-, own, -⟩ := visits.awaits x later.txg
            ⟨later, by rw [← same, stage], rfl, creates⟩
          exact Nat.le_of_eq own
        · rw [brings.stage other same] at stage
          rw [brings.block] at plan
          obtain ⟨listed, head⟩ := brings.head x
          rw [head] at clean
          exact first thread request x u comes plan clean other later stage
  · rw [same.calls]
    exact before

variable [Fintype Thread]

/-- In every run in which no block is reused while a thread comes back to it, and no older request
is the first to change a new block, the assertions of `itb_dirty` hold of all calls. -/
theorem asserts_hold {hmi : Hmi} {txg : Nat} {events : List (ServerEvent Thread)}
    (guarded : Guarded (serverStep c)
      (fun s event => Unreused c s event ∧ InsertedFirst c s event)
      (ItbServer.init Thread hmi txg) events)
    (reached : run (serverStep c) (ItbServer.init Thread hmi txg) events = some s) :
    ∀ call ∈ s.calls, call.Asserted := by
  refine (guarded_invariant
    (fun s => (∃ place, Sound False c s place) ∧ ∀ call ∈ s.calls, call.Asserted)
    (fun state event next good allowed step => ?_) ⟨⟨_, init_sound hmi txg⟩, nofun⟩ guarded
    reached).2
  obtain ⟨⟨place, sound⟩, asserted⟩ := good
  have moves := moves_of_serverStep step
  exact ⟨sound.moves moves (allowed.1 next step) False.elim,
    sound.moves_asserted moves allowed.2 asserted⟩

omit [Fintype Thread] in
/-- A thread never comes too late to its own block. -/
theorem insertedFirst_of_own {event : ServerEvent Thread}
    (own : ∀ other later x, s.stage other = .insertHit later x none →
      ∀ thread request u, Comes c s event thread request x u → thread = other) :
    InsertedFirst c s event := by
  intro thread request x u comes _ _ other later stage
  obtain rfl := own other later x stage thread request u comes
  cases comes with
  | search isStage =>
    rw [isStage] at stage
    cases stage
  | hit isStage =>
    rw [isStage] at stage
    cases stage
    exact Nat.le_refl _
  | again isStage =>
    rw [isStage] at stage
    cases stage

end Asserts

/-- A transaction begins, the TXG changes, a second transaction inserts a new block and changes it,
and the first one comes to it. -/
def laterItbRun : List (ServerEvent Bool) :=
  [.begin false (letterSearch 98), .switch, .begin true (nameSearch INDEX_CREATE),
    .search true false, .getFree true true, .insert true true, .hit true, .search false true]

theorem asserts_hold_later :
    ∃ s, run (serverStep smallConfig) (ItbServer.init Bool ⟨0, 0⟩ 1) laterItbRun = some s ∧
      s.calls = [⟨2, 2, .clean, 2⟩, ⟨1, 2, .dirty, 2⟩] ∧ ∀ call ∈ s.calls, call.Asserted := by
  have guarded : Guarded (serverStep smallConfig)
      (fun s event => Unreused smallConfig s event ∧ InsertedFirst smallConfig s event)
      (ItbServer.init Bool ⟨0, 0⟩ 1) laterItbRun := by
    have none : ∀ {s : ItbServer Bool} {event : ServerEvent Bool}, s.lru = [] →
        (∀ other later x, s.stage other ≠ .insertHit later x none) →
        Unreused smallConfig s event ∧ InsertedFirst smallConfig s event :=
      fun empty noOne => ⟨unreused_of_empty empty _,
        insertedFirst_of_own fun other later x stage => absurd stage (noOne other later x)⟩
    refine .cons (none rfl (by rintro (_ | _) later x ⟨⟩)) rfl ?_
    refine .cons (none rfl (by rintro (_ | _) later x ⟨⟩)) rfl ?_
    refine .cons (none rfl (by rintro (_ | _) later x ⟨⟩)) rfl ?_
    refine .cons (none rfl (by rintro (_ | _) later x ⟨⟩)) rfl ?_
    refine .cons (none rfl (by rintro (_ | _) later x ⟨⟩)) rfl ?_
    refine .cons (none rfl (by rintro (_ | _) later x ⟨⟩)) rfl ?_
    refine .cons ⟨unreused_of_empty rfl _, insertedFirst_of_own ?_⟩ rfl ?_
    · rintro (_ | _) later x stage thread request u comes
      · cases stage
      · cases comes
        rfl
    exact .cons (none rfl (by rintro (_ | _) later x ⟨⟩)) rfl trivial
  have ends : (run (serverStep smallConfig) (ItbServer.init Bool ⟨0, 0⟩ 1) laterItbRun).map
      (·.calls) = some [⟨2, 2, .clean, 2⟩, ⟨1, 2, .dirty, 2⟩] := by decide +kernel
  obtain ⟨s, reached, calls⟩ := Option.map_eq_some_iff.mp ends
  exact ⟨s, reached, calls, asserts_hold guarded reached⟩

/-- A transaction begins, the TXG changes, a second transaction inserts a new block for the same
key, and the first one comes to it before it. -/
def newItbRun : List (ServerEvent Bool) :=
  [.begin false (nameSearch INDEX_CREATE), .switch, .begin true (nameSearch INDEX_CREATE),
    .search true false, .getFree true true, .insert true true, .search false true]

/-- An assertion of `itb_dirty` fails for a new block. -/
theorem new_itb_asserts :
    ∃ s, run (serverStep smallConfig) (ItbServer.init Bool ⟨0, 0⟩ 1) newItbRun = some s ∧
      ¬∀ call ∈ s.calls, call.Asserted := by
  have ends : (run (serverStep smallConfig) (ItbServer.init Bool ⟨0, 0⟩ 1) newItbRun).map
      (·.calls) = some [⟨1, 2, .clean, 2⟩] := by decide +kernel
  obtain ⟨s, reached, calls⟩ := Option.map_eq_some_iff.mp ends
  refine ⟨s, reached, fun asserted => ?_⟩
  have clean := ((asserted _ (by rw [calls]; exact List.mem_singleton_self _)).reassigned rfl).1
  cases clean

end Hvfs
