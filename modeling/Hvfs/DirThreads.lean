/-
This file determines when threads that search for one directory at the same time
get the same entry.

The search of the table, the request to the GDT server and the insertion are three
steps, each under a lock of its own or under none. A thread whose search has missed
inserts what it was sent, also when another thread has done so by then, and it
returns the error of the insertion.

Every request is answered for the directory that it asks for, and there is memory.
Nothing is removed from the table: `mds_dh_remove` has no caller. The ITB of the
GDT and the server that is asked for it are not followed.
-/

import Hvfs.DirHash
import Hvfs.Library.Transition

namespace Hvfs

open Transition

/-! ### Threads -/

/-- A call of `mds_dh_search`. `mds_dh_load` makes one for the GDT's own entry; `pending` is the
directory that it loads then. -/
structure DirCall where
  uuid : U64
  pending : Option U64
  deriving DecidableEq, Repr

/-- What a thread does next. -/
inductive DirStage
  | idle
  /-- To search the table. -/
  | search (call : DirCall)
  /-- To get the reply of the GDT server. -/
  | load (call : DirCall)
  /-- To insert what the reply says. -/
  | insert (call : DirCall) (hi : IndexHeader)
  /-- Nothing: the search for this directory has returned. -/
  | returned (uuid : U64) (p : DhPtr)
  /-- Nothing: the assertion that the GDT's entry is found has failed. -/
  | died
  deriving DecidableEq, Repr

/-- The table and the threads. -/
structure DirThreads where
  dh : Dh
  stage : Nat → DirStage

/-- Nothing has been searched for. -/
def DirThreads.start (slot : U64 → Nat) : DirThreads := ⟨⟨slot, fun _ => []⟩, fun _ => .idle⟩

/-- One step of one thread. -/
inductive DirEvent
  | call (thread : Nat) (uuid : U64)
  | search (thread : Nat)
  | reply (thread : Nat) (hi : IndexHeader)
  | insert (thread : Nat)

/-- What follows when `mds_dh_search` has the value. -/
def DirCall.resume (call : DirCall) (p : DhPtr) : DirStage :=
  match call.pending with
  | none => .returned call.uuid p
  | some uuid =>
    match p with
    | .entry _ => .load ⟨uuid, none⟩
    | .error _ => .died

/-- What follows when the directory is not in the table. -/
def DirCall.miss (gdtUuid : U64) (call : DirCall) : DirStage :=
  if call.uuid = gdtUuid then .load call else .search ⟨gdtUuid, some call.uuid⟩

def DirThreads.setStage (s : DirThreads) (thread : Nat) (stage : DirStage) : DirThreads :=
  { s with stage := Function.update s.stage thread stage }

def dirStep (gdtUuid : U64) (s : DirThreads) : DirEvent → Option DirThreads
  | .call thread uuid =>
    match s.stage thread with
    | .idle => some (s.setStage thread (.search ⟨uuid, none⟩))
    | .returned _ _ => some (s.setStage thread (.search ⟨uuid, none⟩))
    | _ => none
  | .search thread =>
    match s.stage thread with
    | .search call =>
      match s.dh.find call.uuid with
      | some e => some (s.setStage thread (call.resume (.entry e)))
      | none => some (s.setStage thread (call.miss gdtUuid))
    | _ => none
  | .reply thread hi =>
    match s.stage thread with
    | .load call => if hi.uuid = call.uuid then some (s.setStage thread (.insert call hi)) else none
    | _ => none
  | .insert thread =>
    match s.stage thread with
    | .insert call hi =>
      let (p, dh) := mdsDhInsert s.dh hi true
      some { s.setStage thread (call.resume p) with dh }
    | _ => none

/-! ### What the searches return -/

/-- The entries of the table for a directory. -/
def Dh.entries (dh : Dh) (uuid : U64) : List Dhe :=
  (dh.ht (dh.slot uuid)).filter fun e => e.uuid == uuid

/-- A search that has returned has returned the one entry of the table for its directory. -/
def DirStage.Right (dh : Dh) : DirStage → Prop
  | .returned uuid p => ∃ e, p = .entry e ∧ dh.entries uuid = [e]
  | .died => False
  | _ => True

/-- All searches have returned the one entry for their directory. -/
def Agreed (s : DirThreads) : Prop := ∀ thread, (s.stage thread).Right s.dh

/-- What is inserted is not in the table: no other thread has been faster. -/
def InsertsFirst (s : DirThreads) : DirEvent → Prop
  | .insert thread => ∀ call hi, s.stage thread = .insert call hi → s.dh.find call.uuid = none
  | _ => True

section Table

variable {dh : Dh} {e : Dhe} {uuid : U64}

theorem Dh.head_entries (dh : Dh) (uuid : U64) : (dh.entries uuid).head? = dh.find uuid :=
  List.head?_filter

theorem Dh.entries_add (dh : Dh) (e : Dhe) (uuid : U64) :
    (dh.add e).entries uuid = if e.uuid = uuid then e :: dh.entries uuid else dh.entries uuid := by
  unfold Dh.entries Dh.add
  simp only
  by_cases same : e.uuid = uuid
  · subst same
    rw [Function.update_self, if_pos rfl]
    exact List.filter_cons_of_pos (beq_self_eq_true e.uuid)
  · rw [if_neg same]
    by_cases together : dh.slot uuid = dh.slot e.uuid
    · rw [together, Function.update_self]
      exact List.filter_cons_of_neg fun equal => same (beq_iff_eq.mp equal)
    · rw [Function.update_of_ne together]

theorem Dh.entries_none (none : dh.find uuid = .none) : dh.entries uuid = [] := by
  rw [← Dh.head_entries] at none
  exact List.head?_eq_none_iff.mp none

end Table

/-! ### One step -/

section Step

variable {s next : DirThreads} {thread : Nat} {stage : DirStage} {call : DirCall}
  {dh : Dh} {e : Dhe}
  {gdtUuid : U64} {event : DirEvent}

@[simp] theorem DirThreads.setStage_dh : (s.setStage thread stage).dh = s.dh := rfl

@[simp] theorem DirThreads.setStage_self : (s.setStage thread stage).stage thread = stage :=
  Function.update_self _ _ _

theorem DirThreads.setStage_other {other : Nat} (different : other ≠ thread) :
    (s.setStage thread stage).stage other = s.stage other :=
  Function.update_of_ne different _ _

/-- What holds between the steps. -/
structure Loaded (s : DirThreads) : Prop where
  single : ∀ uuid, (s.dh.entries uuid).length ≤ 1
  named : ∀ thread call hi, s.stage thread = .insert call hi → hi.uuid = call.uuid
  agreed : Agreed s

theorem Loaded.setStage (loaded : Loaded s) (right : stage.Right s.dh)
    (named : ∀ call hi, stage = .insert call hi → hi.uuid = call.uuid) :
    Loaded (s.setStage thread stage) where
  single := loaded.single
  named := by
    intro other call hi inserts
    by_cases same : other = thread
    · rw [same, DirThreads.setStage_self] at inserts
      exact named call hi inserts
    · rw [DirThreads.setStage_other same] at inserts
      exact loaded.named other call hi inserts
  agreed := by
    intro other
    by_cases same : other = thread
    · rw [same, DirThreads.setStage_self]
      exact right
    · rw [DirThreads.setStage_other same]
      exact loaded.agreed other

/-- What has been returned stays right when another directory is inserted. -/
theorem DirStage.Right.add (right : stage.Right dh) (new : dh.find e.uuid = none) :
    stage.Right (dh.add e) := by
  cases stage with
  | idle => trivial
  | search call => trivial
  | load call => trivial
  | insert call hi => trivial
  | died => exact right
  | returned uuid p =>
    obtain ⟨own, value, entries⟩ := right
    refine ⟨own, value, ?_⟩
    rw [Dh.entries_add, if_neg, entries]
    intro same
    rw [← same, Dh.entries_none new] at entries
    cases entries

theorem Loaded.add (loaded : Loaded s) (new : s.dh.find e.uuid = none) :
    Loaded { s with dh := s.dh.add e } where
  single := by
    intro uuid
    rw [Dh.entries_add]
    split_ifs with same
    · rw [← same, Dh.entries_none new, List.length_singleton]
    · exact loaded.single uuid
  named := loaded.named
  agreed := fun thread => (loaded.agreed thread).add new

theorem DirCall.resume_right (call : DirCall) (entries : dh.entries call.uuid = [e]) :
    (call.resume (.entry e)).Right dh := by
  obtain ⟨uuid, _ | pending⟩ := call
  · exact ⟨e, rfl, entries⟩
  · trivial

theorem DirCall.resume_error (call : DirCall) (err : Int) :
    ¬(call.resume (.error err)).Right dh := by
  obtain ⟨uuid, _ | pending⟩ := call
  · rintro ⟨_, impossible, _⟩
    cases impossible
  · exact id

theorem DirCall.resume_ne (call : DirCall) (p : DhPtr) (other : DirCall) (hi : IndexHeader) :
    call.resume p ≠ .insert other hi := by
  obtain ⟨uuid, _ | pending⟩ := call
  · intro impossible
    cases impossible
  · intro impossible
    cases p with
    | error err => cases impossible
    | entry e => cases impossible

/-- An entry that is found is the only one. -/
theorem Loaded.found (loaded : Loaded s) {uuid : U64} (found : s.dh.find uuid = some e) :
    s.dh.entries uuid = [e] := by
  rw [← Dh.head_entries] at found
  obtain ⟨others, entries⟩ := List.head?_eq_some_iff.mp found
  have single := loaded.single uuid
  rw [entries, List.length_cons] at single
  rw [entries, List.length_eq_zero_iff.mp (Nat.le_zero.mp (Nat.le_of_succ_le_succ single))]

theorem Loaded.search (loaded : Loaded s)
    (stepped : dirStep gdtUuid s (.search thread) = some next) :
    Loaded next := by
  rw [dirStep] at stepped
  split at stepped
  · next call searches =>
    rcases found : s.dh.find call.uuid with _ | e
    · rw [found] at stepped
      cases stepped
      refine loaded.setStage ?_ ?_
      · unfold DirCall.miss
        split_ifs
        · trivial
        · trivial
      · intro other hi impossible
        unfold DirCall.miss at impossible
        split_ifs at impossible
    · rw [found] at stepped
      cases stepped
      exact loaded.setStage (call.resume_right (loaded.found found))
        fun other hi impossible => absurd impossible (call.resume_ne _ other hi)
  · cases stepped

variable (gdtUuid) in
/-- The insertion of a directory that is in the table returns an error. -/
theorem dirStep_insert {hi : IndexHeader} (inserts : s.stage thread = .insert call hi) :
    dirStep gdtUuid s (.insert thread) = some (
      if (s.dh.find hi.uuid).isSome then s.setStage thread (call.resume (.error (-EEXIST)))
      else DirThreads.setStage { s with dh := s.dh.add ⟨hi.uuid, hi.puuid, hi.psalt⟩ } thread
        (call.resume (.entry ⟨hi.uuid, hi.puuid, hi.psalt⟩))) := by
  rw [dirStep, inserts]
  simp only [mdsDhInsert, if_true]
  split_ifs
  · rfl
  · rfl

/-- The insertion keeps the searches right exactly when it is the first one. -/
theorem Loaded.insert (loaded : Loaded s) {hi : IndexHeader}
    (inserts : s.stage thread = .insert call hi) :
    (s.dh.find call.uuid = none →
      ∀ next, dirStep gdtUuid s (.insert thread) = some next → Loaded next) ∧
    ((∀ next, dirStep gdtUuid s (.insert thread) = some next → Agreed next) →
      s.dh.find call.uuid = none) := by
  have named := loaded.named thread call hi inserts
  constructor
  · intro new next stepped
    rw [dirStep_insert gdtUuid inserts, named,
      if_neg (by rw [new]; exact Bool.false_ne_true)] at stepped
    cases stepped
    refine (loaded.add (e := ⟨call.uuid, hi.puuid, hi.psalt⟩) new).setStage
      (call.resume_right ?_) fun other index impossible =>
        absurd impossible (call.resume_ne _ other index)
    simp only
    rw [Dh.entries_add, if_pos rfl, Dh.entries_none new]
  · intro agreed
    by_contra held
    have there : (s.dh.find hi.uuid).isSome = true := by
      rw [named]
      exact Option.isSome_iff_ne_none.mpr held
    have stepped := dirStep_insert gdtUuid inserts
    rw [if_pos there] at stepped
    have right := agreed _ stepped thread
    rw [DirThreads.setStage_self] at right
    exact call.resume_error _ right

theorem Loaded.other (loaded : Loaded s) (notInsert : ∀ thread, event ≠ .insert thread)
    (stepped : dirStep gdtUuid s event = some next) : Loaded next := by
  cases event with
  | call thread uuid =>
    have search : Loaded (s.setStage thread (.search ⟨uuid, none⟩)) :=
      loaded.setStage trivial fun _ _ impossible => by cases impossible
    rw [dirStep] at stepped
    split at stepped
    · cases stepped
      exact search
    · cases stepped
      exact search
    · cases stepped
  | search thread => exact loaded.search stepped
  | reply thread hi =>
    rw [dirStep] at stepped
    split at stepped
    · next call loads =>
      split_ifs at stepped with named
      cases stepped
      refine loaded.setStage trivial fun other index same => ?_
      cases same
      exact named
    · cases stepped
  | insert thread => exact absurd rfl (notInsert thread)

theorem Loaded.step (loaded : Loaded s) (first : InsertsFirst s event)
    (stepped : dirStep gdtUuid s event = some next) : Loaded next := by
  by_cases insert : ∃ thread, event = .insert thread
  · obtain ⟨thread, rfl⟩ := insert
    rcases inserts : s.stage thread with _ | _ | _ | ⟨call, hi⟩ | _ | _
    case insert => exact (loaded.insert inserts).1 (first call hi inserts) next stepped
    all_goals
      rw [dirStep, inserts] at stepped
      cases stepped
  · exact loaded.other (not_exists.mp insert) stepped

/-- One step keeps the searches right exactly when it meets the condition. -/
theorem Loaded.iff (loaded : Loaded s) :
    (∀ next, dirStep gdtUuid s event = some next → Agreed next) ↔ InsertsFirst s event := by
  constructor
  · intro agreed
    cases event with
    | insert thread => exact fun call hi inserts => (loaded.insert inserts).2 agreed
    | call thread uuid => trivial
    | search thread => trivial
    | reply thread hi => trivial
  · exact fun first next stepped => (loaded.step first stepped).agreed

end Step

/-! ### Runs -/

theorem DirThreads.start_loaded (slot : U64 → Nat) : Loaded (DirThreads.start slot) where
  single := fun _ => Nat.zero_le 1
  named := fun _ _ _ impossible => by cases impossible
  agreed := fun _ => trivial

/-- All searches return the one entry of the table for their directory exactly when no thread
inserts a directory that another one has inserted since its search. -/
theorem dir_searches_agree (gdtUuid : U64) (slot : U64 → Nat) (events : List DirEvent) :
    (∀ before after final, events = before ++ after →
        run (dirStep gdtUuid) (DirThreads.start slot) before = some final → Agreed final) ↔
      Guarded (dirStep gdtUuid) InsertsFirst (DirThreads.start slot) events := by
  have start := DirThreads.start_loaded slot
  rw [reached_iff_guarded start.agreed]
  refine guarded_iff_of_invariant Loaded (fun s event loaded => loaded.iff) ?_ start
  intro s event next loaded agreed stepped
  exact loaded.step (loaded.iff.mp agreed) stepped

/-- The index of a directory in a reply. -/
def namedIndex (uuid : U64) : IndexHeader := ⟨0, 0, uuid, 0, 0, 0, 0, 0⟩

/-- Two threads miss a directory and load it. The second one gets `-EEXIST`. -/
theorem dir_searches_collide : ∃ final,
    run (dirStep 1) (DirThreads.start fun _ => 0)
      [.call 0 1, .search 0, .reply 0 (namedIndex 1), .insert 0,
        .call 1 7, .call 2 7, .search 1, .search 2, .search 1, .search 2,
        .reply 1 (namedIndex 7), .reply 2 (namedIndex 7), .insert 1, .insert 2] = some final ∧
      final.stage 1 = .returned 7 (.entry ⟨7, 0, 0⟩) ∧
      final.stage 2 = .returned 7 (.error (-EEXIST)) ∧ ¬Agreed final := by
  refine ⟨_, rfl, rfl, rfl, fun agreed => ?_⟩
  obtain ⟨_, impossible, _⟩ := agreed 2
  cases impossible

end Hvfs
