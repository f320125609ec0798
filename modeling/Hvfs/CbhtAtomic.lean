/-
This file proves that the calls on a shared CBHT take effect at one step each.

A thread that holds a lock of a bucket relies on the directory to lead its hash
there, and on the chain to hold what it has seen; the invariant says so for each
stage. From it the effects of all threads, in their order, are those of an
atomic map from keys to blocks, with one exception: a search that reads a count
of zero misses blocks that are on their chain but not counted yet.
-/

import Hvfs.CbhtShared

namespace Hvfs

open Transition

/-! ### What the table is for -/

/-- The blocks under their keys, and those whose insertion has not counted them yet. -/
structure PendingMap where
  block : U64 × U64 → Option Nat
  pending : Nat → Prop

/-- The effect of a call on the map. -/
inductive PendingMap.Step : PendingMap → CbhtEffect → PendingMap → Prop
  | insert (m : PendingMap) (i : Nat) (key : U64 × U64) (absent : m.block key = none) :
    Step m (.insert i key none)
      ⟨Function.update m.block key (some i), fun j => j = i ∨ m.pending j⟩
  | taken (m : PendingMap) (i oi : Nat) (key : U64 × U64) (present : m.block key = some oi) :
    Step m (.insert i key (some oi)) m
  | count (m : PendingMap) (i : Nat) :
    Step m (.count i) { m with pending := fun j => j ≠ i ∧ m.pending j }
  | search (m : PendingMap) (key : U64 × U64) : Step m (.search key (m.block key)) m
  /-- A bucket looks empty when none of its blocks is counted. -/
  | empty (m : PendingMap) (key : U64 × U64)
    (uncounted : ∀ i, m.block key = some i → m.pending i) : Step m (.empty key) m
  | del (m : PendingMap) (i : Nat) (key : U64 × U64) (present : m.block key = some i) :
    Step m (.del i true) { m with block := Function.update m.block key none }
  | gone (m : PendingMap) (i : Nat) (absent : ∀ key, m.block key ≠ some i) :
    Step m (.del i false) m

/-! ### The invariant -/

/-- The directory leads the hash to the bucket. -/
def Serves (t : Cbht) (b : Nat) (hash : U64) : Prop :=
  b < t.buckets ∧ t.high hash % 2 ^ (t.bucket b).depth = (t.bucket b).id

/-- The block is not in the table, and its hash is noted. -/
def Ready (hvfsHash : U64 → U64 → U64) (t : Cbht) (i : Nat) : Prop :=
  (t.itb i).be = none ∧ (t.itb i).hash = hvfsHash (t.itb i).puuid (t.itb i).itbid

/-- What a thread relies on at its stage. -/
def StageServed (hvfsHash : U64 → U64 → U64) (t : Cbht) : CbhtStage → Prop
  | .idle => True
  | .seek op => ∀ i, op = .insert i → Ready hvfsHash t i
  | .locked op b _ =>
    Serves t b (op.hash hvfsHash t) ∧ ∀ i, op = .insert i → Ready hvfsHash t i
  | .overfull i b _ | .split i b => b < t.buckets ∧ Ready hvfsHash t i
  | .room i b => Serves t b (t.itb i).hash ∧ Ready hvfsHash t i
  | .hung i b => b < t.buckets ∧ (t.itb i).be = some (b, t.low (t.itb i).hash)
  | .walk puuid itbid b => Serves t b (hvfsHash puuid itbid)
  | .entry _ b _ | .inserted _ b _ => b < t.buckets
  | .found x b o => b < t.buckets ∧ (t.itb x).be = some (b, o)

/-- The block that the thread has hung and not counted yet. -/
def CbhtStage.pends : CbhtStage → Option Nat
  | .hung i _ => some i
  | _ => none

theorem inserts_of_pends {stage : CbhtStage} {i : Nat} (pends : stage.pends = some i) :
    stage.inserts = some i := by
  cases stage with
  | hung j b => exact pends
  | _ => cases pends

section Invariant

variable {Thread : Type} (hvfsHash : U64 → U64 → U64) (s : CbhtSystem Thread)

/-- A thread has yet to count the block. -/
def CbhtSystem.Pending (i : Nat) : Prop := ∃ thread, (s.stage thread).pends = some i

/-- The invariant of the shared table. -/
structure Shared : Prop where
  dir : CbhtDirected s.table
  hung : CbhtHung hvfsHash s.table
  stages : ∀ thread, StageServed hvfsHash s.table (s.stage thread)
  /-- A write lock of a bucket keeps every other thread out of it. -/
  exclusive : ∀ thread other, thread ≠ other → ∀ b, (s.stage thread).writes = some b →
    (s.stage other).writes ≠ some b ∧ (s.stage other).reads ≠ some b
  /-- A block that is inserted belongs to its thread. -/
  owned : ∀ thread other, thread ≠ other → ∀ i, (s.stage thread).inserts = some i →
    (s.stage other).inserts ≠ some i ∧ (s.stage other).dels ≠ some i
  covered : ∀ [DecidablePred s.Pending], Covered s.table s.Pending

/-- The map has the blocks of the table, and the same ones pending. -/
structure Abstracts (m : PendingMap) : Prop where
  block : ∀ key i, m.block key = some i ↔ s.table.Attached i ∧ s.table.key i = key
  pending : ∀ i, m.pending i ↔ s.Pending i

end Invariant

/-! ### Frames -/

/-- What a thread's stage is about is as before. -/
structure Undisturbed (t after : Cbht) (stage : CbhtStage) : Prop where
  bucketDepth : after.bucketDepth = t.bucketDepth
  buckets : t.buckets ≤ after.buckets
  held : ∀ b, stage.reads = some b ∨ stage.writes = some b →
    (after.bucket b).depth = (t.bucket b).depth ∧ (after.bucket b).id = (t.bucket b).id
  inserts : ∀ i, stage.inserts = some i → after.itb i = t.itb i
  dels : ∀ i, stage.dels = some i → (after.itb i).hash = (t.itb i).hash
  found : ∀ x b o, stage = .found x b o → (after.itb x).be = (t.itb x).be

section Frames

variable {hvfsHash : U64 → U64 → U64} {t after : Cbht} {stage : CbhtStage}

theorem Undisturbed.refl (t : Cbht) (stage : CbhtStage) : Undisturbed t t stage :=
  ⟨rfl, Nat.le_refl _, fun _ _ => ⟨rfl, rfl⟩, fun _ _ => rfl, fun _ _ => rfl, fun _ _ _ _ => rfl⟩

theorem Undisturbed.serves (same : Undisturbed t after stage) {b : Nat} {hash : U64}
    (held : stage.reads = some b ∨ stage.writes = some b) (serves : Serves t b hash) :
    Serves after b hash := by
  obtain ⟨depth, id⟩ := same.held b held
  refine ⟨lt_of_lt_of_le serves.1 same.buckets, ?_⟩
  rw [depth, id, Cbht.high, same.bucketDepth]
  exact serves.2

theorem Undisturbed.ready (same : Undisturbed t after stage) {i : Nat}
    (inserts : stage.inserts = some i) (ready : Ready hvfsHash t i) : Ready hvfsHash after i := by
  unfold Ready
  rw [same.inserts i inserts]
  exact ready

/-- A thread may rely on what it relied on. -/
theorem StageServed.undisturbed (served : StageServed hvfsHash t stage)
    (same : Undisturbed t after stage) : StageServed hvfsHash after stage := by
  cases stage with
  | idle => trivial
  | seek op =>
    rintro i rfl
    exact same.ready rfl (served i rfl)
  | locked op b sdepth =>
    have hash : op.hash hvfsHash after = op.hash hvfsHash t := by
      cases op with
      | insert i => exact congrArg Itbh.hash (same.inserts i rfl)
      | search puuid itbid => rfl
      | del i => exact same.dels i rfl
    refine ⟨?_, ?_⟩
    · rw [hash]
      exact same.serves (Or.inl rfl) served.1
    · rintro i rfl
      exact same.ready rfl (served.2 i rfl)
  | overfull i b sdepth => exact ⟨lt_of_lt_of_le served.1 same.buckets, same.ready rfl served.2⟩
  | split i b => exact ⟨lt_of_lt_of_le served.1 same.buckets, same.ready rfl served.2⟩
  | room i b =>
    refine ⟨?_, same.ready rfl served.2⟩
    rw [same.inserts i rfl]
    exact same.serves (Or.inl rfl) served.1
  | hung i b =>
    refine ⟨lt_of_lt_of_le served.1 same.buckets, ?_⟩
    rw [same.inserts i rfl, Cbht.low, same.bucketDepth]
    exact served.2
  | walk puuid itbid b => exact same.serves (Or.inl rfl) served
  | entry x b o => exact lt_of_lt_of_le served same.buckets
  | inserted x b o => exact lt_of_lt_of_le served same.buckets
  | found x b o =>
    refine ⟨lt_of_lt_of_le served.1 same.buckets, ?_⟩
    rw [same.found x b o rfl]
    exact served.2

/-- A bucket that a thread holds a lock of exists. -/
theorem StageServed.present (served : StageServed hvfsHash t stage) {b : Nat}
    (holds : stage.reads = some b ∨ stage.writes = some b) : b < t.buckets := by
  cases stage with
  | idle => exact holds.elim (by rintro ⟨⟩) (by rintro ⟨⟩)
  | seek op => exact holds.elim (by rintro ⟨⟩) (by rintro ⟨⟩)
  | overfull i c sdepth => exact holds.elim (by rintro ⟨⟩) (by rintro ⟨⟩)
  | locked op c sdepth =>
    obtain rfl := Option.some.inj (holds.resolve_right (by rintro ⟨⟩))
    exact served.1.1
  | room i c =>
    obtain rfl := Option.some.inj (holds.resolve_right (by rintro ⟨⟩))
    exact served.1.1
  | walk puuid itbid c =>
    obtain rfl := Option.some.inj (holds.resolve_right (by rintro ⟨⟩))
    exact served.1
  | entry x c o =>
    obtain rfl := Option.some.inj (holds.resolve_right (by rintro ⟨⟩))
    exact served
  | inserted x c o =>
    obtain rfl := Option.some.inj (holds.resolve_right (by rintro ⟨⟩))
    exact served
  | split i c =>
    obtain rfl := Option.some.inj (holds.resolve_left (by rintro ⟨⟩))
    exact served.1
  | hung i c =>
    obtain rfl := Option.some.inj (holds.resolve_right (by rintro ⟨⟩))
    exact served.1
  | found x c o =>
    obtain rfl := Option.some.inj (holds.resolve_right (by rintro ⟨⟩))
    exact served.1

/-- A block that a thread inserts is not in the table yet, or in a bucket that it holds. -/
theorem StageServed.inserting (served : StageServed hvfsHash t stage) {i : Nat}
    (inserts : stage.inserts = some i) : (t.itb i).be = none ∨
      ∃ b o, stage.reads = some b ∧ (t.itb i).be = some (b, o) := by
  cases stage with
  | idle => cases inserts
  | walk puuid itbid c => cases inserts
  | entry x c o => cases inserts
  | inserted x c o => cases inserts
  | found x c o => cases inserts
  | seek op =>
    cases op with
    | insert j =>
      obtain rfl := Option.some.inj inserts
      exact Or.inl (served j rfl).1
    | _ => cases inserts
  | locked op c sdepth =>
    cases op with
    | insert j =>
      obtain rfl := Option.some.inj inserts
      exact Or.inl (served.2 j rfl).1
    | _ => cases inserts
  | overfull j c sdepth =>
    obtain rfl := Option.some.inj inserts
    exact Or.inl served.2.1
  | split j c =>
    obtain rfl := Option.some.inj inserts
    exact Or.inl served.2.1
  | room j c =>
    obtain rfl := Option.some.inj inserts
    exact Or.inl served.2.1
  | hung j c =>
    obtain rfl := Option.some.inj inserts
    exact Or.inr ⟨c, _, rfl, served.2⟩

end Frames

/-! ### Locks and owners -/

/-- What the other threads leave to a thread at a stage: the locks and the blocks. -/
structure Permitted {Thread : Type} (s : CbhtSystem Thread) (thread : Thread) (stage : CbhtStage) :
    Prop where
  writes : ∀ b, stage.writes = some b → ∀ other, other ≠ thread →
    (s.stage other).writes ≠ some b ∧ (s.stage other).reads ≠ some b
  reads : ∀ b, stage.reads = some b → ∀ other, other ≠ thread → (s.stage other).writes ≠ some b
  inserts : ∀ i, stage.inserts = some i → ∀ other, other ≠ thread →
    (s.stage other).inserts ≠ some i ∧ (s.stage other).dels ≠ some i
  dels : ∀ i, stage.dels = some i → ∀ other, other ≠ thread → (s.stage other).inserts ≠ some i

section Moves

variable {Thread : Type} {hvfsHash : U64 → U64 → U64} {s : CbhtSystem Thread} {thread : Thread}
  {stage : CbhtStage} {table : Cbht} {m : PendingMap}

theorem Shared.permitted (shared : Shared hvfsHash s) (thread : Thread) :
    Permitted s thread (s.stage thread) where
  writes b holds other different := shared.exclusive thread other different.symm b holds
  reads b holds other different writes := (shared.exclusive other thread different b writes).2 holds
  inserts i works other different := shared.owned thread other different.symm i works
  dels i works other different inserts := (shared.owned other thread different i inserts).2 works

/-- A stage that needs no more than another. -/
theorem Permitted.less {old : CbhtStage} (permitted : Permitted s thread old)
    (writes : ∀ b, stage.writes = some b → old.writes = some b)
    (reads : ∀ b, stage.reads = some b → old.reads = some b)
    (inserts : ∀ i, stage.inserts = some i → old.inserts = some i)
    (dels : ∀ i, stage.dels = some i → old.dels = some i) : Permitted s thread stage where
  writes b holds := permitted.writes b (writes b holds)
  reads b holds := permitted.reads b (reads b holds)
  inserts i works := permitted.inserts i (inserts i works)
  dels i works := permitted.dels i (dels i works)

variable [DecidableEq Thread]

/-- The blocks that are pending after a step of a thread. -/
theorem pending_iff (s : CbhtSystem Thread) (thread : Thread) (stage : CbhtStage) (table : Cbht)
    (history : List CbhtEffect) (i : Nat) :
    CbhtSystem.Pending ⟨table, Function.update s.stage thread stage, history⟩ i ↔
      stage.pends = some i ∨ ∃ other, other ≠ thread ∧ (s.stage other).pends = some i := by
  unfold CbhtSystem.Pending
  simp only [Function.update_apply]
  constructor
  · rintro ⟨other, pends⟩
    by_cases here : other = thread
    · exact Or.inl (by rwa [if_pos here] at pends)
    · exact Or.inr ⟨other, here, by rwa [if_neg here] at pends⟩
  · rintro (pends | ⟨other, different, pends⟩)
    · exact ⟨thread, by rwa [if_pos rfl]⟩
    · exact ⟨other, by rwa [if_neg different]⟩

/-- A step that neither hangs nor counts a block leaves the same blocks pending. -/
theorem pending_same (old : (s.stage thread).pends = none) (new : stage.pends = none)
    (table : Cbht) (history : List CbhtEffect) (i : Nat) :
    CbhtSystem.Pending ⟨table, Function.update s.stage thread stage, history⟩ i ↔ s.Pending i := by
  rw [pending_iff]
  constructor
  · rintro (pends | ⟨other, -, pends⟩)
    · rw [new] at pends
      cases pends
    · exact ⟨other, pends⟩
  · rintro ⟨other, pends⟩
    refine Or.inr ⟨other, ?_, pends⟩
    rintro rfl
    rw [old] at pends
    cases pends

/-- A step of one thread that leaves the others undisturbed. -/
theorem Shared.move (shared : Shared hvfsHash s) (history : List CbhtEffect)
    (dir : CbhtDirected table) (hung : CbhtHung hvfsHash table)
    (own : StageServed hvfsHash table stage)
    (others : ∀ other, other ≠ thread → Undisturbed s.table table (s.stage other))
    (permitted : Permitted s thread stage)
    (covered : ∀ [DecidablePred
        (CbhtSystem.Pending ⟨table, Function.update s.stage thread stage, history⟩)],
      Covered table (CbhtSystem.Pending ⟨table, Function.update s.stage thread stage, history⟩)) :
    Shared hvfsHash ⟨table, Function.update s.stage thread stage, history⟩ where
  dir := dir
  hung := hung
  stages other := by
    rcases eq_or_ne other thread with rfl | different
    · simp only [Function.update_self]
      exact own
    · simp only [Function.update_of_ne different]
      exact (shared.stages other).undisturbed (others other different)
  exclusive first second apart b holds := by
    simp only [Function.update_apply] at holds ⊢
    by_cases isFirst : first = thread
    · rw [if_pos isFirst] at holds
      have isSecond : second ≠ thread := fun same => apart (isFirst.trans same.symm)
      rw [if_neg isSecond]
      exact permitted.writes b holds second isSecond
    · rw [if_neg isFirst] at holds
      by_cases isSecond : second = thread
      · rw [if_pos isSecond]
        exact ⟨fun writes => (permitted.writes b writes first isFirst).1 holds,
          fun reads => permitted.reads b reads first isFirst holds⟩
      · rw [if_neg isSecond]
        exact shared.exclusive first second apart b holds
  owned first second apart i works := by
    simp only [Function.update_apply] at works ⊢
    by_cases isFirst : first = thread
    · rw [if_pos isFirst] at works
      have isSecond : second ≠ thread := fun same => apart (isFirst.trans same.symm)
      rw [if_neg isSecond]
      exact permitted.inserts i works second isSecond
    · rw [if_neg isFirst] at works
      by_cases isSecond : second = thread
      · rw [if_pos isSecond]
        exact ⟨fun inserts => (permitted.inserts i inserts first isFirst).1 works,
          fun dels => permitted.dels i dels first isFirst works⟩
      · rw [if_neg isSecond]
        exact shared.owned first second apart i works
  covered := covered

/-- A step that only changes the stage of its thread. -/
theorem Shared.stay (shared : Shared hvfsHash s) (history : List CbhtEffect)
    (own : StageServed hvfsHash s.table stage) (permitted : Permitted s thread stage)
    (old : (s.stage thread).pends = none) (new : stage.pends = none) :
    Shared hvfsHash ⟨s.table, Function.update s.stage thread stage, history⟩ := by
  classical
  refine shared.move history shared.dir shared.hung own (fun _ _ => .refl _ _) permitted ?_
  intro decidable
  exact shared.covered.congr (pending_same old new s.table history)

theorem Abstracts.stay (abstracts : Abstracts s m) (history : List CbhtEffect)
    (old : (s.stage thread).pends = none) (new : stage.pends = none) :
    Abstracts ⟨s.table, Function.update s.stage thread stage, history⟩ m where
  block := abstracts.block
  pending i := by rw [pending_same old new, abstracts.pending]

end Moves

/-! ### Steps on the table -/

section TableSteps

variable {Thread : Type} {hvfsHash : U64 → U64 → U64} {s : CbhtSystem Thread} {thread : Thread}
  {m : PendingMap} {i b o : Nat}

theorem Serves.searchDir {t : Cbht} {hash : U64} (serves : Serves t b hash)
    (dir : CbhtDirected t) : mdsCbhtSearchDir t hash = some b :=
  (dir.searchDir_iff serves.1 hash).mpr serves.2

theorem Shared.served (shared : Shared hvfsHash s) {stage : CbhtStage}
    (at_ : s.stage thread = stage) : StageServed hvfsHash s.table stage :=
  at_ ▸ shared.stages thread

theorem Shared.permits (shared : Shared hvfsHash s) {stage : CbhtStage}
    (at_ : s.stage thread = stage) : Permitted s thread stage :=
  at_ ▸ shared.permitted thread

/-- The map has the block that the chain of a key has. -/
theorem Abstracts.find_iff (abstracts : Abstracts s m) (shared : Shared hvfsHash s)
    (puuid itbid : U64) (serves : Serves s.table b (hvfsHash puuid itbid)) (x : Nat) :
    ((s.table.bucket b).content (s.table.low (hvfsHash puuid itbid))).find?
      (s.table.keyIs puuid itbid) = some x ↔ m.block (puuid, itbid) = some x := by
  rw [abstracts.block]
  exact shared.hung.find_iff shared.dir (serves.searchDir shared.dir)

theorem Abstracts.find_eq (abstracts : Abstracts s m) (shared : Shared hvfsHash s)
    (puuid itbid : U64) (serves : Serves s.table b (hvfsHash puuid itbid)) :
    ((s.table.bucket b).content (s.table.low (hvfsHash puuid itbid))).find?
      (s.table.keyIs puuid itbid) = m.block (puuid, itbid) :=
  Option.ext (abstracts.find_iff shared puuid itbid serves)

variable [DecidableEq Thread]

/-- The block that is hung is pending until it is counted. -/
theorem pending_hung (at_ : s.stage thread = .room i b) (table : Cbht)
    (history : List CbhtEffect) (j : Nat) :
    CbhtSystem.Pending ⟨table, Function.update s.stage thread (.hung i b), history⟩ j ↔
      j = i ∨ s.Pending j := by
  rw [pending_iff]
  constructor
  · rintro (pends | ⟨other, -, pends⟩)
    · exact Or.inl (Option.some.inj pends).symm
    · exact Or.inr ⟨other, pends⟩
  · rintro (rfl | ⟨other, pends⟩)
    · exact Or.inl rfl
    · refine Or.inr ⟨other, ?_, pends⟩
      rintro rfl
      rw [at_] at pends
      cases pends

theorem pending_counted (shared : Shared hvfsHash s) (at_ : s.stage thread = .hung i b) (o : Nat)
    (table : Cbht) (history : List CbhtEffect) (j : Nat) :
    CbhtSystem.Pending ⟨table, Function.update s.stage thread (.entry i b o), history⟩ j ↔
      j ≠ i ∧ s.Pending j := by
  rw [pending_iff]
  constructor
  · rintro (pends | ⟨other, different, pends⟩)
    · cases pends
    · refine ⟨?_, other, pends⟩
      rintro rfl
      exact ((shared.permits at_).inserts j rfl other different).1 (inserts_of_pends pends)
  · rintro ⟨apart, other, pends⟩
    refine Or.inr ⟨other, ?_, pends⟩
    rintro rfl
    rw [at_] at pends
    exact apart (Option.some.inj pends).symm

/-- A free block that no thread works on gets the header of an insertion. -/
theorem Shared.begin (shared : Shared hvfsHash s) (history : List CbhtEffect)
    (idle : s.stage thread = .idle) (free : (s.table.itb i).be = none) (unused : s.Unused i)
    (puuid itbid : U64) :
    Shared hvfsHash ⟨s.table.setItb i ⟨puuid, itbid, hvfsHash puuid itbid, none⟩,
      Function.update s.stage thread (.seek (.insert i)), history⟩ := by
  classical
  obtain ⟨header, same⟩ :
    ∃ header : Itbh, header = ⟨puuid, itbid, hvfsHash puuid itbid, none⟩ := ⟨_, rfl⟩
  rw [← same]
  have stays : header.be = none := by rw [same]
  have atBlock : (s.table.setItb i header).itb i = header := Function.update_self _ _ _
  have atOther : ∀ j, j ≠ i → (s.table.setItb i header).itb j = s.table.itb j :=
    fun j different => Function.update_of_ne different _ _
  refine shared.move history (shared.dir.setItb i header) (shared.hung.setItb free stays) ?_
    (fun other _ => ?_) ⟨by rintro _ ⟨⟩, by rintro _ ⟨⟩, ?_, by rintro _ ⟨⟩⟩ ?_
  · rintro j ⟨⟩
    unfold Ready
    rw [atBlock, same]
    exact ⟨rfl, rfl⟩
  · refine ⟨rfl, le_refl _, fun _ _ => ⟨rfl, rfl⟩, fun j inserts => atOther j ?_,
      fun j dels => congrArg Itbh.hash (atOther j ?_), fun x c k found => ?_⟩
    · rintro rfl
      exact (unused other).1 inserts
    · rintro rfl
      exact (unused other).2 dels
    · rcases eq_or_ne x i with rfl | different
      · rw [atBlock, stays, free]
      · rw [atOther x different]
  · rintro j ⟨⟩ other _
    exact unused other
  · intro decidable
    refine (shared.covered.setItb i header).congr (pending_same ?_ rfl _ history)
    rw [idle]
    rfl

/-- A block under its key goes to the head of its chain. -/
theorem Shared.hang (shared : Shared hvfsHash s) (history : List CbhtEffect)
    (at_ : s.stage thread = .room i b)
    (absent : ∀ j, s.table.Attached j → s.table.key j ≠ s.table.key i) :
    Shared hvfsHash ⟨s.table.hang i b (s.table.low (s.table.itb i).hash) (s.table.bucket b).active,
      Function.update s.stage thread (.hung i b), history⟩ := by
  classical
  obtain ⟨serves, free, hashed⟩ := shared.served at_
  have permitted := shared.permits at_
  have search := serves.searchDir shared.dir
  obtain ⟨o, place⟩ : ∃ o, o = s.table.low (s.table.itb i).hash := ⟨_, rfl⟩
  obtain ⟨active, same⟩ : ∃ active, active = (s.table.bucket b).active := ⟨_, rfl⟩
  have hung := shared.hung.hang shared.dir search hashed absent active
  rw [← place, ← same]
  rw [← place] at hung
  have fields := hang_fields s.table i b o active
  have atBlock : (s.table.hang i b o active).itb i = { s.table.itb i with be := some (b, o) } :=
    Function.update_self _ _ _
  have atOther : ∀ j, j ≠ i → (s.table.hang i b o active).itb j = s.table.itb j :=
    fun j different => Function.update_of_ne different _ _
  refine shared.move history (shared.dir.hang i b o active) hung ?_ (fun other different => ?_)
    (permitted.less (by rintro _ ⟨⟩) (fun _ => id) (fun _ => id) (by rintro _ ⟨⟩)) ?_
  · refine ⟨serves.1, ?_⟩
    rw [atBlock]
    exact congrArg (fun o => some (b, o)) place
  · refine ⟨rfl, le_refl _, fun c _ => ⟨(fields c).1, (fields c).2.1⟩, fun j inserts => ?_,
      fun j _ => ?_, fun x c k found => ?_⟩
    · refine atOther j ?_
      rintro rfl
      exact (permitted.inserts j rfl other different).1 inserts
    · rcases eq_or_ne j i with rfl | apart
      · rw [atBlock]
      · rw [atOther j apart]
    · have be := (shared.served found).2
      rw [atOther]
      rintro rfl
      rw [free] at be
      cases be
  · intro decidable
    subst same
    exact shared.covered.hang (pending_hung at_ _ history)

/-- A hung block is counted. -/
theorem Shared.count (shared : Shared hvfsHash s) (history : List CbhtEffect)
    (at_ : s.stage thread = .hung i b) (o : Nat) :
    Shared hvfsHash ⟨s.table.count b, Function.update s.stage thread (.entry i b o), history⟩ := by
  classical
  obtain ⟨present, be⟩ := shared.served at_
  have permitted := shared.permits at_
  have fields := count_fields s.table b
  refine shared.move history (shared.dir.count b) (shared.hung.count b) present
    (fun other _ => ?_) (permitted.less (by rintro _ ⟨⟩) (fun _ => id) (by rintro _ ⟨⟩)
      (by rintro _ ⟨⟩)) ?_
  · exact ⟨rfl, le_refl _, fun c _ => ⟨(fields c).1, (fields c).2.1⟩, fun _ _ => rfl,
      fun _ _ => rfl, fun _ _ _ _ => rfl⟩
  · intro decidable
    exact shared.covered.count shared.hung be (pending_counted shared at_ o _ history)

/-- A block is taken off its chain, while no thread holds the bucket entry. -/
theorem Shared.detach (shared : Shared hvfsHash s) (history : List CbhtEffect) {sdepth : Nat}
    (at_ : s.stage thread = .locked (.del i) b sdepth) (be : (s.table.itb i).be = some (b, o))
    (unlocked : ¬s.EntryLocked b o) :
    Shared hvfsHash
      ⟨s.table.detach i b o, Function.update s.stage thread .idle, history⟩ := by
  classical
  have permitted := shared.permits at_
  have fields := detach_fields s.table i b o
  have atBlock : (s.table.detach i b o).itb i = { s.table.itb i with be := none } :=
    Function.update_self _ _ _
  have atOther : ∀ j, j ≠ i → (s.table.detach i b o).itb j = s.table.itb j :=
    fun j different => Function.update_of_ne different _ _
  refine shared.move history (shared.dir.detach i b o) (shared.hung.detach be) trivial
    (fun other different => ?_) (permitted.less (by rintro _ ⟨⟩) (by rintro _ ⟨⟩) (by rintro _ ⟨⟩)
      (by rintro _ ⟨⟩)) ?_
  · refine ⟨rfl, le_refl _, fun c _ => ⟨(fields c).1, (fields c).2.1⟩, fun j inserts => ?_,
      fun j _ => ?_, fun x c k found => ?_⟩
    · refine atOther j ?_
      rintro rfl
      exact permitted.dels j rfl other different inserts
    · rcases eq_or_ne j i with rfl | apart
      · rw [atBlock]
      · rw [atOther j apart]
    · have there := (shared.served found).2
      rw [atOther]
      rintro rfl
      rw [be] at there
      refine unlocked ⟨other, ?_⟩
      rw [found]
      exact there.symm
  · intro decidable
    refine (shared.covered.detach i b o).congr (pending_same ?_ rfl _ history)
    rw [at_]
    rfl

/-- The map takes the block that is hung. -/
theorem Abstracts.hang (abstracts : Abstracts s m)
    (absent : ∀ j, s.table.Attached j → s.table.key j ≠ s.table.key i)
    (history : List CbhtEffect) (at_ : s.stage thread = .room i b) {active : Int} :
    Abstracts ⟨s.table.hang i b o active, Function.update s.stage thread (.hung i b), history⟩
      ⟨Function.update m.block (s.table.key i) (some i), fun j => j = i ∨ m.pending j⟩ where
  block key j := by
    have keys : ∀ j, (s.table.hang i b o active).key j = s.table.key j := by
      intro j
      rcases eq_or_ne j i with rfl | different
      · simp only [Cbht.key, Cbht.hang, Function.update_self]
      · simp only [Cbht.key, Cbht.hang, Function.update_of_ne different]
    have attached : (s.table.hang i b o active).Attached j ↔ j = i ∨ s.table.Attached j := by
      rcases eq_or_ne j i with rfl | different
      · simp only [Cbht.Attached, Cbht.hang, Function.update_self, ne_eq, reduceCtorEq,
          not_false_eq_true, true_or]
      · simp only [Cbht.Attached, Cbht.hang, Function.update_of_ne different, different, false_or]
    rw [attached, keys]
    simp only [Function.update_apply]
    split_ifs with same
    · subst same
      constructor
      · intro is
        obtain rfl := Option.some.inj is
        exact ⟨Or.inl rfl, rfl⟩
      · rintro ⟨rfl | there, same⟩
        · rfl
        · exact absurd same (absent j there)
    · rw [abstracts.block]
      constructor
      · rintro ⟨there, is⟩
        exact ⟨Or.inr there, is⟩
      · rintro ⟨rfl | there, is⟩
        · exact absurd is.symm same
        · exact ⟨there, is⟩
  pending j :=
    (or_congr Iff.rfl (abstracts.pending j)).trans (pending_hung at_ _ history j).symm

theorem Abstracts.count (abstracts : Abstracts s m) (shared : Shared hvfsHash s)
    (history : List CbhtEffect) (at_ : s.stage thread = .hung i b) (o : Nat) :
    Abstracts ⟨s.table.count b, Function.update s.stage thread (.entry i b o), history⟩
      { m with pending := fun j => j ≠ i ∧ m.pending j } where
  block := abstracts.block
  pending j :=
    (and_congr Iff.rfl (abstracts.pending j)).trans (pending_counted shared at_ o _ history j).symm

/-- The map loses the block that is taken off its chain. -/
theorem Abstracts.detach (abstracts : Abstracts s m) (attached : s.table.Attached i)
    (history : List CbhtEffect) {sdepth : Nat} (at_ : s.stage thread = .locked (.del i) b sdepth)
    (c o : Nat) :
    Abstracts ⟨s.table.detach i c o, Function.update s.stage thread .idle, history⟩
      { m with block := Function.update m.block (s.table.key i) none } where
  block key j := by
    have keys : ∀ j, (s.table.detach i c o).key j = s.table.key j := by
      intro j
      rcases eq_or_ne j i with rfl | different
      · simp only [Cbht.key, Cbht.detach, Function.update_self]
      · simp only [Cbht.key, Cbht.detach, Function.update_of_ne different]
    have left : (s.table.detach i c o).Attached j ↔ j ≠ i ∧ s.table.Attached j := by
      rcases eq_or_ne j i with rfl | different
      · simp only [Cbht.Attached, Cbht.detach, Function.update_self, ne_eq, not_true_eq_false,
          false_and]
      · simp only [Cbht.Attached, Cbht.detach, Function.update_of_ne different, ne_eq, different,
          not_false_eq_true, true_and]
    have here := (abstracts.block (s.table.key i) i).mpr ⟨attached, rfl⟩
    rw [left, keys]
    simp only [Function.update_apply]
    split_ifs with same
    · subst same
      refine iff_of_false (by rintro ⟨⟩) ?_
      rintro ⟨⟨apart, there⟩, is⟩
      have second := (abstracts.block (s.table.key i) j).mpr ⟨there, is⟩
      rw [here] at second
      exact apart (Option.some.inj second).symm
    · rw [abstracts.block]
      constructor
      · rintro ⟨there, is⟩
        refine ⟨⟨?_, there⟩, is⟩
        rintro rfl
        exact same is.symm
      · rintro ⟨⟨-, there⟩, is⟩
        exact ⟨there, is⟩
  pending j :=
    (abstracts.pending j).trans (pending_same (by rw [at_]; rfl) rfl _ history j).symm

/-- A level of a split, to any stage that the thread may go to. -/
theorem Shared.level (shared : Shared hvfsHash s) (history : List CbhtEffect) {ob : Nat}
    (at_ : s.stage thread = .split i ob) (shallow : (s.table.bucket ob).depth + 1 < 31) :
    ∃ final, cbhtUpdateDir (splitLevel s.table ob).2 s.table.buckets = .ok (0, final) ∧
      final.bucket = (splitLevel s.table ob).2.bucket ∧
      (∀ j, final.key j = s.table.key j) ∧ (∀ j, final.Attached j ↔ s.table.Attached j) ∧
      ∀ stage, stage = .seek (.insert i) ∨ stage = .split i ob ∨
          stage = .split i s.table.buckets →
        Shared hvfsHash ⟨final, Function.update s.stage thread stage, history⟩ := by
  classical
  obtain ⟨present, ready⟩ := shared.served at_
  have permitted := shared.permits at_
  obtain ⟨final, updated, dir, hung, bucketDepth, buckets, bucket, itb⟩ :=
    shared.hung.level shared.dir present shallow
  obtain ⟨_, leveled⟩ := splitLevel_leveled s.table present
  have same := leveled.sameItbs shared.hung present
  have away : ∀ {j : Nat}, (∀ o, (s.table.itb j).be ≠ some (ob, o)) →
      final.itb j = s.table.itb j := fun away => by
    rw [itb]
    exact leveled.itb_away shared.hung present away
  have unattached : ∀ {j : Nat}, (s.table.itb j).be = none → final.itb j = s.table.itb j := by
    intro j free
    refine away fun o be => ?_
    rw [free] at be
    cases be
  have readyAfter : Ready hvfsHash final i := by
    unfold Ready
    rw [unattached ready.1]
    exact ready
  -- the buckets that other threads hold are not the two of the level
  have apart : ∀ other, other ≠ thread → ∀ b,
      (s.stage other).reads = some b ∨ (s.stage other).writes = some b → b ≠ ob := by
    rintro other different b holds rfl
    obtain ⟨writes, reads⟩ := permitted.writes b rfl other different
    exact holds.elim reads writes
  have elsewhere : ∀ other, other ≠ thread → ∀ {j b o}, (s.table.itb j).be = some (b, o) →
      (s.stage other).reads = some b → final.itb j = s.table.itb j := by
    intro other different j b o be reads
    refine away fun k here => apart other different b (Or.inl reads) ?_
    rw [be] at here
    exact congrArg Prod.fst (Option.some.inj here)
  have pends : ∀ stage : CbhtStage, stage = .seek (.insert i) ∨ stage = .split i ob ∨
      stage = .split i s.table.buckets → stage.pends = none := by
    rintro _ (rfl | rfl | rfl) <;> rfl
  refine ⟨final, updated, bucket, fun j => ?_, fun j => ?_, fun stage next => ?_⟩
  · unfold Cbht.key
    rw [itb, same.puuid, same.itbid]
  · unfold Cbht.Attached
    rw [itb]
    exact not_congr (same.attached j)
  refine shared.move history dir hung ?_ (fun other different => ?_) ?_ ?_
  · rcases next with rfl | rfl | rfl
    · rintro j ⟨⟩
      exact readyAfter
    · exact ⟨by omega, readyAfter⟩
    · exact ⟨by omega, readyAfter⟩
  · refine ⟨bucketDepth, by omega, fun b holds => ?_, fun j inserts => ?_, fun j _ => ?_,
      fun x b o found => ?_⟩
    · have below := (shared.stages other).present holds
      rw [bucket, leveled.other b (apart other different b holds) (Nat.ne_of_lt below)]
      exact ⟨rfl, rfl⟩
    · rcases (shared.stages other).inserting inserts with free | ⟨b, o, reads, be⟩
      · exact unattached free
      · exact elsewhere other different be reads
    · rw [itb]
      exact same.hash j
    · rw [elsewhere other different (shared.served found).2 (by rw [found]; rfl)]
  · rcases next with rfl | rfl | rfl
    · exact permitted.less (by rintro _ ⟨⟩) (by rintro _ ⟨⟩) (fun _ => id) (by rintro _ ⟨⟩)
    · exact permitted
    · refine ⟨?_, by rintro _ ⟨⟩, permitted.inserts, by rintro _ ⟨⟩⟩
      rintro b ⟨⟩ other different
      exact ⟨fun writes => Nat.lt_irrefl _ ((shared.stages other).present (Or.inr writes)),
        fun reads => Nat.lt_irrefl _ ((shared.stages other).present (Or.inl reads))⟩
  · intro decidable
    have whole : Covered final s.Pending := by
      refine shared.covered.level present ?_ bucketDepth buckets bucket
      rintro o low j member ⟨other, pends⟩
      have different : other ≠ thread := by
        rintro rfl
        rw [at_] at pends
        cases pends
      have be := (shared.hung.placed j ob o).mpr ⟨present, low, member⟩
      rcases (shared.stages other).inserting (inserts_of_pends pends) with
        free | ⟨b, k, reads, place⟩
      · rw [be] at free
        cases free
      · rw [be] at place
        obtain ⟨rfl, -⟩ := Prod.mk.inj (Option.some.inj place)
        exact apart other different _ (Or.inl reads) rfl
    exact whole.congr (pending_same (by rw [at_]; rfl) (pends stage next) final history)

end TableSteps

end Hvfs
