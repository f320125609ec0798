/-
This file proves that what the threads do to a CBHT, in the order of their
steps, is what one map from keys to blocks does, and that its locks do not
deadlock.
-/

import Hvfs.CbhtAtomic
import Hvfs.Hash

namespace Hvfs

open Transition

/-! ### What a step keeps -/

/-- The map stays, or takes the effect that the step adds to the history. -/
def Followed {Thread : Type} (s : CbhtSystem Thread) (m : PendingMap) (next : CbhtSystem Thread) :
    Prop :=
  ∃ after, Abstracts next after ∧ ((next.history = s.history ∧ after = m) ∨
    ∃ effect, next.history = s.history ++ [effect] ∧ m.Step effect after)

section Steps

variable {Thread : Type} [DecidableEq Thread] {hvfsHash : U64 → U64 → U64}
  {s next : CbhtSystem Thread} {thread : Thread} {stage : CbhtStage} {m : PendingMap}

/-- A step that is only a move of its thread. -/
theorem Shared.kept_stay (shared : Shared hvfsHash s) (abstracts : Abstracts s m)
    (own : StageServed hvfsHash s.table stage) (permitted : Permitted s thread stage)
    (old : (s.stage thread).pends = none) (new : stage.pends = none) :
    Shared hvfsHash (s.go thread stage) ∧ Followed s m (s.go thread stage) :=
  ⟨shared.stay s.history own permitted old new,
    m, abstracts.stay s.history old new, Or.inl ⟨rfl, rfl⟩⟩

/-- A step with an effect that leaves the map as it is. -/
theorem Shared.kept_did (shared : Shared hvfsHash s) (abstracts : Abstracts s m)
    {effect : CbhtEffect} (same : m.Step effect m) (own : StageServed hvfsHash s.table stage)
    (permitted : Permitted s thread stage) (old : (s.stage thread).pends = none)
    (new : stage.pends = none) :
    Shared hvfsHash ((s.did effect).go thread stage) ∧
      Followed s m ((s.did effect).go thread stage) :=
  ⟨shared.stay _ own permitted old new, m, abstracts.stay _ old new,
    Or.inr ⟨effect, rfl, same⟩⟩

omit [DecidableEq Thread] in
/-- A stage without a lock and a block of its own. -/
theorem Permitted.free (s : CbhtSystem Thread) (thread : Thread) (writes : stage.writes = none)
    (reads : stage.reads = none) (inserts : stage.inserts = none) (dels : stage.dels = none) :
    Permitted s thread stage := by
  refine ⟨fun b holds => ?_, fun b holds => ?_, fun i works => ?_, fun i works => ?_⟩
  · rw [writes] at holds
    cases holds
  · rw [reads] at holds
    cases holds
  · rw [inserts] at works
    cases works
  · rw [dels] at works
    cases works

/-! ### Steps -/

variable [Fintype Thread]

theorem seek_kept (shared : Shared hvfsHash s) (abstracts : Abstracts s m) {op : CbhtOp}
    (at_ : s.stage thread = .seek op) (stepped : cbhtNext hvfsHash s thread = some next) :
    Shared hvfsHash next ∧ Followed s m next := by
  have served := shared.served at_
  have permitted := shared.permits at_
  have old : (s.stage thread).pends = none := by
    rw [at_]
    rfl
  simp only [cbhtNext, at_] at stepped
  rcases found : mdsCbhtSearchDir s.table (op.hash hvfsHash s.table) with _ | b
  · rw [found] at stepped
    obtain rfl := Option.some.inj stepped
    exact shared.kept_stay abstracts trivial (.free s thread rfl rfl rfl rfl) old rfl
  · simp only [found] at stepped
    split_ifs at stepped with writeLocked
    obtain rfl := Option.some.inj stepped
    have present := shared.dir.searchDir_lt found
    refine shared.kept_stay abstracts
      ⟨⟨present, (shared.dir.searchDir_iff present _).mp found⟩, served⟩ ?_ old rfl
    refine ⟨by rintro _ ⟨⟩, ?_, ?_, ?_⟩
    · rintro _ ⟨⟩ other _ writes
      exact writeLocked ⟨other, writes⟩
    · intro i works
      refine permitted.inserts i ?_
      cases op <;> exact works
    · intro i works
      refine permitted.dels i ?_
      cases op <;> exact works

/-- The bucket is full or has room, looks empty or not; a deletion is done here. -/
theorem locked_kept (shared : Shared hvfsHash s) (abstracts : Abstracts s m) {op : CbhtOp}
    {b sdepth : Nat} (at_ : s.stage thread = .locked op b sdepth)
    (stepped : cbhtNext hvfsHash s thread = some next) :
    Shared hvfsHash next ∧ Followed s m next := by
  obtain ⟨serves, ready⟩ := shared.served at_
  have permitted := shared.permits at_
  have old : (s.stage thread).pends = none := by
    rw [at_]
    rfl
  cases op with
  | insert i =>
    simp only [cbhtNext, at_] at stepped
    split_ifs at stepped with full
    · obtain rfl := Option.some.inj stepped
      exact shared.kept_stay abstracts ⟨serves.1, ready i rfl⟩
        (permitted.less (by rintro _ ⟨⟩) (by rintro _ ⟨⟩) (fun _ => id) (by rintro _ ⟨⟩)) old rfl
    · obtain rfl := Option.some.inj stepped
      exact shared.kept_stay abstracts ⟨serves, ready i rfl⟩
        (permitted.less (by rintro _ ⟨⟩) (fun _ => id) (fun _ => id) (by rintro _ ⟨⟩)) old rfl
  | search puuid itbid =>
    simp only [cbhtNext, at_] at stepped
    split_ifs at stepped with empty
    · obtain rfl := Option.some.inj stepped
      refine shared.kept_did abstracts (.empty m _ fun i there => ?_) trivial
        (.free s thread rfl rfl rfl rfl) old rfl
      classical
      have found := (abstracts.find_iff shared _ _ serves i).mpr there
      exact (abstracts.pending i).mpr (shared.covered.uncounted serves.1 empty
        (low_lt s.table _) (List.mem_of_find?_eq_some found))
    · obtain rfl := Option.some.inj stepped
      exact shared.kept_stay abstracts serves
        (permitted.less (by rintro _ ⟨⟩) (fun _ => id) (by rintro _ ⟨⟩) (by rintro _ ⟨⟩)) old rfl
  | del i =>
    simp only [cbhtNext, at_] at stepped
    obtain ⟨o, low⟩ : ∃ o, o = s.table.low (s.table.itb i).hash := ⟨_, rfl⟩
    rw [← low] at stepped
    split_ifs at stepped with unlocked away
    · obtain rfl := Option.some.inj stepped
      refine shared.kept_did abstracts (.gone m i fun key there => ?_) trivial
        (.free s thread rfl rfl rfl rfl) old rfl
      obtain ⟨c, search, -, be, -⟩ :=
        shared.hung.place shared.dir ((abstracts.block key i).mp there).1
      obtain rfl := Option.some.inj (search.symm.trans (serves.searchDir shared.dir))
      exact away (by rw [be, low])
    · obtain rfl := Option.some.inj stepped
      have be := not_not.mp away
      have attached : s.table.Attached i := by
        unfold Cbht.Attached
        rw [be]
        exact Option.some_ne_none _
      refine ⟨shared.detach _ at_ be unlocked, _, abstracts.detach attached _ at_ b o,
        Or.inr ⟨_, rfl, .del m i _ ((abstracts.block _ i).mpr ⟨attached, rfl⟩)⟩⟩

/-- The write lock comes when no other thread holds the bucket. -/
theorem overfull_kept (shared : Shared hvfsHash s) (abstracts : Abstracts s m) {i b sdepth : Nat}
    (at_ : s.stage thread = .overfull i b sdepth)
    (stepped : cbhtNext hvfsHash s thread = some next) :
    Shared hvfsHash next ∧ Followed s m next := by
  obtain ⟨present, ready⟩ := shared.served at_
  have permitted := shared.permits at_
  have old : (s.stage thread).pends = none := by
    rw [at_]
    rfl
  have again : Shared hvfsHash (s.go thread (.seek (.insert i))) ∧
      Followed s m (s.go thread (.seek (.insert i))) := by
    refine shared.kept_stay abstracts ?_
      (permitted.less (by rintro _ ⟨⟩) (by rintro _ ⟨⟩) (fun _ => id) (by rintro _ ⟨⟩)) old rfl
    rintro j ⟨⟩
    exact ready
  simp only [cbhtNext, at_] at stepped
  split_ifs at stepped with held room stale
  · obtain rfl := Option.some.inj stepped
    exact again
  · obtain rfl := Option.some.inj stepped
    exact again
  · obtain rfl := Option.some.inj stepped
    obtain ⟨unwritten, unread⟩ := not_or.mp held
    refine shared.kept_stay abstracts ⟨present, ready⟩
      ⟨?_, by rintro _ ⟨⟩, permitted.inserts, by rintro _ ⟨⟩⟩ old rfl
    rintro _ ⟨⟩ other _
    exact ⟨fun writes => unwritten ⟨other, writes⟩, fun reads => unread ⟨other, reads⟩⟩

omit [DecidableEq Thread] [Fintype Thread] in
/-- After a level the thread splits one of the two buckets again, or searches again. -/
theorem splitNext_spec {t final : Cbht} {i ob : Nat} (present : ob < t.buckets)
    (shallow : (t.bucket ob).depth + 1 < 31)
    (updated : cbhtUpdateDir (splitLevel t ob).2 t.buckets = .ok (0, final)) :
    ∃ stage : CbhtStage, splitNext t i ob = some (stage, final) ∧
      (stage = .seek (.insert i) ∨ stage = .split i ob ∨ stage = .split i t.buckets) := by
  have name : (splitLevel t ob).1 = t.buckets := (splitLevel_leveled t present).1
  unfold splitNext
  rw [if_neg (not_le.mpr shallow)]
  simp only [name, updated, ne_eq, not_true_eq_false, if_false]
  split_ifs
  · exact ⟨_, rfl, Or.inr (Or.inl rfl)⟩
  · exact ⟨_, rfl, Or.inr (Or.inr rfl)⟩
  · exact ⟨_, rfl, Or.inl rfl⟩

/-- A level of a split moves blocks, and the map does not change. -/
theorem split_kept (shared : Shared hvfsHash s) (abstracts : Abstracts s m) {i ob : Nat}
    (at_ : s.stage thread = .split i ob) (stepped : cbhtNext hvfsHash s thread = some next) :
    Shared hvfsHash next ∧ Followed s m next := by
  obtain ⟨present, -⟩ := shared.served at_
  simp only [cbhtNext, at_] at stepped
  by_cases deep : (s.table.bucket ob).depth + 1 ≥ 31
  · unfold splitNext at stepped
    rw [if_pos deep] at stepped
    cases stepped
  have shallow := not_le.mp deep
  obtain ⟨final, updated, bucket, key, attached, kept⟩ := shared.level s.history at_ shallow
  obtain ⟨stage, split, goes⟩ := splitNext_spec (i := i) present shallow updated
  rw [split] at stepped
  obtain rfl := Option.some.inj stepped
  refine ⟨kept stage goes, m, ⟨fun k j => ?_, fun j => ?_⟩, Or.inl ⟨rfl, rfl⟩⟩
  · change m.block k = some j ↔ final.Attached j ∧ final.key j = k
    rw [abstracts.block, attached, key]
  · refine (abstracts.pending j).trans (pending_same (by rw [at_]; rfl) ?_ _ s.history j).symm
    rcases goes with rfl | rfl | rfl <;> rfl

/-- The chain has the key, or the block is hung. -/
theorem room_kept (shared : Shared hvfsHash s) (abstracts : Abstracts s m) {i b : Nat}
    (at_ : s.stage thread = .room i b) (stepped : cbhtNext hvfsHash s thread = some next) :
    Shared hvfsHash next ∧ Followed s m next := by
  obtain ⟨serves, free, hashed⟩ := shared.served at_
  have permitted := shared.permits at_
  have chain := abstracts.find_eq shared (s.table.itb i).puuid (s.table.itb i).itbid
    (hashed ▸ serves)
  rw [← hashed] at chain
  simp only [cbhtNext, at_, chain] at stepped
  split_ifs at stepped with entryLocked
  rcases looked : m.block (s.table.key i) with _ | oi
  · simp only [Cbht.key] at looked
    simp only [looked] at stepped
    obtain rfl := Option.some.inj stepped
    have absent : ∀ j, s.table.Attached j → s.table.key j ≠ s.table.key i := by
      intro j attached same
      have there := (abstracts.block _ j).mpr ⟨attached, same⟩
      unfold Cbht.key at there
      rw [looked] at there
      cases there
    exact ⟨shared.hang _ at_ absent, _, abstracts.hang absent _ at_,
      Or.inr ⟨_, rfl, .insert m i _ looked⟩⟩
  · simp only [Cbht.key] at looked
    simp only [looked] at stepped
    obtain rfl := Option.some.inj stepped
    refine shared.kept_did abstracts (.taken m i oi _ looked) serves.1
      (permitted.less (by rintro _ ⟨⟩) (fun _ => id) (by rintro _ ⟨⟩) (by rintro _ ⟨⟩)) ?_ rfl
    rw [at_]
    rfl

/-- A search gives the block of its key, with its locks. -/
theorem walk_kept (shared : Shared hvfsHash s) (abstracts : Abstracts s m) {puuid itbid : U64}
    {b : Nat} (at_ : s.stage thread = .walk puuid itbid b)
    (stepped : cbhtNext hvfsHash s thread = some next) :
    Shared hvfsHash next ∧ Followed s m next := by
  have serves : Serves s.table b (hvfsHash puuid itbid) := shared.served at_
  have permitted := shared.permits at_
  have chain := abstracts.find_eq shared _ _ serves
  have old : (s.stage thread).pends = none := by
    rw [at_]
    rfl
  simp only [cbhtNext, at_, chain] at stepped
  have same := PendingMap.Step.search m (puuid, itbid)
  rcases looked : m.block (puuid, itbid) with _ | x
  · simp only [looked] at stepped same
    obtain rfl := Option.some.inj stepped
    exact shared.kept_did abstracts same trivial (.free s thread rfl rfl rfl rfl) old rfl
  · simp only [looked] at stepped same
    obtain rfl := Option.some.inj stepped
    refine shared.kept_did abstracts same ⟨serves.1, ?_⟩
      (permitted.less (by rintro _ ⟨⟩) (fun _ => id) (by rintro _ ⟨⟩) (by rintro _ ⟨⟩)) old rfl
    have member := List.mem_of_find?_eq_some (chain.trans looked)
    exact (shared.hung.placed x b _).mpr ⟨serves.1, low_lt s.table _, member⟩

/-- Every step keeps the invariant, and the map goes along. -/
theorem cbhtThreadStep_kept (shared : Shared hvfsHash s) (abstracts : Abstracts s m)
    {action : CbhtAction} (stepped : cbhtThreadStep hvfsHash s (thread, action) = some next) :
    Shared hvfsHash next ∧ Followed s m next := by
  have begins : ∀ stage : CbhtStage, s.stage thread = .idle → (s.stage thread).pends = none := by
    intro _ idle
    rw [idle]
    rfl
  cases action with
  | insert i puuid itbid =>
    simp only [cbhtThreadStep] at stepped
    split_ifs at stepped with allowed
    obtain rfl := Option.some.inj stepped
    obtain ⟨idle, free, unused⟩ := allowed
    refine ⟨shared.begin s.history idle free unused puuid itbid, m, ⟨fun key j => ?_, fun j => ?_⟩,
      Or.inl ⟨rfl, rfl⟩⟩
    · rw [abstracts.block]
      exact setItb_attached_key s.table free rfl j key
    · exact (abstracts.pending j).trans
        (pending_same (begins .idle idle) rfl _ s.history j).symm
  | search puuid itbid =>
    simp only [cbhtThreadStep] at stepped
    split_ifs at stepped with idle
    obtain rfl := Option.some.inj stepped
    exact shared.kept_stay abstracts (by rintro j ⟨⟩) (.free s thread rfl rfl rfl rfl)
      (begins .idle idle) rfl
  | del i =>
    simp only [cbhtThreadStep] at stepped
    split_ifs at stepped with allowed
    obtain rfl := Option.some.inj stepped
    refine shared.kept_stay abstracts (by rintro j ⟨⟩)
      ⟨by rintro _ ⟨⟩, by rintro _ ⟨⟩, by rintro _ ⟨⟩, ?_⟩ (begins .idle allowed.1) rfl
    rintro _ ⟨⟩ other _
    exact allowed.2 other
  | next =>
    change cbhtNext hvfsHash s thread = some next at stepped
    cases at_ : s.stage thread with
    | idle =>
      simp only [cbhtNext, at_] at stepped
      cases stepped
    | seek op => exact seek_kept shared abstracts at_ stepped
    | locked op b sdepth => exact locked_kept shared abstracts at_ stepped
    | overfull i b sdepth => exact overfull_kept shared abstracts at_ stepped
    | split i ob => exact split_kept shared abstracts at_ stepped
    | room i b => exact room_kept shared abstracts at_ stepped
    | hung i b =>
      simp only [cbhtNext, at_] at stepped
      obtain rfl := Option.some.inj stepped
      exact ⟨shared.count _ at_ _, _, abstracts.count shared _ at_ _, Or.inr ⟨_, rfl, .count m i⟩⟩
    | entry x b o =>
      simp only [cbhtNext, at_] at stepped
      obtain rfl := Option.some.inj stepped
      have present : b < s.table.buckets := shared.served at_
      exact shared.kept_stay abstracts present
        ((shared.permits at_).less (by rintro _ ⟨⟩) (fun _ => id) (by rintro _ ⟨⟩)
          (by rintro _ ⟨⟩)) (by rw [at_]; rfl) rfl
    | walk puuid itbid b => exact walk_kept shared abstracts at_ stepped
    | inserted x b o =>
      simp only [cbhtNext, at_] at stepped
      obtain rfl := Option.some.inj stepped
      exact shared.kept_stay abstracts trivial (.free s thread rfl rfl rfl rfl)
        (by rw [at_]; rfl) rfl
    | found x b o =>
      simp only [cbhtNext, at_] at stepped
      obtain rfl := Option.some.inj stepped
      exact shared.kept_stay abstracts trivial (.free s thread rfl rfl rfl rfl)
        (by rw [at_]; rfl) rfl

/-! ### Runs -/

/-- The map before any call. -/
def PendingMap.start : PendingMap where
  block _ := none
  pending _ := False

omit [Fintype Thread] [DecidableEq Thread] in
theorem init_shared (hvfsHash : U64 → U64 → U64) (bdepth : Nat) (key : Nat → U64 × U64) :
    Shared hvfsHash (CbhtSystem.init Thread bdepth key) := by
  have tabled := mdsCbhtInit_tabled hvfsHash bdepth key
  refine ⟨tabled.good.dir, tabled.good.blocks.hung, fun _ => trivial, ?_, ?_, ?_⟩
  · rintro thread other _ b ⟨⟩
  · rintro thread other _ i ⟨⟩
  · intro decidable b present
    exact le_trans (Int.ofNat_le.mpr counted_le_load) (tabled.good.blocks.counted b present)

omit [Fintype Thread] [DecidableEq Thread] in
theorem init_abstracts (bdepth : Nat) (key : Nat → U64 × U64) :
    Abstracts (CbhtSystem.init Thread bdepth key) .start := by
  refine ⟨fun k i => iff_of_false (by rintro ⟨⟩) ?_, fun i => iff_of_false id ?_⟩
  · rintro ⟨attached, -⟩
    exact attached rfl
  · rintro ⟨thread, ⟨⟩⟩

/-- In every run the invariant holds, and the history is one of the map. -/
theorem cbht_threads_kept {bdepth : Nat} {key : Nat → U64 × U64}
    {labels : List (Thread × CbhtAction)} {final : CbhtSystem Thread}
    (reached : run (cbhtThreadStep hvfsHash) (.init Thread bdepth key) labels = some final) :
    Shared hvfsHash final ∧ ∃ m, Legal PendingMap.Step .start final.history m ∧
      Abstracts final m := by
  refine run_invariant (fun s : CbhtSystem Thread => Shared hvfsHash s ∧
    ∃ m, Legal PendingMap.Step .start s.history m ∧ Abstracts s m) ?_
    ⟨init_shared hvfsHash bdepth key, .start, .start, init_abstracts bdepth key⟩ reached
  rintro s ⟨thread, action⟩ next ⟨shared, m, legal, abstracts⟩ stepped
  obtain ⟨kept, after, same, ⟨history, rfl⟩ | ⟨effect, history, effected⟩⟩ :=
    cbhtThreadStep_kept shared abstracts stepped
  · exact ⟨kept, after, by rwa [history], same⟩
  · exact ⟨kept, after, by rw [history]; exact legal.append effected, same⟩

/-- Whatever the order of the steps, what the calls have done is a history of one map, which is
that of the table; and the block that a search has found is in the table until it is given back. -/
theorem cbht_threads_atomic (hvfsHash : U64 → U64 → U64) (bdepth : Nat) (key : Nat → U64 × U64)
    (labels : List (Thread × CbhtAction)) (final : CbhtSystem Thread)
    (reached : run (cbhtThreadStep hvfsHash) (.init Thread bdepth key) labels = some final) :
    ∃ m, Legal PendingMap.Step .start final.history m ∧
      (∀ key i, m.block key = some i ↔ final.table.Attached i ∧ final.table.key i = key) ∧
      (∀ i, m.pending i ↔ final.Pending i) ∧
      ∀ thread x b o, final.stage thread = .found x b o → m.block (final.table.key x) = some x := by
  obtain ⟨shared, m, legal, abstracts⟩ := cbht_threads_kept reached
  refine ⟨m, legal, abstracts.block, abstracts.pending, fun thread x b o found => ?_⟩
  refine (abstracts.block _ x).mpr ⟨?_, rfl⟩
  unfold Cbht.Attached
  rw [(shared.served found).2]
  exact Option.some_ne_none _

/-- One thread searches for a block before and after the other one counts it. -/
def searchesAround : List (Bool × CbhtAction) :=
  [(false, .insert 3 7 9), (false, .next), (false, .next), (true, .search 7 9), (false, .next),
    (true, .next), (true, .next), (false, .next), (true, .search 7 9), (true, .next),
    (true, .next), (true, .next)]

theorem cbht_threads_atomic_around : ∃ final,
    run (cbhtThreadStep hvfsHashCbht) (.init Bool 1 fun _ => (0, 0)) searchesAround = some final ∧
    final.history =
      [.insert 3 (7, 9) none, .empty (7, 9), .count 3, .search (7, 9) (some 3)] ∧
    ∃ m, Legal PendingMap.Step .start final.history m ∧
      (∀ key i, m.block key = some i ↔ final.table.Attached i ∧ final.table.key i = key) ∧
      (∀ i, m.pending i ↔ final.Pending i) ∧
      ∀ thread x b o, final.stage thread = .found x b o → m.block (final.table.key x) = some x :=
  ⟨_, rfl, rfl, cbht_threads_atomic hvfsHashCbht 1 (fun _ => (0, 0)) searchesAround _ rfl⟩

/-! ### Progress -/

/-- The thread has a next step. -/
def CbhtSystem.Enabled (hvfsHash : U64 → U64 → U64) (s : CbhtSystem Thread) (thread : Thread) :
    Prop :=
  ∃ next, cbhtNext hvfsHash s thread = some next

/-- A thread with the read lock of a bucket waits for a bucket entry at most. -/
theorem enabled_of_reads {b : Nat} (reads : (s.stage thread).reads = some b)
    (unlocked : ∀ b o, ¬s.EntryLocked b o) : s.Enabled hvfsHash thread := by
  unfold CbhtSystem.Enabled
  cases at_ : s.stage thread with
  | idle => rw [at_] at reads; cases reads
  | seek op => rw [at_] at reads; cases reads
  | overfull i c sdepth => rw [at_] at reads; cases reads
  | split i c => rw [at_] at reads; cases reads
  | locked op c sdepth =>
    cases op with
    | insert i =>
      simp only [cbhtNext, at_]
      split_ifs <;> exact ⟨_, rfl⟩
    | search puuid itbid =>
      simp only [cbhtNext, at_]
      split_ifs <;> exact ⟨_, rfl⟩
    | del i =>
      simp only [cbhtNext, at_, if_neg (unlocked _ _)]
      split_ifs <;> exact ⟨_, rfl⟩
  | room i c =>
    simp only [cbhtNext, at_, if_neg (unlocked _ _)]
    split <;> exact ⟨_, rfl⟩
  | walk puuid itbid c =>
    simp only [cbhtNext, at_]
    split <;> exact ⟨_, rfl⟩
  | hung i c =>
    simp only [cbhtNext, at_]
    exact ⟨_, rfl⟩
  | entry x c o =>
    simp only [cbhtNext, at_]
    exact ⟨_, rfl⟩
  | inserted x c o =>
    simp only [cbhtNext, at_]
    exact ⟨_, rfl⟩
  | found x c o =>
    simp only [cbhtNext, at_]
    exact ⟨_, rfl⟩

/-- A thread that holds a bucket entry gives it back. -/
theorem enabled_of_readsEntry {place : Nat × Nat}
    (reads : (s.stage thread).readsEntry = some place) : s.Enabled hvfsHash thread := by
  unfold CbhtSystem.Enabled
  cases at_ : s.stage thread with
  | inserted x c o =>
    simp only [cbhtNext, at_]
    exact ⟨_, rfl⟩
  | found x c o =>
    simp only [cbhtNext, at_]
    exact ⟨_, rfl⟩
  | _ =>
    rw [at_] at reads
    cases reads

/-- A thread that holds no lock waits for a bucket at most. -/
theorem enabled_of_unlocked (busy : s.stage thread ≠ .idle)
    (reads : ∀ b, ¬s.ReadLocked b) (writes : ∀ b, ¬s.WriteLocked b) :
    s.Enabled hvfsHash thread := by
  have noReads : ∀ b, (s.stage thread).reads ≠ some b := fun b holds => reads b ⟨thread, holds⟩
  unfold CbhtSystem.Enabled
  cases at_ : s.stage thread with
  | idle => exact absurd at_ busy
  | seek op =>
    simp only [cbhtNext, at_]
    split
    · exact ⟨_, rfl⟩
    · rw [if_neg (writes _)]
      exact ⟨_, rfl⟩
  | overfull i b sdepth =>
    simp only [cbhtNext, at_, if_neg (not_or.mpr ⟨writes b, reads b⟩)]
    split_ifs <;> exact ⟨_, rfl⟩
  | split i b => exact absurd ⟨thread, by rw [at_]; rfl⟩ (writes b)
  | _ => exact absurd (by rw [at_]; rfl) (noReads _)

/-- The locks never deadlock: while a thread is in a call, some thread has a next step, unless one
splits a bucket at the greatest depth. -/
theorem cbht_threads_progress (hvfsHash : U64 → U64 → U64) (bdepth : Nat) (key : Nat → U64 × U64)
    (labels : List (Thread × CbhtAction)) (final : CbhtSystem Thread)
    (reached : run (cbhtThreadStep hvfsHash) (.init Thread bdepth key) labels = some final)
    (busy : ∃ thread, final.stage thread ≠ .idle) :
    (∃ thread next, cbhtThreadStep hvfsHash final (thread, .next) = some next) ∨
      ∃ thread i b, final.stage thread = .split i b ∧ 31 ≤ (final.table.bucket b).depth + 1 := by
  obtain ⟨shared, -⟩ := cbht_threads_kept reached
  suffices enabled : (∃ thread, final.Enabled hvfsHash thread) ∨
      ∃ thread i b, final.stage thread = .split i b ∧ 31 ≤ (final.table.bucket b).depth + 1 from
    enabled
  -- who holds a bucket entry goes first, then who holds a read lock, then who holds a write lock
  by_cases entries : ∃ b o, final.EntryLocked b o
  · obtain ⟨b, o, thread, reads⟩ := entries
    exact Or.inl ⟨thread, enabled_of_readsEntry reads⟩
  have noEntry : ∀ b o, ¬final.EntryLocked b o := fun b o held => entries ⟨b, o, held⟩
  by_cases readers : ∃ b, final.ReadLocked b
  · obtain ⟨b, thread, reads⟩ := readers
    exact Or.inl ⟨thread, enabled_of_reads reads noEntry⟩
  by_cases writers : ∃ b, final.WriteLocked b
  · obtain ⟨b, thread, writes⟩ := writers
    obtain ⟨i, c, at_⟩ : ∃ i c, final.stage thread = .split i c := by
      cases at_ : final.stage thread with
      | split i c => exact ⟨i, c, rfl⟩
      | _ =>
        rw [at_] at writes
        cases writes
    by_cases deep : 31 ≤ (final.table.bucket c).depth + 1
    · exact Or.inr ⟨thread, i, c, at_, deep⟩
    · have shallow := not_le.mp deep
      obtain ⟨table, updated, -⟩ := shared.level final.history at_ shallow
      obtain ⟨stage, split, -⟩ := splitNext_spec (i := i) (shared.served at_).1 shallow updated
      refine Or.inl ⟨thread, { final with table := table }.go thread stage, ?_⟩
      simp only [cbhtNext, at_, split, Option.map_some]
  · obtain ⟨thread, started⟩ := busy
    exact Or.inl ⟨thread, enabled_of_unlocked started (fun b held => readers ⟨b, held⟩)
      fun b held => writers ⟨b, held⟩⟩

theorem cbht_threads_progress_around : ∃ final,
    run (cbhtThreadStep hvfsHashCbht) (.init Bool 1 fun _ => (0, 0)) searchesAround = some final ∧
    ((∃ thread next, cbhtThreadStep hvfsHashCbht final (thread, .next) = some next) ∨
      ∃ thread i b, final.stage thread = .split i b ∧ 31 ≤ (final.table.bucket b).depth + 1) :=
  ⟨_, rfl, cbht_threads_progress hvfsHashCbht 1 (fun _ => (0, 0)) searchesAround _ rfl
    ⟨true, by decide⟩⟩

end Steps

end Hvfs
