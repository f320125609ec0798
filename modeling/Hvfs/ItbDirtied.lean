/-
This file proves that a block which `itb_dirty` has returned in a TXG that is
still live is on the dirty list of that TXG, or is a copy that its thread is
about to put there. Nothing but the commit takes a block off a dirty list, and it
waits until no transaction holds the TXG.
-/

import Hvfs.ItbSteps

namespace Hvfs

open Transition

section Dirtied

variable {Thread : Type} {steady : Prop} {c : ItbConfig} {s t : ItbServer Thread}
  {place : Nat → Place Thread}

/-- What `itb_dirty` has returned in a live TXG is on the dirty list, or will be put there. -/
structure Recorded (s : ItbServer Thread) : Prop where
  notAfter : ∀ txg x, (txg, x) ∈ s.dirtied → txg ≤ s.openTxg
  listed : ∀ txg x, (txg, x) ∈ s.dirtied → s.Live txg →
    x ∈ s.dirtyList txg ∨ ∃ thread, (s.stage thread).HasWon x txg
  written : ∀ entry ∈ s.written, entry ∈ s.dirtied

/-- A step that keeps the dirty lists of live TXGs, and the threads that won a copy or their
copies. -/
theorem Recorded.congr (recorded : Recorded s)
    (dirtied : ∀ txg x, (txg, x) ∈ t.dirtied → (txg, x) ∈ s.dirtied ∨ txg ≤ t.openTxg ∧
      (x ∈ t.dirtyList txg ∨ ∃ thread, (t.stage thread).HasWon x txg))
    (openTxg : s.openTxg ≤ t.openTxg)
    (live : ∀ txg, t.Live txg → txg ≤ s.openTxg → s.Live txg)
    (lists : ∀ txg x, s.Live txg → x ∈ s.dirtyList txg → x ∈ t.dirtyList txg)
    (won : ∀ thread x txg, (s.stage thread).HasWon x txg →
      (t.stage thread).HasWon x txg ∨ x ∈ t.dirtyList txg)
    (written : ∀ entry ∈ t.written, entry ∈ t.dirtied) : Recorded t where
  notAfter txg x member := by
    rcases dirtied txg x member with old | new
    · exact Nat.le_trans (recorded.notAfter txg x old) openTxg
    · exact new.1
  listed txg x member isLive := by
    rcases dirtied txg x member with old | new
    · have before := live txg isLive (recorded.notAfter txg x old)
      rcases recorded.listed txg x old before with onList | ⟨thread, hasWon⟩
      · exact Or.inl (lists txg x before onList)
      · rcases won thread x txg hasWon with still | added
        · exact Or.inr ⟨thread, still⟩
        · exact Or.inl added
    · exact new.2
  written := written

/-- A block that may be used stays on the dirty lists that it is on. -/
theorem itbDirty_use_lists {txg used x : Nat} (dirtied : itbDirty c s txg x = .use used t)
    (other y : Nat) (member : y ∈ s.dirtyList other) : y ∈ t.dirtyList other := by
  have marked : ∀ txg, y ∈ (markDirty s txg x).dirtyList other :=
    fun txg => txgAddItb_lists _ txg x other y member
  unfold itbDirty at dirtied
  simp only at dirtied
  split_ifs at dirtied with same older next older' state
  · split at dirtied <;> cases dirtied
    · exact member
    · exact marked _
    · exact member
  · split at dirtied
    · cases dirtied
    · cases dirtied
      exact marked _
    · split at dirtied <;> cases dirtied
  · cases dirtied
    exact marked _
  · cases dirtied
    exact member
  · cases dirtied
    exact member

variable [DecidableEq Thread] {thread : Thread} {request : Request} {x : Nat}

/-- The other threads' copies stay theirs. -/
theorem hasWon_update {stages : Thread → SearchStage} {stage : SearchStage}
    (free : ∀ request n, stages thread ≠ .cowWon request n) (other : Thread) {y txg : Nat}
    (hasWon : (stages other).HasWon y txg) :
    (Function.update stages thread stage other).HasWon y txg := by
  rwa [Function.update_of_ne]
  rintro rfl
  obtain ⟨request, isStage, _⟩ := hasWon
  exact free request y isStage

/-- A thread that has won no copy goes on, and no dirty list changes. -/
theorem Recorded.goesOn (recorded : Recorded s) {stage : SearchStage}
    (free : ∀ request n, s.stage thread ≠ .cowWon request n)
    (stages : t.stage = Function.update s.stage thread stage) (dirtied : t.dirtied = s.dirtied)
    (written : t.written = s.written) (openTxg : t.openTxg = s.openTxg) (wb : t.wb = s.wb)
    (dirtyList : t.dirtyList = s.dirtyList) : Recorded t := by
  refine recorded.congr (fun _ _ member => Or.inl (by rwa [dirtied] at member))
    (Nat.le_of_eq openTxg.symm) (fun _ isLive _ => (live_congr openTxg wb _).mp isLive)
    (fun _ _ _ member => by rwa [dirtyList]) (fun other _ _ hasWon => Or.inl ?_) ?_
  · rw [stages]
    exact hasWon_update free other hasWon
  · rw [written, dirtied]
    exact recorded.written

/-- Coming to a block keeps the record. -/
theorem Recorded.comes (recorded : Recorded s) (sound : Sound steady c s place)
    {event : ServerEvent Thread} {u : ItbServer Thread}
    (comes : Comes c s event thread request x u) : Recorded u := by
  cases comes with
  | search stage found ready => exact recorded
  | @hit _ _ _ unused stage ready =>
    cases unused with
    | none => exact recorded
    | some n =>
      have notWon : ∀ other m, s.stage thread ≠ .cowWon other m := by
        intro other m isStage
        rw [stage] at isStage
        cases isStage
      exact recorded.goesOn notWon rfl rfl rfl rfl rfl rfl
  | again stage =>
    obtain ⟨added, member⟩ := sound.addCopy stage
    obtain ⟨listed, lists, same⟩ := addCopy_eq s request x
    have sameStage : (s.addCopy request x).stage = s.stage := by rw [same]
    have known := added.stages thread
    rw [sameStage, stage] at known
    have live := sound.heldLive thread request.txg (by rw [stage]; rfl)
    have dirtied : (s.addCopy request x).dirtied = s.dirtied ++ [(request.txg, x)] := by rw [same]
    refine recorded.congr (fun txg y isDirtied => ?_) (by rw [same]) (fun txg isLive _ => ?_)
      (fun txg y _ isMember => txgAddItb_lists _ request.txg x txg y isMember)
      (fun other y txg hasWon => Or.inl (by rwa [sameStage])) fun entry isWritten => ?_
    · rw [dirtied] at isDirtied
      rcases List.mem_append.mp isDirtied with old | new
      · exact Or.inl old
      · cases List.mem_singleton.mp new
        refine Or.inr ⟨?_, Or.inl (by rwa [known.2.2.1] at member)⟩
        rw [same]
        exact (sound.live_bounds live).1
    · rw [same] at isLive
      exact isLive
    · rw [dirtied]
      refine List.mem_append_left _ (recorded.written entry ?_)
      rw [same] at isWritten
      exact isWritten

/-- A search keeps the record. -/
theorem Recorded.visited (recorded : Recorded s) (sound : Sound steady c s place)
    (visits : Visits steady s place thread request x) (visited : Visited c s thread request x t) :
    Recorded t := by
  have won : ∀ stage : SearchStage, ∀ other y txg, (s.stage other).HasWon y txg →
      (Function.update s.stage thread stage other).HasWon y txg ∨ y ∈ s.dirtyList txg := by
    intro stage other y txg hasWon
    by_cases same : other = thread
    · obtain ⟨winner, isStage, sameTxg⟩ := hasWon
      rw [same] at isStage
      obtain ⟨rfl, member⟩ := visits.added winner y isStage
      have known := sound.stages thread
      rw [isStage] at known
      rw [known.2.2.1, sameTxg] at member
      exact Or.inr member
    · exact Or.inl (by rwa [Function.update_of_ne same])
  cases visited with
  | done plan =>
    exact recorded.congr (fun _ _ member => Or.inl member) (Nat.le_refl _)
      (fun _ isLive _ => isLive)
      (fun _ _ _ member => member) (won _) recorded.written
  | failed plan dirtied => exact ⟨recorded.notAfter, recorded.listed, recorded.written⟩
  | copies plan dirtied =>
    obtain ⟨-, -, -, copied⟩ := itbDirty_cow_eq dirtied
    obtain ⟨u, free, rfl⟩ := itbCowNew_eq copied
    obtain ⟨allocated, lru, chain, block, rfl⟩ := getFreeItb_eq free
    exact recorded.congr (fun _ _ member => Or.inl member) (Nat.le_refl _)
      (fun _ isLive _ => isLive)
      (fun _ _ _ member => member) (won _) recorded.written
  | @uses act txg u result plan dirtied acted =>
    have live := sound.heldLive thread _ visits.held
    obtain ⟨after, liveUsed, dirty, sameTxg, _⟩ :=
      (sound.note request.txg x).itbDirty_use live visits.used visits.kept dirtied
    have grows := itbDirty_use_lists dirtied
    obtain ⟨h, lists, rfl, _⟩ := itbDirty_use_eq dirtied
    refine recorded.congr (fun other y member => ?_) (Nat.le_refl _) (fun _ isLive _ => isLive)
      (fun other y _ member => grows other y member)
      (fun other y other' hasWon => (won _ other y other' hasWon).imp_right (grows other' y))
      fun entry member => ?_
    · rcases List.mem_append.mp member with old | new
      · exact Or.inl old
      · cases List.mem_singleton.mp new
        refine Or.inr ⟨(sound.live_bounds liveUsed).1, ?_⟩
        have changed := (after.blocks x).usedDirty visits.used (by rw [dirty]; exact nofun)
        rw [sameTxg] at changed
        rcases changed with onList | ⟨other, hasWon⟩
        · exact Or.inl onList
        · rw [sameTxg] at hasWon
          rcases won (.returned txg result.err) other x txg hasWon with still | onList
          · exact Or.inr ⟨other, still⟩
          · exact Or.inl (grows txg x onList)
    · rcases List.mem_append.mp member with old | new
      · exact List.mem_append_left _ (recorded.written entry old)
      · exact List.mem_append_right _ new

/-- A step keeps the record. -/
theorem Recorded.moves (recorded : Recorded s) (sound : Sound steady c s place)
    {event : ServerEvent Thread} (moves : Moves c s event t) : Recorded t := by
  cases moves with
  | stays => exact recorded
  | @goesOn _ thread stage old new held =>
    refine recorded.goesOn (fun request n isStage => ?_) rfl rfl rfl rfl rfl rfl
    rcases old with away | ⟨_, _, insert⟩
    · rw [isStage] at away
      exact away
    · rw [isStage] at insert
      cases insert
  | visits comes visited =>
    obtain ⟨after, soundAfter, visits, _⟩ := sound.comes comes
    exact (recorded.comes sound comes).visited soundAfter visits visited
  | gets stage creates free =>
    obtain ⟨allocated, lru, chain, block, rfl⟩ := getFreeItb_eq free
    exact recorded.goesOn (by rw [stage]; exact nofun) rfl rfl rfl rfl rfl rfl
  | meets stage found => exact recorded.goesOn (by rw [stage]; exact nofun) rfl rfl rfl rfl rfl rfl
  | attaches stage fresh =>
    exact recorded.goesOn (by rw [stage]; exact nofun) rfl rfl rfl rfl rfl rfl
  | @misses thread request y unused stage cowed =>
    have given : Recorded (freeUnused s thread request y unused) := by
      cases unused with
      | none => exact recorded
      | some n =>
        exact recorded.goesOn (by rw [stage]; exact nofun) rfl rfl rfl rfl rfl rfl
    obtain ⟨_, _, stageAfter, _⟩ := sound.freeUnused stage
    exact given.goesOn (by rw [stageAfter]; exact nofun) rfl rfl rfl rfl rfl rfl
  | wins stage replaceable =>
    exact recorded.goesOn (by rw [stage]; exact nofun) rfl rfl rfl rfl rfl rfl
  | loses stage => exact recorded.goesOn (by rw [stage]; exact nofun) rfl rfl rfl rfl rfl rfl
  | lost stage =>
    exact recorded.goesOn (by rw [stage]; exact nofun) rfl rfl rfl rfl rfl rfl
  | switches idle =>
    refine recorded.congr (fun _ _ member => Or.inl member) (Nat.le_succ _)
      (fun txg isLive below => ?_)
      (fun _ _ _ member => member) (fun _ _ _ hasWon => Or.inl hasWon) recorded.written
    rcases isLive with isOpen | waiting
    · change txg = s.openTxg + 1 at isOpen
      omega
    · cases waiting
      exact Or.inl rfl
  | starts waiting free =>
    refine recorded.congr (fun _ _ member => Or.inl member) (Nat.le_refl _) (fun txg isLive _ => ?_)
      (fun _ _ _ member => member) (fun _ _ _ hasWon => Or.inl hasWon) recorded.written
    exact isLive.elim Or.inl nofun
  | @commits txg x rest walking list =>
    have notLive := sound.walking_not_live walking
    obtain ⟨head, lru, same⟩ := commitItb_eq s txg x rest
    rw [same]
    refine recorded.congr (fun _ _ member => Or.inl member) (Nat.le_refl _)
      (fun _ isLive _ => isLive)
      (fun other y isLive member => ?_) (fun _ _ _ hasWon => Or.inl hasWon) recorded.written
    simp only
    rw [Function.update_of_ne]
    · exact member
    · rintro rfl
      exact notLive isLive
  | ends walking empty =>
    refine recorded.congr (fun _ _ member => Or.inl member) (Nat.le_refl _) (fun txg isLive _ => ?_)
      (fun _ _ _ member => member) (fun _ _ _ hasWon => Or.inl hasWon) recorded.written
    exact isLive.elim Or.inl nofun
  | reclaims reached ready removed => exact ⟨recorded.notAfter, recorded.listed, recorded.written⟩

/-- What holds in every state of a run in which no block is reused too early. -/
structure Good (c : ItbConfig) (s : ItbServer Thread) : Prop where
  sound : ∃ place, Sound False c s place
  recorded : Recorded s

omit [DecidableEq Thread] in
theorem ItbServer.init_good (hmi : Hmi) (txg : Nat) : Good c (ItbServer.init Thread hmi txg) :=
  ⟨⟨_, init_sound hmi txg⟩, nofun, nofun, nofun⟩

theorem Good.step [Fintype Thread] (good : Good c s) {event : ServerEvent Thread}
    (unreused : Unreused c s event) (step : serverStep c s event = some t) : Good c t := by
  obtain ⟨⟨place, sound⟩, recorded⟩ := good
  have moves := moves_of_serverStep step
  exact ⟨sound.moves moves (unreused t step) False.elim, recorded.moves sound moves⟩

end Dirtied

end Hvfs
