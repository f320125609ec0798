/-
This file settles what the commit of a TXG writes. When the commit thread starts
to walk a dirty list, the list holds what the requests of the TXG have changed,
and no request changes it before it is written.
-/

import Hvfs.ItbDirtied

namespace Hvfs

open Transition

section Snapshot

variable {Thread : Type} [DecidableEq Thread] {steady : Prop} {c : ItbConfig}
  {s t : ItbServer Thread} {place : Nat → Place Thread}

/-- A block that waits to be written is not changed by the search of a block. -/
theorem Sound.visited_block (sound : Sound steady c s place) {thread : Thread} {request : Request}
    {y : Nat} (visits : Visits steady s place thread request y)
    (visited : Visited c s thread request y t) {txg x : Nat} (walking : s.wb = some ⟨txg, true⟩)
    (member : x ∈ s.dirtyList txg) : t.block x = s.block x := by
  obtain ⟨used, -, sameTxg, changed, -⟩ := (sound.blocks x).onList txg member
  cases visited with
  | done plan => rfl
  | failed plan dirtied => rfl
  | @copies act n be u plan dirtied =>
    obtain ⟨-, -, -, copied⟩ := itbDirty_cow_eq dirtied
    obtain ⟨v, free, rfl⟩ := itbCowNew_eq copied
    have got := (sound.note request.txg y).got free
    have apart : x ≠ n := by
      rintro rfl
      rcases got.spare with at_ | at_ <;> rw [at_] at used <;> exact used
    have same : v.block x = s.block x := got.blocks x apart
    simpa [ItbServer.setStage, ItbServer.setHead, ItbServer.setBlock, apart] using same
  | @uses act other u result plan dirtied acted =>
    have live := sound.heldLive thread _ visits.held
    obtain ⟨-, liveUsed, -, -, kept⟩ :=
      (sound.note request.txg y).itbDirty_use live visits.used visits.kept dirtied
    obtain ⟨h, lists, rfl, _⟩ := itbDirty_use_eq dirtied
    by_cases same : x = y
    · -- the TXG that `itb_dirty` returns would be the one that is walked
      rw [same] at changed sameTxg
      have usedTxg := (kept changed).2
      rw [show ((s.note request.txg y).head y).txg = txg from sameTxg] at usedTxg
      rw [usedTxg] at liveUsed
      exact absurd liveUsed (sound.walking_not_live walking)
    · exact Function.update_of_ne same _ _

/-- A block that waits to be written is changed by nothing but the asynchronous unlink. -/
theorem Sound.moves_block (sound : Sound steady c s place) {event : ServerEvent Thread}
    (moves : Moves c s event t) (noPass : ∀ steps limit count, event ≠ .reclaim steps limit count)
    {txg x : Nat} (walking : s.wb = some ⟨txg, true⟩) (member : x ∈ s.dirtyList txg) :
    t.block x = s.block x := by
  have used := ((sound.blocks x).onList txg member).1
  cases moves with
  | visits comes visited =>
    obtain ⟨after, soundAfter, visits, -⟩ := sound.comes comes
    have brings := comes.brings
    rw [← brings.block]
    exact soundAfter.visited_block visits visited (by rw [brings.wb, walking])
      (comes.dirtyList member)
  | @gets thread request n u stage creates free =>
    have got := sound.got free
    have apart : x ≠ n := by
      rintro rfl
      rcases got.spare with at_ | at_ <;> rw [at_] at used <;> exact used
    exact got.blocks x apart
  | @misses thread request y unused stage cowed => cases unused <;> rfl
  | @wins thread request y n be stage replaceable =>
    have apart : x ≠ n := by
      rintro rfl
      exact not_used_handed (sound.handed thread x (by rw [stage]; rfl)) used
    exact Function.update_of_ne apart _ _
  | @commits other y rest walked list =>
    obtain ⟨head, lru, same⟩ := commitItb_eq s other y rest
    rw [same]
  | reclaims reached ready removed => exact absurd rfl (noPass _ _ _)
  | _ => rfl

/-- A call of `itb_dirty` for a much older block finds it CLEAN. -/
def DirtyCall.OlderClean (call : DirtyCall) : Prop :=
  call.itbTxg + 1 < call.txg → call.itbState = .clean

theorem Sound.moves_olderClean (sound : Sound steady c s place) {event : ServerEvent Thread}
    (moves : Moves c s event t) (before : ∀ call ∈ s.calls, call.OlderClean) :
    ∀ call ∈ t.calls, call.OlderClean := by
  rcases moves.sameLogs with ⟨thread, request, x, u, comes, visited⟩ | same
  · obtain ⟨after, soundAfter, visits, -⟩ := sound.comes comes
    rcases visited.calls with calls | ⟨-, calls⟩ <;> rw [calls, comes.brings.logs.calls]
    · exact before
    · intro call member
      rcases List.mem_append.mp member with old | new
      · exact before call old
      · rw [List.mem_singleton.mp new]
        intro older
        by_contra changed
        have bound := soundAfter.dirty_bounds visits.used changed
        have below := (soundAfter.live_bounds (soundAfter.heldLive thread _ visits.held)).1
        simp only at older
        omega
  · rw [same.calls]
    exact before

omit [DecidableEq Thread] in
/-- An attached block that is DIRTY belongs to one of the two live TXGs. -/
theorem Sound.attached_dirty (sound : Sound steady c s place) {be x : Nat} (member : x ∈ s.chain be)
    (dirty : (s.head x).state = .dirty) :
    (s.head x).txg = s.openTxg ∨ ∃ walking, s.wb = some ⟨(s.head x).txg, walking⟩ := by
  have inside := sound.blocks x
  have used : (place x).Used := by
    rw [(inside.chained be).mp member]
    exact trivial
  have ofLive : s.Live (s.head x).txg →
      (s.head x).txg = s.openTxg ∨ ∃ walking, s.wb = some ⟨(s.head x).txg, walking⟩ :=
    fun live => live.imp_right fun waiting => ⟨false, waiting⟩
  rcases inside.usedDirty used (by rw [dirty]; exact nofun) with
    onList | ⟨thread, request, stage, txg⟩
  · rcases (inside.onList _ onList).2.2.2.2 with live | walking
    · exact ofLive live
    · exact Or.inr ⟨true, walking⟩
  · exact ofLive (sound.heldLive thread _ (by rw [stage, ← txg]; rfl))

variable [Fintype Thread]

/-- What a commit relies on. -/
structure Snapshot (c : ItbConfig) (s : ItbServer Thread) : Prop where
  /-- When the walk starts, the list has every block that was changed once. -/
  complete : ∀ txg t, s.wb = some ⟨txg, false⟩ → serverStep c s .commitStart = some t →
    ∀ x, (txg, x) ∈ t.written → (t.dirtyList txg).count x = 1
  /-- Until the walk comes to a block, no request changes it. -/
  fixed : ∀ txg x, s.wb = some ⟨txg, true⟩ → x ∈ s.dirtyList txg →
    ∀ event t, (∀ steps limit count, event ≠ .reclaim steps limit count) →
      serverStep c s event = some t → t.block x = s.block x
  attachedDirty : ∀ be x, x ∈ s.chain be → (s.head x).state = .dirty →
    (s.head x).txg = s.openTxg ∨ ∃ walking, s.wb = some ⟨(s.head x).txg, walking⟩
  olderClean : ∀ call ∈ s.calls, call.OlderClean

theorem Good.complete (good : Good c s) {txg : Nat} (waiting : s.wb = some ⟨txg, false⟩)
    (started : serverStep c s .commitStart = some t) {x : Nat} (written : (txg, x) ∈ t.written) :
    (t.dirtyList txg).count x = 1 := by
  obtain ⟨⟨place, sound⟩, recorded⟩ := good
  have starts : t = { s with wb := some ⟨txg, true⟩ } ∧ ¬s.Pending txg := by
    unfold serverStep at started
    rw [waiting] at started
    simp only at started
    split_ifs at started with halted pending
    cases started
    exact ⟨rfl, pending⟩
  obtain ⟨rfl, free⟩ := starts
  refine List.count_eq_one_of_mem (sound.listOnce txg) ?_
  rcases recorded.listed txg x (recorded.written _ written) (Or.inr waiting) with
    member | ⟨thread, request, stage, same⟩
  · exact member
  · exact absurd ⟨thread, by rw [stage, ← same]; rfl⟩ free

/-- In every state of a run in which no block is reused while a thread comes back to it, the
commits have what they rely on. -/
theorem snapshot_of_run {hmi : Hmi} {txg : Nat} {events : List (ServerEvent Thread)}
    (guarded : Guarded (serverStep c) (Unreused c) (ItbServer.init Thread hmi txg) events)
    (reached : run (serverStep c) (ItbServer.init Thread hmi txg) events = some s) :
    Snapshot c s := by
  obtain ⟨good, olderClean⟩ := guarded_invariant
    (fun s => Good c s ∧ ∀ call ∈ s.calls, call.OlderClean)
    (fun state event next before unreused step => by
      obtain ⟨good, olderClean⟩ := before
      obtain ⟨place, sound⟩ := good.sound
      exact ⟨good.step unreused step,
        sound.moves_olderClean (moves_of_serverStep step) olderClean⟩)
    ⟨ItbServer.init_good hmi txg, nofun⟩ guarded reached
  obtain ⟨place, sound⟩ := good.sound
  exact ⟨fun other t waiting started x written => good.complete waiting started written,
    fun other x walking member event t noPass step =>
      sound.moves_block (moves_of_serverStep step) noPass walking member,
    fun be x member dirty => sound.attached_dirty member dirty, olderClean⟩

end Snapshot

theorem snapshot_of_run_create :
    ∃ s, run (serverStep smallConfig) (ItbServer.init Unit ⟨0, 0⟩ 1)
        (createRun ++ [.put (), .switch, .commitStart]) = some s ∧
      s.written = [(1, 0)] ∧ Snapshot smallConfig s := by
  have guarded : Guarded (serverStep smallConfig) (Unreused smallConfig)
      (ItbServer.init Unit ⟨0, 0⟩ 1) (createRun ++ [.put (), .switch, .commitStart]) := by
    decide +kernel
  have ends : (run (serverStep smallConfig) (ItbServer.init Unit ⟨0, 0⟩ 1)
      (createRun ++ [.put (), .switch, .commitStart])).map (·.written) = some [(1, 0)] := by
    decide +kernel
  obtain ⟨s, reached, written⟩ := Option.map_eq_some_iff.mp ends
  exact ⟨s, reached, written, snapshot_of_run guarded reached⟩

/-- The thread 1 (TXG 2) is told of the block 1, which another thread has inserted in the TXG 1.
Before it comes to it, the block is copied by the thread 2, freed by the commit of the TXG 1, and
taken for a new copy by the thread 3 (TXG 3). Then the thread 1 creates its entry in it. -/
def reusedRun : List (ServerEvent (Fin 4)) :=
  [.begin 0 (letterSearch 97), .switch, .begin 1 (letterSearch 97), .search 1 false,
    .getFree 1 true, .search 0 false, .getFree 0 true, .insert 0 true, .hit 0, .put 0,
    .insert 1 true, .begin 2 (letterSearch 98), .search 2 true, .swap 2, .again 2, .put 2,
    .commitStart, .commitWalk, .commitEnd, .switch, .begin 3 (letterSearch 99), .search 3 true,
    .hit 1, .put 1]

/-- A commit starts without a block that was changed in its TXG. -/
theorem reused_block_not_written :
    ∃ s, run (serverStep smallConfig) (ItbServer.init (Fin 4) ⟨0, 0⟩ 1) reusedRun = some s ∧
      ¬Snapshot smallConfig s := by
  have ends : ((run (serverStep smallConfig) (ItbServer.init (Fin 4) ⟨0, 0⟩ 1) reusedRun).bind
      fun s => (serverStep smallConfig s .commitStart).map fun t => decide
        (s.wb = some ⟨2, false⟩ ∧ (2, 1) ∈ t.written ∧ t.dirtyList 2 = [2])) = some true := by
    decide +kernel
  obtain ⟨s, reached, ends⟩ := Option.bind_eq_some_iff.mp ends
  obtain ⟨t, started, same⟩ := Option.map_eq_some_iff.mp ends
  obtain ⟨waiting, written, list⟩ := of_decide_eq_true same
  refine ⟨s, reached, fun snapshot => ?_⟩
  have once := snapshot.complete 2 t waiting started 1 written
  rw [list] at once
  exact absurd once (by decide)

end Hvfs
