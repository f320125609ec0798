/-
This file settles which block a modifying request has changed when it returns 0:
the one that is attached under its key, as long as no block is reused while a
thread comes back to it, and no copy is copied again before the thread that made
it has come to it.
-/

import Hvfs.ItbSteps

namespace Hvfs

open Transition

section Returns

variable {Thread : Type} {c : ItbConfig} {s t : ItbServer Thread} {place : Nat → Place Thread}

/-- The request has changed the block that is attached under its key. -/
structure Modified.Current (modified : Modified) : Prop where
  attached : modified.attached = true
  state : modified.state ≠ .cowed

/-- A block that is in use and not COWED is attached under its key. -/
theorem Sound.attached_of_used {steady : Prop} (sound : Sound steady c s place) (steadily : steady)
    {x : Nat} {key : ItbKey} (used : (place x).Used) (same : (s.head x).key = key)
    (kept : (s.head x).state ≠ .cowed) : s.attached c key = some x := by
  refine sound.attached_iff.mpr ⟨?_, same⟩
  rcases at_ : place x with _ | _ | _ | be | _
  · exact absurd used (by rw [at_]; exact id)
  · exact absurd used (by rw [at_]; exact id)
  · exact absurd used (by rw [at_]; exact id)
  · rw [← same, ((sound.blocks x).chainHead be at_).2.1]
  · exact absurd (((sound.blocks x).looseHead at_).2 steadily) kept

/-- A copy is not copied again by the request that has made it. -/
theorem itbDirty_not_cow {txg x : Nat} (same : (s.head x).txg = txg) (n be : Nat)
    (u : ItbServer Thread) : itbDirty c s txg x ≠ .cow n be u := by
  intro copied
  have next := (itbDirty_cow_eq copied).1
  omega

variable [DecidableEq Thread] {thread : Thread} {request : Request} {x : Nat}

/-- A search that returns 0 has changed the block that is attached. -/
theorem Visited.modified (sound : Sound True c s place)
    (visits : Visits True s place thread request x)
    (visited : Visited c s thread request x t) :
    ∀ modified ∈ t.modified, modified ∈ s.modified ∨ modified.Current := by
  cases visited with
  | done plan => exact fun _ => Or.inl
  | failed plan dirtied => exact fun _ => Or.inl
  | copies plan dirtied =>
    obtain ⟨-, -, -, copied⟩ := itbDirty_cow_eq dirtied
    obtain ⟨u, free, rfl⟩ := itbCowNew_eq copied
    have logs := (getFreeItb_sameLogs free).modified
    intro modified member
    refine Or.inl ?_
    change modified ∈ u.modified at member
    rwa [logs] at member
  | @uses act txg u result plan dirtied acted =>
    have live := sound.heldLive thread _ visits.held
    obtain ⟨after, -, dirty, -, -⟩ :=
      (sound.note request.txg x).itbDirty_use live visits.used visits.kept dirtied
    have key : (u.head x).key = request.key ∧ u.modified = s.modified := by
      obtain ⟨h, lists, rfl, sameKey, _⟩ := itbDirty_use_eq dirtied
      refine ⟨?_, rfl⟩
      simp only [Function.update_self]
      exact sameKey.trans visits.key
    have attached := after.attached_of_used trivial visits.used key.1 (by rw [dirty]; exact nofun)
    intro modified member
    change modified ∈ (if result.err = 0 then u.modified ++
      [⟨request.key, x, u.attached c request.key = some x, (u.head x).state⟩]
      else u.modified) at member
    rw [key.2] at member
    split_ifs at member
    · rcases List.mem_append.mp member with old | new
      · exact Or.inl old
      · rw [List.mem_singleton.mp new]
        exact Or.inr ⟨decide_eq_true attached, by rw [dirty]; exact nofun⟩
    · exact Or.inl member

theorem Sound.moves_current (sound : Sound True c s place) {event : ServerEvent Thread}
    (moves : Moves c s event t) (before : ∀ modified ∈ s.modified, modified.Current) :
    ∀ modified ∈ t.modified, modified.Current := by
  rcases moves.sameLogs with ⟨thread, request, x, u, comes, visited⟩ | same
  · obtain ⟨after, soundAfter, visits, -⟩ := sound.comes comes
    intro modified member
    rcases visited.modified soundAfter visits modified member with old | current
    · rw [comes.brings.logs.modified] at old
      exact before modified old
    · exact current
  · rw [same.modified]
    exact before

/-- What the requests that search a block rely on. -/
structure Acknowledged (c : ItbConfig) (s : ItbServer Thread) : Prop where
  modified : ∀ modified ∈ s.modified, modified.Current
  /-- The copy that `itb_dirty` returns is attached and will not be copied again. -/
  copy : ∀ thread request n, s.stage thread = .cowWon request n →
    s.attached c request.key = some n ∧ (s.head n).state ≠ .cowed ∧
      ∀ m be u, itbDirty c s request.txg n ≠ .cow m be u
  /-- The block that `mds_cbht_insert_bbrlocked` hands on carries the key. -/
  handed : ∀ thread request y unused, s.stage thread = .insertHit request y unused →
    (s.head y).key = request.key

variable [Fintype Thread]

/-- In every state of a run in which no block is reused while a thread comes back to it, and every
copy waits for the thread that has made it, the requests that have returned 0 have changed the
block that was attached under their key. -/
theorem acknowledged_of_run {hmi : Hmi} {txg : Nat} {events : List (ServerEvent Thread)}
    (guarded : Guarded (serverStep c) (fun s event => Unreused c s event ∧ CopiedOnce s event)
      (ItbServer.init Thread hmi txg) events)
    (reached : run (serverStep c) (ItbServer.init Thread hmi txg) events = some s) :
    Acknowledged c s := by
  obtain ⟨⟨place, sound⟩, current⟩ := guarded_invariant
    (fun s => (∃ place, Sound True c s place) ∧ ∀ modified ∈ s.modified, modified.Current)
    (fun state event next good allowed step => by
      obtain ⟨⟨place, sound⟩, current⟩ := good
      have moves := moves_of_serverStep step
      exact ⟨sound.moves moves (allowed.1 next step) fun _ => allowed.2,
        sound.moves_current moves current⟩)
    ⟨⟨_, init_sound hmi txg⟩, nofun⟩ guarded reached
  refine ⟨current, fun thread request n stage => ?_, fun thread request y unused stage => ?_⟩
  · have known := sound.stages thread
    rw [stage] at known
    obtain ⟨used, key, sameTxg, -, kept⟩ := known
    exact ⟨sound.attached_of_used trivial used key (kept trivial), kept trivial,
      itbDirty_not_cow sameTxg⟩
  · have known := sound.stages thread
    rw [stage] at known
    exact known.1

end Returns

/-- The block of the TXG 1 is copied by a request of the TXG 2, that creates a second name. -/
def copyRun : List (ServerEvent Unit) :=
  createRun ++ [.put (), .switch, .begin () (letterSearch 98), .search () true, .swap (),
    .again ()]

theorem acknowledged_of_run_copy :
    ∃ s, run (serverStep smallConfig) (ItbServer.init Unit ⟨0, 0⟩ 1) copyRun = some s ∧
      s.modified.map (·.itb) = [0, 1] ∧ Acknowledged smallConfig s := by
  have guarded : Guarded (serverStep smallConfig)
      (fun s event => Unreused smallConfig s event ∧ CopiedOnce s event)
      (ItbServer.init Unit ⟨0, 0⟩ 1) copyRun := by decide +kernel
  have ends : (run (serverStep smallConfig) (ItbServer.init Unit ⟨0, 0⟩ 1) copyRun).map
      (fun s => s.modified.map (·.itb)) = some [0, 1] := by decide +kernel
  obtain ⟨s, reached, modified⟩ := Option.map_eq_some_iff.mp ends
  exact ⟨s, reached, modified, acknowledged_of_run guarded reached⟩

/-- The thread 1 (TXG 2) has put its copy in the place of the block. Before it comes to it, the TXG
1 is committed and the thread 2 (TXG 3) puts the next copy in the place of this one. -/
def copiedTwiceRun : List (ServerEvent (Fin 3)) :=
  [.begin 0 (letterSearch 97), .search 0 false, .getFree 0 true, .insert 0 true, .hit 0, .put 0,
    .switch, .begin 1 (letterSearch 98), .search 1 true, .swap 1, .commitStart, .commitWalk,
    .commitEnd, .switch, .begin 2 (letterSearch 99), .search 2 true, .swap 2, .again 1]

/-- A request returns 0, and the block that it has changed is not attached. -/
theorem copied_twice_not_attached :
    ∃ s, run (serverStep smallConfig) (ItbServer.init (Fin 3) ⟨0, 0⟩ 1) copiedTwiceRun = some s ∧
      s.stage 1 = .returned 2 0 ∧ ¬∀ modified ∈ s.modified, modified.Current := by
  have ends : (run (serverStep smallConfig) (ItbServer.init (Fin 3) ⟨0, 0⟩ 1) copiedTwiceRun).map
      (fun s => decide (s.stage 1 = .returned 2 0 ∧ ⟨(0, 0), 1, false, .dirty⟩ ∈ s.modified)) =
      some true := by decide +kernel
  obtain ⟨s, reached, same⟩ := Option.map_eq_some_iff.mp ends
  obtain ⟨returned, member⟩ := of_decide_eq_true same
  exact ⟨s, reached, returned, fun current => absurd (current _ member).attached nofun⟩

end Hvfs
