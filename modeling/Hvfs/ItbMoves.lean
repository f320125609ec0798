/-
This file says once what a step of the server can do. A step that searches a
block is described in two parts, how the thread comes to the block and how the
search ends; every other step is listed with the state it leads to.
-/

import Hvfs.ItbRequests

namespace Hvfs

/-! ### What `itb_dirty` comes to -/

section Dirty

variable {Thread : Type} {c : ItbConfig} {s t : ItbServer Thread}

theorem txgAddItb_eq (s : ItbServer Thread) (txg x : Nat) :
    ∃ listed lists, txgAddItb s txg x = { s with
      head := Function.update s.head x { s.head x with listed := listed }
      dirtyList := lists } := by
  unfold txgAddItb
  by_cases isListed : (s.head x).listed = true
  · rw [if_pos isListed]
    refine ⟨true, s.dirtyList, ?_⟩
    have same : { s.head x with listed := true } = s.head x := by
      rw [← isListed]
    rw [same, Function.update_eq_self]
  · rw [if_neg isListed]
    exact ⟨true, _, rfl⟩

theorem txgAddItb_lists (s : ItbServer Thread) (txg n : Nat) (other y : Nat)
    (member : y ∈ s.dirtyList other) : y ∈ (txgAddItb s txg n).dirtyList other := by
  unfold txgAddItb
  split_ifs
  · exact member
  · by_cases same : other = txg
    · rw [same] at member ⊢
      simp only [Function.update_self]
      exact List.mem_append_left _ member
    · simpa only [Function.update_of_ne same] using member

theorem addCopy_eq (s : ItbServer Thread) (request : Request) (n : Nat) :
    ∃ listed lists, s.addCopy request n = { s with
      head := Function.update s.head n { s.head n with listed := listed }
      dirtyList := lists
      dirtied := s.dirtied ++ [(request.txg, n)] } :=
  txgAddItb_eq { s with dirtied := s.dirtied ++ [(request.txg, n)] } request.txg n

theorem markDirty_head (s : ItbServer Thread) (txg x : Nat) :
    ∃ listed lists, markDirty s txg x = { s with
      head := Function.update s.head x
        { s.head x with txg := txg, state := .dirty, listed := listed }
      dirtyList := lists } := by
  obtain ⟨listed, lists, same⟩ :=
    txgAddItb_eq (s.setHead x { s.head x with txg := txg, state := .dirty }) txg x
  refine ⟨listed, lists, ?_⟩
  unfold markDirty
  rw [same]
  simp [ItbServer.setHead]

/-- `get_free_itb` touches the free list, the chains and the block that it returns. -/
theorem getFreeItb_eq {txg n : Nat} (free : getFreeItb c s txg = (n, t)) :
    ∃ allocated lru chain block, t = { s with
      allocated := allocated
      lru := lru
      chain := chain
      head := Function.update s.head n { txg }
      block := Function.update s.block n block
      unlink := s.unlink.init (some n) } := by
  unfold getFreeItb at free
  split at free <;> cases free <;> exact ⟨_, _, _, _, rfl⟩

/-- `txg_commit` takes a block off the dirty list, to the free list or back into use. -/
theorem commitItb_eq (s : ItbServer Thread) (txg x : Nat) (rest : List Nat) :
    ∃ head lru, commitItb s txg x rest = { s with
      dirtyList := Function.update s.dirtyList txg rest
      head := head
      lru := lru } := by
  unfold commitItb
  split_ifs <;> exact ⟨_, _, rfl⟩

/-- `itb_dirty` changes the TXG, the state and the dirty lists of a block that may be used. -/
theorem itbDirty_use_eq {txg used x : Nat} (dirtied : itbDirty c s txg x = .use used t) :
    ∃ h lists, t = { s with head := Function.update s.head x h, dirtyList := lists } ∧
      h.key = (s.head x).key ∧ h.be = (s.head x).be := by
  have marked : ∀ txg, ∃ h lists, markDirty s txg x =
      { s with head := Function.update s.head x h, dirtyList := lists } ∧
      h.key = (s.head x).key ∧ h.be = (s.head x).be := by
    intro txg
    obtain ⟨listed, lists, same⟩ := markDirty_head s txg x
    exact ⟨_, lists, same, rfl, rfl⟩
  have itself : ∃ h lists, s = { s with head := Function.update s.head x h, dirtyList := lists } ∧
      h.key = (s.head x).key ∧ h.be = (s.head x).be :=
    ⟨s.head x, s.dirtyList, by rw [Function.update_eq_self], rfl, rfl⟩
  unfold itbDirty at dirtied
  simp only at dirtied
  split_ifs at dirtied with same older next older' state
  · split at dirtied <;> cases dirtied
    · exact itself
    · exact marked _
    · exact ⟨{ s.head x with state := .dirty }, s.dirtyList, rfl, rfl, rfl⟩
  · split at dirtied
    · cases dirtied
    · cases dirtied
      exact marked _
    · split at dirtied <;> cases dirtied
  · cases dirtied
    exact marked _
  · cases dirtied
    exact itself
  · cases dirtied
    exact itself

/-- `itb_dirty` copies a block that is DIRTY in the TXG before. -/
theorem itbDirty_cow_eq {txg x n be : Nat} (dirtied : itbDirty c s txg x = .cow n be t) :
    txg = (s.head x).txg + 1 ∧ (s.head x).state = .dirty ∧ (s.head x).be = some be ∧
      itbCowNew c s txg x = (n, t) := by
  unfold itbDirty at dirtied
  simp only at dirtied
  split_ifs at dirtied with same older
  · split at dirtied <;> cases dirtied
  · split at dirtied
    · cases dirtied
    · cases dirtied
    · rename_i state
      split at dirtied
      · cases dirtied
      · rename_i be' entry
        rcases copied : itbCowNew c s txg x with ⟨m, u⟩
        rw [copied] at dirtied
        cases dirtied
        exact ⟨older, state, entry, rfl⟩

/-- The header of a copy before it is put in the block's place. -/
theorem itbCowNew_eq {txg x n : Nat} (copied : itbCowNew c s txg x = (n, t)) :
    ∃ u, getFreeItb c s txg = (n, u) ∧
      t = (u.setHead n { s.head x with listed := false }).setBlock n
        (itbCowHeader (s.block x) (u.block n).ite) := by
  unfold itbCowNew at copied
  rcases free : getFreeItb c s txg with ⟨m, u⟩
  rw [free] at copied
  cases copied
  exact ⟨u, rfl, rfl⟩

variable [DecidableEq Thread] {thread : Thread} {request : Request} {x : Nat}

end Dirty

/-! ### How a search ends -/

section Searches

variable {Thread : Type} [DecidableEq Thread] {c : ItbConfig} {s t : ItbServer Thread}
  {thread : Thread} {request : Request} {x : Nat}

/-- The ways in which a search of a block ends. -/
inductive Visited (c : ItbConfig) (s : ItbServer Thread) (thread : Thread) (request : Request)
    (x : Nat) : ItbServer Thread → Prop
  | done {err : Int} {data : Option MduReply}
      (plan : itbPlan (s.block x) request.hi = some (.done err data)) :
      Visited c s thread request x (s.setStage thread (.returned request.txg err))
  | failed {act : SearchAct} (plan : itbPlan (s.block x) request.hi = some (.dirty act))
      (dirtied : itbDirty c (s.note request.txg x) request.txg x = .failed) :
      Visited c s thread request x { s.note request.txg x with halted := true }
  | copies {act : SearchAct} {n be : Nat} {u : ItbServer Thread}
      (plan : itbPlan (s.block x) request.hi = some (.dirty act))
      (dirtied : itbDirty c (s.note request.txg x) request.txg x = .cow n be u) :
      Visited c s thread request x (u.setStage thread (.cowWait request x n be))
  | uses {act : SearchAct} {txg : Nat} {u : ItbServer Thread} {result : SearchResult}
      (plan : itbPlan (s.block x) request.hi = some (.dirty act))
      (dirtied : itbDirty c (s.note request.txg x) request.txg x = .use txg u)
      (acted : itbAct u.hmi { u.block x with unlink := false } request.hi act = some result) :
      Visited c s thread request x
        ((u.write c request txg x result).setStage thread (.returned txg result.err))

theorem visited_of_visit (visited : visit c s thread request x = some t) :
    Visited c s thread request x t := by
  unfold visit at visited
  split at visited
  · cases visited
  · rename_i plan
    cases visited
    exact .done plan
  · rename_i act plan
    split at visited
    · rename_i dirtied
      cases visited
      exact .failed plan dirtied
    · rename_i dirtied
      cases visited
      exact .copies plan dirtied
    · rename_i dirtied
      obtain ⟨result, acted, rfl⟩ := Option.map_eq_some_iff.mp visited
      exact .uses plan dirtied acted

end Searches

/-! ### What a step does -/

/-- The thread has to do with no block. -/
def SearchStage.Away : SearchStage → Prop
  | .idle | .search _ | .miss _ | .returned _ _ => True
  | _ => False

section Moves

variable {Thread : Type} [DecidableEq Thread]

/-- A thread comes to a block with a lock, in a step from `s`, when it has brought the server to
the state `u`. -/
inductive Comes (c : ItbConfig) (s : ItbServer Thread) :
    ServerEvent Thread → Thread → Request → Nat → ItbServer Thread → Prop
  | search {thread : Thread} {active : Bool} {request : Request} {x : Nat}
      (stage : s.stage thread = .search request) (found : s.attached c request.key = some x)
      (ready : (s.head x).state ≠ .cowed) :
      Comes c s (.search thread active) thread request x s
  | hit {thread : Thread} {request : Request} {y : Nat} {unused : Option Nat}
      (stage : s.stage thread = .insertHit request y unused)
      (ready : ((freeUnused s thread request y unused).head y).state ≠ .cowed) :
      Comes c s (.hit thread) thread request y (freeUnused s thread request y unused)
  | again {thread : Thread} {request : Request} {n : Nat}
      (stage : s.stage thread = .cowWon request n) :
      Comes c s (.again thread) thread request n (s.addCopy request n)

/-- Everything that a step can do. -/
inductive Moves (c : ItbConfig) (s : ItbServer Thread) :
    ServerEvent Thread → ItbServer Thread → Prop
  | stays {event : ServerEvent Thread} : Moves c s event s
  | goesOn {event : ServerEvent Thread} {thread : Thread} {stage : SearchStage}
      (old : (s.stage thread).Away ∨ ∃ request n, s.stage thread = .insert request n)
      (new : stage.Away)
      (held : ∀ txg, stage.held = some txg →
        txg = s.openTxg ∨ (s.stage thread).held = some txg) :
      Moves c s event (s.setStage thread stage)
  | visits {event : ServerEvent Thread} {thread : Thread} {request : Request} {x : Nat}
      {u t : ItbServer Thread} (comes : Comes c s event thread request x u)
      (visited : Visited c u thread request x t) : Moves c s event t
  | gets {thread : Thread} {request : Request} {n : Nat} {u : ItbServer Thread}
      (stage : s.stage thread = .miss request) (creates : Creates request.hi = true)
      (free : getFreeItb c s request.txg = (n, u)) :
      Moves c s (.getFree thread true) ((u.setHead n { u.head n with key := request.key }).setStage
        thread (.insert request n))
  | meets {thread : Thread} {request : Request} {n y : Nat}
      (stage : s.stage thread = .insert request n)
      (found : s.attached c (s.head n).key = some y) :
      Moves c s (.insert thread true) (s.setStage thread (.insertHit request y (some n)))
  | attaches {thread : Thread} {request : Request} {n : Nat}
      (stage : s.stage thread = .insert request n)
      (fresh : s.attached c (s.head n).key = none) :
      Moves c s (.insert thread true) ({ s with
        chain := Function.update s.chain (c.bucket (s.head n).key)
          (n :: s.chain (c.bucket (s.head n).key))
        head := Function.update s.head n
          { s.head n with be := some (c.bucket (s.head n).key) } }.setStage thread
        (.insertHit request n none))
  | misses {thread : Thread} {request : Request} {y : Nat} {unused : Option Nat}
      (stage : s.stage thread = .insertHit request y unused)
      (cowed : ((freeUnused s thread request y unused).head y).state = .cowed) :
      Moves c s (.hit thread) ((freeUnused s thread request y unused).setStage thread
        (.search request))
  | wins {thread : Thread} {request : Request} {x n be : Nat}
      (stage : s.stage thread = .cowWait request x n be)
      (replaceable : s.Replaceable request x be) :
      Moves c s (.swap thread) ((s.replace request.txg x n be).setStage thread (.cowWon request n))
  | loses {thread : Thread} {request : Request} {x n be : Nat}
      (stage : s.stage thread = .cowWait request x n be) :
      Moves c s (.swap thread) (s.setStage thread (.cowLost request n))
  | lost {thread : Thread} {request : Request} {n : Nat}
      (stage : s.stage thread = .cowLost request n) :
      Moves c s (.lost thread) ((itbFree s n).setStage thread (.search request))
  | switches (idle : s.wb = none) : Moves c s .switch s.txgSwitch
  | starts {txg : Nat} (waiting : s.wb = some ⟨txg, false⟩)
      (free : ∀ thread, (s.stage thread).held ≠ some txg) :
      Moves c s .commitStart { s with wb := some ⟨txg, true⟩ }
  | commits {txg x : Nat} {rest : List Nat} (walking : s.wb = some ⟨txg, true⟩)
      (list : s.dirtyList txg = x :: rest) : Moves c s .commitWalk (commitItb s txg x rest)
  | ends {txg : Nat} (walking : s.wb = some ⟨txg, true⟩) (empty : s.dirtyList txg = []) :
      Moves c s .commitEnd { s with wb := none }
  | reclaims {steps limit x : Nat} {count : UnlinkCount} {result : Itb × UnlinkCount}
      (reached : s.unlink.next^[steps + 1] none = some x) (ready : (s.head x).state ≠ .cowed)
      (removed : asyncUnlinkIte limit (s.block x) count = some result) :
      Moves c s (.reclaim steps limit count) (s.setBlock x result.1)

variable {c : ItbConfig} {s t : ItbServer Thread} {thread : Thread} {request : Request}

theorem searchStep_moves {active : Bool} (stage : s.stage thread = .search request)
    (step : searchStep c s thread request active = some t) :
    Moves c s (.search thread active) t := by
  have old : (s.stage thread).Away := by
    rw [stage]
    trivial
  have held : (s.stage thread).held = some request.txg := by
    rw [stage]
    rfl
  unfold searchStep at step
  split_ifs at step
  · rcases found : s.attached c request.key with _ | x <;> rw [found] at step <;> simp only at step
    · cases step
      exact .goesOn (Or.inl old) trivial fun txg same => Or.inr (held.trans same)
    · split_ifs at step with cowed
      · cases step
        exact .stays
      · exact .visits (.search stage found cowed) (visited_of_visit step)
  · cases step
    exact .goesOn (Or.inl old) trivial fun txg same => Or.inr (held.trans same)
  · cases step
    exact .goesOn (Or.inl old) trivial fun txg same => Or.inr (held.trans same)

theorem missStep_moves {room : Bool} (stage : s.stage thread = .miss request) :
    Moves c s (.getFree thread room) (missStep c s thread request room) := by
  have old : (s.stage thread).Away := by
    rw [stage]
    trivial
  have held : (s.stage thread).held = some request.txg := by
    rw [stage]
    rfl
  unfold missStep
  split_ifs with creates hasRoom
  · rw [hasRoom]
    rcases free : getFreeItb c s request.txg with ⟨n, u⟩
    exact .gets stage creates free
  · exact .goesOn (Or.inl old) trivial fun txg same => Or.inr (held.trans same)
  · exact .goesOn (Or.inl old) trivial fun txg same => Or.inr (held.trans same)

theorem insertStep_moves {n : Nat} {ok : Bool} (stage : s.stage thread = .insert request n) :
    Moves c s (.insert thread ok) (insertStep c s thread request n ok) := by
  unfold insertStep
  split_ifs with comes
  · rw [comes]
    simp only
    split
    · rename_i y found
      exact .meets stage found
    · rename_i fresh
      exact .attaches stage fresh
  · refine .goesOn (Or.inr ⟨request, n, stage⟩) trivial fun txg same => Or.inr ?_
    rw [stage, ← same]
    rfl

/-- A step does what `Moves` lists. -/
theorem moves_of_serverStep [Fintype Thread] {event : ServerEvent Thread}
    (step : serverStep c s event = some t) :
    Moves c s event t := by
  unfold serverStep at step
  have running : ¬s.halted = true := by
    intro halted
    rw [if_pos halted] at step
    cases step
  rw [if_neg running] at step
  cases event with
  | begin thread hi =>
    simp only at step
    split at step
    · rename_i stage
      cases step
      refine .goesOn (Or.inl (by rw [stage]; trivial)) trivial fun txg same => Or.inl ?_
      cases same
      rfl
    · cases step
  | search thread active =>
    simp only at step
    split at step
    · exact searchStep_moves ‹_› step
    · cases step
  | getFree thread room =>
    simp only at step
    split at step
    · cases step
      exact missStep_moves ‹_›
    · cases step
  | insert thread ok =>
    simp only at step
    split at step
    · cases step
      exact insertStep_moves ‹_›
    · cases step
  | hit thread =>
    simp only at step
    split at step
    · rename_i stage
      unfold hitStep at step
      simp only at step
      split_ifs at step with cowed
      · cases step
        exact .misses stage cowed
      · exact .visits (.hit stage cowed) (visited_of_visit step)
    · cases step
  | swap thread =>
    simp only at step
    split at step
    · rename_i stage
      cases step
      unfold swapStep
      split_ifs with replaceable
      · exact .wins stage replaceable
      · exact .loses stage
    · cases step
  | lost thread =>
    simp only at step
    split at step
    · rename_i stage
      cases step
      exact .lost stage
    · cases step
  | again thread =>
    simp only at step
    split at step
    · rename_i stage
      exact .visits (.again stage) (visited_of_visit step)
    · cases step
  | put thread =>
    simp only at step
    split at step
    · rename_i stage
      cases step
      exact .goesOn (Or.inl (by rw [stage]; trivial)) trivial nofun
    · cases step
  | switch =>
    simp only at step
    split_ifs at step with idle
    cases step
    exact .switches idle
  | commitStart =>
    simp only at step
    split at step
    · rename_i waiting
      split_ifs at step with pending
      cases step
      exact .starts waiting fun thread held => pending ⟨thread, held⟩
    · cases step
  | commitWalk =>
    simp only at step
    split at step
    · rename_i walking
      split at step
      · cases step
      · rename_i list
        cases step
        exact .commits walking list
    · cases step
  | commitEnd =>
    simp only at step
    split at step
    · rename_i walking
      split_ifs at step with empty
      cases step
      exact .ends walking empty
    · cases step
  | reclaim steps limit count =>
    simp only at step
    split at step
    · rename_i x reached
      unfold reclaimItb at step
      split_ifs at step with cowed
      · cases step
        exact .stays
      · obtain ⟨result, removed, rfl⟩ := Option.map_eq_some_iff.mp step
        exact .reclaims reached cowed removed
    · cases step

/-! ### The logs -/

/-- No call, no write and no modification is noted. -/
structure SameLogs (s t : ItbServer Thread) : Prop where
  calls : t.calls = s.calls
  written : t.written = s.written
  modified : t.modified = s.modified

omit [DecidableEq Thread] in
theorem getFreeItb_sameLogs {txg n : Nat} (free : getFreeItb c s txg = (n, t)) : SameLogs s t := by
  obtain ⟨allocated, lru, chain, block, rfl⟩ := getFreeItb_eq free
  exact ⟨rfl, rfl, rfl⟩

theorem freeUnused_sameLogs (s : ItbServer Thread) (thread : Thread) (request : Request) (y : Nat)
    (unused : Option Nat) : SameLogs s (freeUnused s thread request y unused) := by
  cases unused <;> exact ⟨rfl, rfl, rfl⟩

/-- A search notes at most its own call, and only if it comes to one. -/
theorem Visited.calls {x : Nat}
    (visited : Visited c s thread request x t) :
    t.calls = s.calls ∨ (∃ act, itbPlan (s.block x) request.hi = some (.dirty act)) ∧
      t.calls = s.calls ++ [⟨request.txg, (s.head x).txg, (s.head x).state, s.openTxg⟩] := by
  cases visited with
  | done plan => exact Or.inl rfl
  | failed plan dirtied => exact Or.inr ⟨⟨_, plan⟩, rfl⟩
  | copies plan dirtied =>
    obtain ⟨-, -, -, copied⟩ := itbDirty_cow_eq dirtied
    obtain ⟨u, free, rfl⟩ := itbCowNew_eq copied
    exact Or.inr ⟨⟨_, plan⟩, (getFreeItb_sameLogs free).calls⟩
  | uses plan dirtied acted =>
    obtain ⟨h, lists, rfl, _⟩ := itbDirty_use_eq dirtied
    exact Or.inr ⟨⟨_, plan⟩, rfl⟩

/-- Coming to a block changes no block, no TXG and no state. -/
structure Brings (s u : ItbServer Thread) (thread : Thread) : Prop where
  logs : SameLogs s u
  block : u.block = s.block
  openTxg : u.openTxg = s.openTxg
  wb : u.wb = s.wb
  chain : u.chain = s.chain
  unlink : u.unlink = s.unlink
  head : ∀ x, ∃ listed, u.head x = { s.head x with listed := listed }
  stage : ∀ other, other ≠ thread → u.stage other = s.stage other

theorem Comes.brings {event : ServerEvent Thread} {x : Nat} {u : ItbServer Thread}
    (comes : Comes c s event thread request x u) : Brings s u thread := by
  cases comes with
  | search stage found ready =>
    exact ⟨⟨rfl, rfl, rfl⟩, rfl, rfl, rfl, rfl, rfl, fun x => ⟨_, rfl⟩, fun _ _ => rfl⟩
  | @hit _ _ _ unused stage ready =>
    cases unused with
    | none => exact ⟨⟨rfl, rfl, rfl⟩, rfl, rfl, rfl, rfl, rfl, fun x => ⟨_, rfl⟩, fun _ _ => rfl⟩
    | some n =>
      refine ⟨⟨rfl, rfl, rfl⟩, rfl, rfl, rfl, rfl, rfl, fun x => ?_, fun other apart =>
        Function.update_of_ne apart _ _⟩
      by_cases same : x = n
      · rw [same]
        exact ⟨true, Function.update_self _ _ _⟩
      · exact ⟨(s.head x).listed, Function.update_of_ne same _ _⟩
  | again stage =>
    obtain ⟨listed, lists, same⟩ := addCopy_eq s request x
    rw [same]
    refine ⟨⟨rfl, rfl, rfl⟩, rfl, rfl, rfl, rfl, rfl, fun y => ?_, fun _ _ => rfl⟩
    by_cases isX : y = x
    · rw [isX]
      exact ⟨listed, Function.update_self _ _ _⟩
    · exact ⟨(s.head y).listed, Function.update_of_ne isX _ _⟩

/-- Coming to a block takes no block off a dirty list. -/
theorem Comes.dirtyList {event : ServerEvent Thread} {x : Nat} {u : ItbServer Thread}
    (comes : Comes c s event thread request x u) {txg y : Nat} (member : y ∈ s.dirtyList txg) :
    y ∈ u.dirtyList txg := by
  cases comes with
  | search stage found ready => exact member
  | @hit _ _ _ unused stage ready =>
    cases unused <;> exact member
  | again stage => exact txgAddItb_lists _ request.txg x txg y member

/-- Only the search of a block is noted. -/
theorem Moves.sameLogs {event : ServerEvent Thread} (moves : Moves c s event t) :
    (∃ thread request x u, Comes c s event thread request x u ∧
      Visited c u thread request x t) ∨ SameLogs s t := by
  cases moves with
  | visits comes visited => exact Or.inl ⟨_, _, _, _, comes, visited⟩
  | gets stage creates free =>
    obtain ⟨calls, written, modified⟩ := getFreeItb_sameLogs free
    exact Or.inr ⟨calls, written, modified⟩
  | @misses thread request y unused stage cowed =>
    obtain ⟨calls, written, modified⟩ := freeUnused_sameLogs s thread request y unused
    exact Or.inr ⟨calls, written, modified⟩
  | @commits txg x rest walking list =>
    obtain ⟨head, lru, same⟩ := commitItb_eq s txg x rest
    rw [same]
    exact Or.inr ⟨rfl, rfl, rfl⟩
  | _ => exact Or.inr ⟨rfl, rfl, rfl⟩

end Moves

end Hvfs
