/-
This file proves that every step of the server keeps the invariant, as long as
no block is taken off the free list that a thread comes back to. Most steps are
an operation or two on single blocks; the search of a block is what the requests
have in common, and it is settled once for the three places it is called from.
-/

import Hvfs.ItbMoves
import Hvfs.ItbOperations
import Hvfs.Library.Transition

namespace Hvfs

open Transition

section Steps

variable {Thread : Type} {steady : Prop} {c : ItbConfig} {s t : ItbServer Thread}
  {place : Nat → Place Thread}

/-- A block that `itb_dirty` lets a request use is DIRTY in the TXG that it returns. -/
theorem Sound.itbDirty_use (sound : Sound steady c s place) {txg used x : Nat} (live : s.Live txg)
    (isUsed : (place x).Used) (kept : steady → (s.head x).state ≠ .cowed)
    (dirtied : itbDirty c s txg x = .use used t) :
    Sound steady c t place ∧ s.Live used ∧ (t.head x).state = .dirty ∧ (t.head x).txg = used ∧
      ((s.head x).state ≠ .clean → t.dirtyList = s.dirtyList ∧ used = (s.head x).txg) := by
  obtain ⟨below, above⟩ := sound.live_bounds live
  have notAfter := (sound.blocks x).usedTxg isUsed
  have marked : ∀ txg, (Hvfs.markDirty s txg x).head x = { (s.head x) with
      txg := txg, state := .dirty, listed := ((Hvfs.markDirty s txg x).head x).listed } := by
    intro txg
    obtain ⟨listed, lists, same⟩ := markDirty_head s txg x
    rw [same]
    simp
  have clean_marked : (s.head x).state = .clean → t = Hvfs.markDirty s txg x → used = txg →
      Sound steady c t place ∧ s.Live used ∧ (t.head x).state = .dirty ∧ (t.head x).txg = used ∧
        ((s.head x).state ≠ .clean → t.dirtyList = s.dirtyList ∧ used = (s.head x).txg) := by
    rintro clean rfl rfl
    exact ⟨sound.markDirty live isUsed clean, live, by rw [marked], by rw [marked],
      fun changed => absurd clean changed⟩
  unfold itbDirty at dirtied
  simp only at dirtied
  split_ifs at dirtied with same older next older' state
  · rcases state : (s.head x).state with _ | _ | _ <;> rw [state] at dirtied <;> cases dirtied
    · simpa only [state] using clean_marked state rfl rfl
    · exact ⟨sound, live, state, same.symm, fun _ => ⟨rfl, same⟩⟩
    · refine ⟨sound.revive isUsed state fun steadily => kept steadily state, live, ?_, ?_,
        fun _ => ⟨rfl, same⟩⟩
      · simp [ItbServer.setHead]
      · simpa [ItbServer.setHead] using same.symm
  · rcases state : (s.head x).state with _ | _ | _ <;> rw [state] at dirtied
    · cases dirtied
      simpa only [state] using clean_marked state rfl rfl
    · rcases entry : (s.head x).be with _ | be <;> rw [entry] at dirtied <;> cases dirtied
    · cases dirtied
  · cases dirtied
    refine clean_marked ?_ rfl rfl
    by_contra changed
    have bound := sound.dirty_bounds isUsed changed
    omega
  · cases dirtied
    exact ⟨sound, Or.inl rfl, state.1, state.2.symm, fun _ => ⟨rfl, state.2⟩⟩
  · cases dirtied
    omega

/-! ### A block is searched -/

theorem Sound.note (sound : Sound steady c s place) (txg x : Nat) :
    Sound steady c (s.note txg x) place :=
  sound.rewrite x rfl rfl rfl rfl rfl rfl rfl rfl (fun _ _ => rfl) fun _ => id

/-- The copy that `itb_dirty` returns is on the dirty list. -/
theorem Sound.addCopy (sound : Sound steady c s place) {thread : Thread}
    {request : Request} {n : Nat}
    (stage : s.stage thread = .cowWon request n) :
    Sound steady c (s.addCopy request n) place ∧
      n ∈ (s.addCopy request n).dirtyList ((s.addCopy request n).head n).txg := by
  have noted : Sound steady c { s with dirtied := s.dirtied ++ [(request.txg, n)] } place :=
    sound.rewrite n rfl rfl rfl rfl rfl rfl rfl rfl (fun _ _ => rfl) fun _ => id
  exact noted.addWon stage

variable [DecidableEq Thread] {thread : Thread} {request : Request} {x : Nat}

/-- A thread has come to a block, and holds the lock. -/
structure Visits (steady : Prop) (s : ItbServer Thread) (place : Nat → Place Thread)
    (thread : Thread)
    (request : Request) (x : Nat) : Prop where
  held : (s.stage thread).held = some request.txg
  used : (place x).Used
  key : (s.head x).key = request.key
  ready : (s.head x).state ≠ .cowed ∨ (s.head x).txg = request.txg
  kept : steady → (s.head x).state ≠ .cowed
  added : ∀ other n, s.stage thread = .cowWon other n → n = x ∧ n ∈ s.dirtyList (s.head n).txg
  awaits : ∀ y txg, (s.stage thread).Awaits y txg →
    y = x ∧ txg = request.txg ∧ Creates request.hi = true

/-- A thread that copies a block goes away with the copy. -/
theorem Sound.copies (sound : Sound steady c s place)
    (visits : Visits steady s place thread request x)
    {n be : Nat} (dirtied : itbDirty c s request.txg x = .cow n be t)
    (unseen : n ∈ s.lru → ∀ other, (s.stage other).pointsTo ≠ some n) :
    ∃ after, Sound steady c (t.setStage thread (.cowWait request x n be)) after := by
  obtain ⟨next, dirty, entry, copied⟩ := itbDirty_cow_eq dirtied
  obtain ⟨u, free, rfl⟩ := itbCowNew_eq copied
  have got := sound.got free
  have live := sound.heldLive thread _ visits.held
  have apart : x ≠ n := by
    rintro rfl
    have used := visits.used
    rcases got.spare with at_ | at_ <;> rw [at_] at used <;> exact used
  have placeX : Function.update place n (.handed thread) x = place x :=
    Function.update_of_ne apart _ _
  have headX : u.head x = s.head x := by
    rw [got.head, Function.update_of_ne apart]
  have onChain : c.bucket request.key = be := by
    rcases at_ : place x with _ | _ | _ | e | _
    · exact absurd visits.used (by rw [at_]; exact id)
    · exact absurd visits.used (by rw [at_]; exact id)
    · exact absurd visits.used (by rw [at_]; exact id)
    · obtain ⟨sameEntry, bucket, _⟩ := (sound.blocks x).chainHead e at_
      rw [entry] at sameEntry
      cases sameEntry
      rw [← visits.key, bucket]
    · rw [((sound.blocks x).looseHead at_).1] at entry
      cases entry
  have taken := sound.getFree thread free unseen
  have filled := taken.fill (h := { s.head x with listed := false })
    (Function.update_self n (.handed thread) place)
    (by
      rw [got.stage]
      refine sound.not_hands fun other at_ => ?_
      rcases got.spare with spare | spare <;> rw [spare] at at_ <;> cases at_)
    rfl (by rw [dirty]; rintro ⟨⟩)
    (fun _ => by
      have bound := (sound.live_bounds live).1
      rw [got.openTxg]
      simp only
      omega)
  have copy := filled.rewrite (t := (u.setHead n { s.head x with listed := false }).setBlock n
      (itbCowHeader (s.block x) (u.block n).ite)) n rfl rfl rfl rfl rfl rfl rfl rfl
    (fun y other => Function.update_of_ne other _ _)
    (fun clean => by simp [ItbServer.setHead, dirty] at clean)
  have headAfter : ((u.setHead n { s.head x with listed := false }).setBlock n
      (itbCowHeader (s.block x) (u.block n).ite)).head x = s.head x := by
    simp [ItbServer.setHead, ItbServer.setBlock, Function.update_of_ne apart, headX]
  refine ⟨_, copy.setStage (fun txg held => ?_) (fun y hands => ?_) ?_ (fun other m stage => ?_)
    fun y awaits _ => ?_⟩
  · cases held
    exact (live_congr (s := s) got.openTxg got.wb _).mpr live
  · cases hands
    exact Function.update_self _ _ _
  · refine ⟨⟨by rw [headAfter]; exact visits.key, Or.inl (by rw [placeX]; exact visits.used)⟩, ?_,
      onChain⟩
    simpa [ItbServer.setHead, ItbServer.setBlock] using visits.key
  · obtain ⟨rfl, member⟩ := visits.added other m (by rw [← got.stage]; exact stage)
    rw [headAfter]
    simpa [ItbServer.setHead, ItbServer.setBlock, got.dirtyList] using member
  · obtain ⟨rfl, _, _⟩ := visits.awaits y _ (by rw [← got.stage]; exact awaits)
    rw [headAfter, dirty]
    rintro ⟨⟩

/-- A thread that uses a block leaves it DIRTY. -/
theorem Sound.uses (sound : Sound steady c s place)
    (visits : Visits steady s place thread request x)
    {txg : Nat} {result : SearchResult} (dirtied : itbDirty c s request.txg x = .use txg t) :
    Sound steady c
      ((t.write c request txg x result).setStage thread (.returned txg result.err)) place := by
  have live := sound.heldLive thread _ visits.held
  obtain ⟨after, liveUsed, dirty, _, kept⟩ := sound.itbDirty_use live visits.used
    visits.kept dirtied
  obtain ⟨h, lists, same, _⟩ := itbDirty_use_eq dirtied
  have sameStage : t.stage = s.stage := by rw [same]
  have sameLive : t.Live txg := by
    rw [live_congr (s := s) (by rw [same]) (by rw [same])]
    exact liveUsed
  have written := after.rewrite (t := t.write c request txg x result) x rfl rfl rfl rfl rfl rfl rfl
    rfl (fun y other => Function.update_of_ne other _ _)
    (fun clean => by rw [dirty] at clean; cases clean)
  refine written.setStage (fun other held => ?_) nofun trivial (fun other m stage => ?_)
    fun y awaits _ => ?_
  · cases held
    exact sameLive
  · have isWon : s.stage thread = .cowWon other m := by
      rw [← sameStage]
      exact stage
    obtain ⟨rfl, member⟩ := visits.added other m isWon
    have known := sound.stages thread
    rw [isWon] at known
    obtain ⟨sameLists, sameTxg⟩ := kept known.2.2.2.1
    have headTxg : (t.head m).txg = (s.head m).txg := by
      rw [‹(t.head m).txg = txg›, sameTxg]
    show m ∈ t.dirtyList (t.head m).txg
    rw [sameLists, headTxg]
    exact member
  · obtain ⟨rfl, _⟩ := visits.awaits y _ (by rw [← sameStage]; exact awaits)
    show (t.head y).state ≠ .clean
    rw [dirty]
    exact nofun

/-- A search of a block keeps the invariant. -/
theorem Sound.visit (sound : Sound steady c s place)
    (visits : Visits steady s place thread request x)
    (visited : Visited c s thread request x t)
    (unseen : ∀ n ∈ s.lru, n ∉ t.lru → ∀ other, (s.stage other).pointsTo ≠ some n) :
    ∃ after, Sound steady c t after := by
  have noted := sound.note request.txg x
  have comes : Visits steady (s.note request.txg x) place thread request x :=
    ⟨visits.held, visits.used, visits.key, visits.ready, visits.kept, visits.added,
      visits.awaits⟩
  cases visited with
  | done plan =>
    refine ⟨place, sound.setStage (fun txg held => ?_) nofun trivial
      (fun other n stage => ?_) fun y awaits blank => ?_⟩
    · cases held
      exact sound.heldLive thread _ visits.held
    · obtain ⟨rfl, member⟩ := visits.added other n stage
      exact member
    · obtain ⟨rfl, _, creates⟩ := visits.awaits y _ awaits
      rw [itbPlan_blank blank creates] at plan
      cases plan
  | failed plan dirtied =>
    exact ⟨place, noted.rewrite x rfl rfl rfl rfl rfl rfl rfl rfl (fun _ _ => rfl) fun _ => id⟩
  | @copies act n be u plan dirtied =>
    refine noted.copies comes dirtied fun member => unseen n member ?_
    obtain ⟨-, -, -, copied⟩ := itbDirty_cow_eq dirtied
    obtain ⟨free, got, rfl⟩ := itbCowNew_eq copied
    exact (noted.getFree_lists got).2.1
  | uses plan dirtied acted => exact ⟨place, noted.uses comes dirtied⟩

/-! ### A thread comes to a block -/

/-- A thread that found another block under the key gives its own back. -/
theorem Sound.freeUnused (sound : Sound steady c s place) {y : Nat} {unused : Option Nat}
    (stage : s.stage thread = .insertHit request y unused) :
    ∃ after, Sound steady c (freeUnused s thread request y unused) after ∧
      (freeUnused s thread request y unused).stage thread = .insertHit request y none ∧
      (∀ other, ((freeUnused s thread request y unused).stage other).pointsTo =
        (s.stage other).pointsTo) ∧
      ∀ n ∈ (freeUnused s thread request y unused).lru, n ∉ s.lru →
        ∀ other, (s.stage other).pointsTo ≠ some n := by
  have known := sound.stages thread
  rw [stage] at known
  cases unused with
  | none => exact ⟨place, sound, stage, fun _ => rfl, fun n member off => absurd member off⟩
  | some n =>
    have at_ : place n = .handed thread := sound.handed thread n (by rw [stage]; rfl)
    have left : Sound steady c (s.setStage thread (.insertHit request y none)) place := by
      refine sound.setStage (fun txg held => ?_) nofun known (fun other m isWon => ?_)
        fun m awaits _ => ?_
      · refine sound.heldLive thread txg ?_
        rw [stage]
        exact held
      · rw [stage] at isWon
        cases isWon
      · obtain ⟨other, isStage, _⟩ := awaits
        rw [stage] at isStage
        cases isStage
    have kept : ∀ other, ((s.setStage thread (.insertHit request y none)).stage other).hands ≠
        some n := by
      intro other hands
      have isAt := left.handed other n hands
      rw [at_] at isAt
      cases isAt
      rw [setStage_self] at hands
      cases hands
    have stageAfter : (Hvfs.freeUnused s thread request y (some n)).stage thread =
        .insertHit request y none := setStage_self _ _
    refine ⟨_, left.giveBack at_ kept, stageAfter, fun other => ?_, fun m member off other => ?_⟩
    · by_cases same : other = thread
      · rw [same, stage, stageAfter]
        rfl
      · exact congrArg SearchStage.pointsTo (setStage_of_ne same _)
    · rcases List.mem_append.mp member with old | new
      · exact absurd old off
      · rw [List.mem_singleton.mp new]
        intro points
        rcases sound.seen_place points with used | free
        · rw [at_] at used
          exact used
        · rw [at_] at free
          cases free

/-- A thread that comes to a block finds it in use. -/
theorem Sound.comes (sound : Sound steady c s place) {event : ServerEvent Thread}
    {u : ItbServer Thread}
    (comes : Comes c s event thread request x u) :
    ∃ after, Sound steady c u after ∧ Visits steady u after thread request x ∧
      (∀ other, (u.stage other).pointsTo = (s.stage other).pointsTo) ∧
      ∀ n ∈ u.lru, n ∉ s.lru → ∀ other, (s.stage other).pointsTo ≠ some n := by
  cases comes with
  | search stage found ready =>
    obtain ⟨at_, key⟩ := sound.attached_some found
    refine ⟨place, sound, ⟨by rw [stage]; rfl, by rw [at_]; trivial, key, Or.inl ready,
      fun _ => ready, ?_, ?_⟩, fun _ => rfl, fun n member off => absurd member off⟩
    · intro other n isWon
      rw [stage] at isWon
      cases isWon
    · rintro y txg ⟨other, isStage, _⟩
      rw [stage] at isStage
      cases isStage
  | hit stage ready =>
    obtain ⟨after, soundAfter, stageAfter, points, lru⟩ := sound.freeUnused stage
    have known := soundAfter.stages thread
    rw [stageAfter] at known
    obtain ⟨key, used | ⟨_, cowed, _⟩⟩ := known
    · refine ⟨after, soundAfter, ⟨by rw [stageAfter]; rfl, used, key, Or.inl ready, fun _ => ready,
        ?_, ?_⟩, points, lru⟩
      · intro other n isWon
        rw [stageAfter] at isWon
        cases isWon
      · rintro y txg ⟨other, isStage, same, creates⟩
        rw [stageAfter] at isStage
        cases isStage
        exact ⟨rfl, same.symm, creates⟩
    · exact absurd cowed ready
  | again stage =>
    obtain ⟨added, member⟩ := sound.addCopy stage
    obtain ⟨listed, lists, same⟩ := addCopy_eq s request x
    have sameStage : (s.addCopy request x).stage = s.stage := by rw [same]
    have known := added.stages thread
    rw [sameStage, stage] at known
    obtain ⟨used, key, txg, _, kept⟩ := known
    refine ⟨place, added, ⟨by rw [sameStage, stage]; rfl, used, key, Or.inr txg, kept, ?_, ?_⟩,
      fun other => by rw [sameStage], fun n isFree off => ?_⟩
    · intro other n isWon
      rw [sameStage, stage] at isWon
      cases isWon
      exact ⟨rfl, member⟩
    · rintro y txg ⟨other, isStage, _⟩
      rw [sameStage, stage] at isStage
      cases isStage
    · rw [same] at isFree
      exact absurd isFree off

/-! ### The asynchronous unlink -/

/-- The pass leaves a blank block as it is. -/
theorem asyncUnlinkIte_blank {i : Itb} (blank : Blank i) (limit : Nat) (count : UnlinkCount) :
    asyncUnlinkIte limit i count = some (i, count) := by
  have heads : ∀ left, asyncUnlinkHeads limit left i count = some (i, count) := by
    intro left
    induction left with
    | zero => rfl
    | succ left inductionHypothesis =>
      unfold asyncUnlinkHeads
      simp only [blank (i.total - (left + 1)), if_true]
      exact inductionHypothesis
  exact heads i.total

/-! ### The other steps of a request -/

/-- No thread comes back to a block that the step from `s` to `t` takes off the free list. -/
def Unseen (s t : ItbServer Thread) : Prop :=
  ∀ n ∈ s.lru, n ∉ t.lru → ∀ thread, (s.stage thread).pointsTo ≠ some n

omit [DecidableEq Thread] in
/-- A thread that has a block in its hands has neither won a copy nor awaits a block. -/
theorem hands_free {n : Nat} (hands : (s.stage thread).hands = some n) :
    (∀ other m, s.stage thread ≠ .cowWon other m) ∧
      ∀ y txg, ¬(s.stage thread).Awaits y txg := by
  refine ⟨fun other m isStage => ?_, ?_⟩
  · rw [isStage] at hands
    cases hands
  · rintro y txg ⟨other, isStage, _⟩
    rw [isStage] at hands
    cases hands

theorem Sound.gets (sound : Sound steady c s place) {n : Nat} {u : ItbServer Thread}
    (stage : s.stage thread = .miss request) (creates : Creates request.hi = true)
    (free : getFreeItb c s request.txg = (n, u))
    (unseen : Unseen s ((u.setHead n { u.head n with key := request.key }).setStage thread
      (.insert request n))) :
    ∃ after, Sound steady c ((u.setHead n { u.head n with key := request.key }).setStage thread
      (.insert request n)) after := by
  have got := sound.got free
  have headN : u.head n = { txg := request.txg } := by
    rw [got.head, Function.update_self]
  have taken := sound.getFree thread free fun member =>
    unseen n member (sound.getFree_lists free).2.1
  have filled := taken.fill (h := { u.head n with key := request.key })
    (Function.update_self n (.handed thread) place)
    (by
      rw [got.stage]
      refine sound.not_hands fun other at_ => ?_
      rcases got.spare with spare | spare <;> rw [spare] at at_ <;> cases at_)
    (by rw [headN]) (by rw [headN]; exact nofun) (by rw [headN]; exact nofun)
  refine ⟨_, filled.setStage (fun txg held => ?_) (fun y hands => ?_) ?_ (fun other m isStage => ?_)
    fun y awaits _ => ?_⟩
  · refine (live_congr (s := s) got.openTxg got.wb _).mpr (sound.heldLive thread txg ?_)
    rw [stage]
    exact held
  · cases hands
    exact Function.update_self _ _ _
  · refine ⟨?_, ?_, ?_, got.blank, creates⟩ <;> simp [ItbServer.setHead, headN]
  · have isWon : s.stage thread = .cowWon other m := by
      rw [← got.stage]
      exact isStage
    rw [stage] at isWon
    cases isWon
  · obtain ⟨other, isStage, _⟩ := awaits
    have isHit : s.stage thread = .insertHit other y none := by
      rw [← got.stage]
      exact isStage
    rw [stage] at isHit
    cases isHit

theorem Sound.meets (sound : Sound steady c s place) {n y : Nat}
    (stage : s.stage thread = .insert request n)
    (found : s.attached c (s.head n).key = some y) :
    Sound steady c (s.setStage thread (.insertHit request y (some n))) place := by
  have known := sound.stages thread
  rw [stage] at known
  obtain ⟨at_, key⟩ := sound.attached_some found
  have hands : (s.stage thread).hands = some n := by
    rw [stage]
    rfl
  refine sound.setStage (fun txg held => ?_) (fun x isHands => ?_) ?_
    (fun other m isStage => absurd isStage ((hands_free hands).1 other m))
    fun x awaits _ => absurd awaits ((hands_free hands).2 x _)
  · refine sound.heldLive thread txg ?_
    rw [stage]
    exact held
  · cases isHands
    exact sound.handed thread n hands
  · exact ⟨key.trans known.1, Or.inl (by rw [at_]; trivial)⟩

theorem Sound.attaches (sound : Sound steady c s place) {n : Nat}
    (stage : s.stage thread = .insert request n)
    (fresh : s.attached c (s.head n).key = none) :
    Sound steady c ({ s with
      chain := Function.update s.chain (c.bucket (s.head n).key)
        (n :: s.chain (c.bucket (s.head n).key))
      head := Function.update s.head n
        { s.head n with be := some (c.bucket (s.head n).key) } }.setStage thread
      (.insertHit request n none))
      (Function.update place n (.chained (c.bucket (s.head n).key))) := by
  have known := sound.stages thread
  rw [stage] at known
  obtain ⟨key, txg, clean, blank, creates⟩ := known
  have hands : (s.stage thread).hands = some n := by
    rw [stage]
    rfl
  have live : s.Live (s.head n).txg := by
    rw [txg]
    refine sound.heldLive thread _ ?_
    rw [stage]
    rfl
  have attached := @Sound.attach _ _ _ _ _ _ sound thread n (c.bucket (s.head n).key)
    { s.head n with be := some (c.bucket (s.head n).key) } (s.block n)
    (.insertHit request n none) hands (sound.handed_unlisted (sound.handed thread n hands))
    rfl rfl
    (fun x member same => by
      unfold ItbServer.attached at fresh
      exact absurd (decide_eq_true same) (List.find?_eq_none.mp fresh x member))
    live (Or.inr ⟨request, rfl, txg.symm, key, clean, creates, blank⟩)
  rw [Function.update_eq_self] at attached
  exact attached

theorem Sound.misses (sound : Sound steady c s place) {y : Nat} {unused : Option Nat}
    (stage : s.stage thread = .insertHit request y unused)
    (cowed : ((Hvfs.freeUnused s thread request y unused).head y).state = .cowed) :
    ∃ after, Sound steady c ((Hvfs.freeUnused s thread request y unused).setStage thread
      (.search request)) after := by
  obtain ⟨after, soundAfter, stageAfter, _⟩ := sound.freeUnused stage
  refine ⟨after, soundAfter.setStage (fun txg held => ?_) nofun trivial
    (fun other m isStage => ?_) fun x awaits _ => ?_⟩
  · refine soundAfter.heldLive thread txg ?_
    rw [stageAfter]
    exact held
  · rw [stageAfter] at isStage
    cases isStage
  · obtain ⟨other, isStage, _⟩ := awaits
    rw [stageAfter] at isStage
    cases isStage
    rw [cowed]
    exact nofun

theorem Sound.wins (sound : Sound steady c s place) {n be : Nat}
    (stage : s.stage thread = .cowWait request x n be) (replaceable : s.Replaceable request x be)
    (kept : steady → ∀ other winner, s.stage other ≠ .cowWon winner x) :
    Sound steady c ((s.replace request.txg x n be).setStage thread (.cowWon request n))
      (Function.update (Function.update place x .loose) n (.chained be)) := by
  obtain ⟨entry, -, dirty⟩ := replaceable
  have known := sound.stages thread
  rw [stage] at known
  obtain ⟨⟨keyX, isUsed⟩, keyN, bucket⟩ := known
  have hands : (s.stage thread).hands = some n := by
    rw [stage]
    rfl
  have used : (place x).Used := by
    refine isUsed.resolve_right fun gone => ?_
    rw [dirty] at gone
    cases gone.2.1
  have at_ : place x = .chained be := by
    rcases isAt : place x with _ | _ | _ | e | _
    · exact absurd used (by rw [isAt]; exact id)
    · exact absurd used (by rw [isAt]; exact id)
    · exact absurd used (by rw [isAt]; exact id)
    · obtain ⟨same, _⟩ := (sound.blocks x).chainHead e isAt
      rw [entry] at same
      cases same
      rfl
    · rw [((sound.blocks x).looseHead isAt).1] at entry
      cases entry
  have changed : (s.head x).state ≠ .clean := by
    rw [dirty]
    exact nofun
  refine @Sound.attach _ _ _ _ _ _ (sound.detach at_ changed kept) thread n be
    { s.head n with txg := request.txg, state := .dirty, be := some be } _ _ hands
    (sound.handed_unlisted (sound.handed thread n hands)) rfl (by simp only; rw [keyN, bucket])
    (fun z member same => ?_) ?_ (Or.inl ⟨request, rfl, rfl, keyN, rfl⟩)
  · simp only [List.mem_filter, decide_eq_true_eq] at member
    simp only [Function.update_of_ne member.2] at same
    refine member.2 (sound.keyOnce be z x (((sound.blocks z).chained be).mp member.1) at_ ?_)
    rw [same, keyN, keyX]
  · exact sound.heldLive thread _ (by rw [stage]; rfl)

theorem Sound.loses (sound : Sound steady c s place) {n be : Nat}
    (stage : s.stage thread = .cowWait request x n be) :
    Sound steady c (s.setStage thread (.cowLost request n)) place := by
  have hands : (s.stage thread).hands = some n := by
    rw [stage]
    rfl
  refine sound.setStage (fun txg held => ?_) (fun y isHands => ?_) trivial
    (fun other m isStage => absurd isStage ((hands_free hands).1 other m))
    fun y awaits _ => absurd awaits ((hands_free hands).2 y _)
  · refine sound.heldLive thread txg ?_
    rw [stage]
    exact held
  · cases isHands
    exact sound.handed thread n hands

theorem Sound.lost (sound : Sound steady c s place) {n : Nat}
    (stage : s.stage thread = .cowLost request n) :
    Sound steady c ((itbFree s n).setStage thread (.search request))
      (Function.update place n .free) := by
  have hands : (s.stage thread).hands = some n := by
    rw [stage]
    rfl
  have at_ := sound.handed thread n hands
  have left : Sound steady c (s.setStage thread (.search request)) place := by
    refine sound.setStage (fun txg held => ?_) nofun trivial
      (fun other m isStage => absurd isStage ((hands_free hands).1 other m))
      fun x awaits _ => absurd awaits ((hands_free hands).2 x _)
    refine sound.heldLive thread txg ?_
    rw [stage]
    exact held
  refine left.giveBack at_ fun other isHands => ?_
  have isAt := left.handed other n isHands
  rw [at_] at isAt
  cases isAt
  rw [setStage_self] at isHands
  cases isHands

/-! ### Steps and runs -/

/-- The copy that the thread has put in the place of a block, and comes to next. -/
def SearchStage.copied : SearchStage → Option Nat
  | .cowWon _ n => some n
  | _ => none

/-- The block that a step takes off its chain for a copy. -/
def ItbServer.takesOut (s : ItbServer Thread) : ServerEvent Thread → Option Nat
  | .swap thread =>
    match s.stage thread with
    | .cowWait request x _ be => if s.Replaceable request x be then some x else none
    | _ => none
  | _ => none

/-- No copy is taken out for the next copy before its thread has come to it. -/
def CopiedOnce (s : ItbServer Thread) (event : ServerEvent Thread) : Prop :=
  ∀ x ∈ s.takesOut event, ∀ thread, (s.stage thread).copied ≠ some x

/-- Every step keeps the invariant, if no thread comes back to the block that it takes off the free
list. -/
theorem Sound.moves (sound : Sound steady c s place) {event : ServerEvent Thread}
    (moves : Moves c s event t) (unseen : Unseen s t) (once : steady → CopiedOnce s event) :
    ∃ after, Sound steady c t after := by
  cases moves with
  | stays => exact ⟨place, sound⟩
  | @goesOn _ thread stage old new held =>
    have simple : stage.hands = none ∧ StageSound steady c s place stage := by
      cases stage <;> first | exact ⟨rfl, trivial⟩ | exact absurd new id
    have notOld : (∀ request n, s.stage thread ≠ .cowWon request n) ∧
        ∀ request y, s.stage thread ≠ .insertHit request y none := by
      refine ⟨fun request n isStage => ?_, fun request y isStage => ?_⟩ <;>
        rcases old with away | ⟨_, _, insert⟩
      · rw [isStage] at away
        exact away
      · rw [isStage] at insert
        cases insert
      · rw [isStage] at away
        exact away
      · rw [isStage] at insert
        cases insert
    refine ⟨place, sound.setStage (fun txg isHeld => ?_) (fun x hands => ?_) simple.2
      (fun request n isStage => absurd isStage (notOld.1 request n)) fun x awaits _ => ?_⟩
    · rcases held txg isHeld with isOpen | same
      · exact Or.inl isOpen
      · exact sound.heldLive thread txg same
    · rw [simple.1] at hands
      cases hands
    · obtain ⟨request, isStage, _⟩ := awaits
      exact absurd isStage (notOld.2 request x)
  | visits comes visited =>
    obtain ⟨after, soundAfter, visits, points, lru⟩ := sound.comes comes
    refine soundAfter.visit visits visited fun n member off other => ?_
    rw [points]
    by_cases isFree : n ∈ s.lru
    · exact unseen n isFree off other
    · exact lru n member isFree other
  | gets stage creates free => exact sound.gets stage creates free unseen
  | meets stage found => exact ⟨place, sound.meets stage found⟩
  | attaches stage fresh => exact ⟨_, sound.attaches stage fresh⟩
  | misses stage cowed => exact sound.misses stage cowed
  | @wins thread request x n be stage replaceable =>
    refine ⟨_, sound.wins stage replaceable fun steadily other winner isStage => ?_⟩
    refine once steadily x ?_ other (by rw [isStage]; rfl)
    simp only [ItbServer.takesOut, stage, if_pos replaceable, Option.mem_some_iff]
  | loses stage => exact ⟨place, sound.loses stage⟩
  | lost stage => exact ⟨_, sound.lost stage⟩
  | switches idle => exact ⟨place, sound.txgSwitch idle⟩
  | starts waiting free => exact ⟨place, sound.commitStart waiting free⟩
  | commits walking list => exact sound.commitItb walking list
  | ends walking empty => exact ⟨place, sound.commitEnd walking empty⟩
  | @reclaims _ _ x _ result reached ready removed =>
    refine ⟨place, sound.rewrite x rfl rfl rfl rfl rfl rfl rfl rfl
      (fun y apart => Function.update_of_ne apart _ _) fun _ blank => ?_⟩
    rw [asyncUnlinkIte_blank blank] at removed
    cases removed
    simpa [ItbServer.setBlock] using blank

omit [DecidableEq Thread] in
theorem init_sound (hmi : Hmi) (txg : Nat) :
    Sound steady c (ItbServer.init Thread hmi txg) fun _ => .unborn := by
  refine ⟨fun x => ⟨⟨nofun, nofun⟩, fun be => ⟨nofun, nofun⟩, fun _ => rfl, nofun,
    nofun, nofun, nofun,
    fun txg member => ?_, fun used => absurd used id, fun used => absurd used id,
    fun used => absurd used id, fun _ => nofun⟩, List.nodup_nil,
    fun _ => List.nodup_nil, nofun, nofun,
    nofun, nofun, fun _ => trivial⟩
  cases member

variable [Fintype Thread]

/-- A step takes no block off the free list that a thread comes back to. -/
def Unreused (c : ItbConfig) (s : ItbServer Thread) (event : ServerEvent Thread) : Prop :=
  ∀ t, serverStep c s event = some t → Unseen s t

instance (s t : ItbServer Thread) : Decidable (Unseen s t) :=
  inferInstanceAs (Decidable (∀ n ∈ s.lru, _))

instance (s : ItbServer Thread) (event : ServerEvent Thread) : Decidable (Unreused c s event) :=
  match stepped : serverStep c s event with
  | none => isTrue fun _ same => by rw [stepped] at same; cases same
  | some t => decidable_of_iff (Unseen s t)
    ⟨fun unseen _ same => by rw [stepped] at same; cases same; exact unseen,
      fun unreused => unreused t stepped⟩

instance (s : ItbServer Thread) (event : ServerEvent Thread) : Decidable (CopiedOnce s event) :=
  inferInstanceAs (Decidable (∀ x ∈ s.takesOut event, _))

theorem unreused_of_empty (empty : s.lru = []) (event : ServerEvent Thread) :
    Unreused c s event := by
  intro t step n member
  rw [empty] at member
  cases member

end Steps

end Hvfs
