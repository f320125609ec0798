/-
This file proves that every operation on a block keeps the invariant: a block is
taken off the free list, filled and given back; it is attached, detached, made
DIRTY and put on a dirty list. The rule behind them is that an operation on one
block has to answer for that block and for the threads that know of it.
-/

import Hvfs.ItbSound

namespace Hvfs

section Operations

variable {Thread : Type} {steady : Prop} {c : ItbConfig} {s t : ItbServer Thread}
  {place after : Nat → Place Thread}

/-! ### One block changes -/

/-- An operation on one block that leaves the stages and the TXGs. -/
theorem Sound.change (sound : Sound steady c s place) (n : Nat) (sameStage : t.stage = s.stage)
    (sameOpen : t.openTxg = s.openTxg) (sameWb : t.wb = s.wb)
    (places : ∀ x, x ≠ n → after x = place x) (others : ∀ x, x ≠ n → SameAt s t x)
    (blocks : ∀ x, x ≠ n → t.block x = s.block x) (inside : BlockSound steady c t after n)
    (freeOnce : t.lru.Nodup) (listOnce : ∀ txg, (t.dirtyList txg).Nodup)
    (keyOnce : ∀ be, after n = .chained be →
      place n = .chained be ∧ (t.head n).key = (s.head n).key)
    (handed : ∀ thread, (s.stage thread).hands = some n →
      after n = place n ∧ t.head n = s.head n ∧
        ((s.head n).state = .clean → Blank (s.block n) → Blank (t.block n)))
    (seen : ∀ thread key, (s.stage thread).pointsTo = some n → s.Seen place n key →
      t.Seen after n key)
    (won : ∀ thread request, s.stage thread = .cowWon request n →
      StageSound steady c s place (.cowWon request n) →
        StageSound steady c t after (.cowWon request n)) :
    Sound steady c t after where
  blocks x := by
    by_cases apart : x = n
    · rw [apart]
      exact inside
    · refine (sound.blocks x).congr (others x apart) (places x apart) sameOpen sameWb
        (fun isWon => Or.inr ?_) fun _ awaited => ?_
      · unfold ItbServer.Won at isWon ⊢
        rwa [sameStage, (others x apart).head]
      · unfold ItbServer.Awaited at awaited ⊢
        rwa [sameStage, (others x apart).head, blocks x apart]
  freeOnce := freeOnce
  listOnce := listOnce
  keyOnce be x y atX atY same := by
    have before : ∀ z, after z = .chained be →
        place z = .chained be ∧ (t.head z).key = (s.head z).key := by
      intro z at_
      by_cases apart : z = n
      · rw [apart] at at_ ⊢
        exact keyOnce be at_
      · rw [places z apart] at at_
        exact ⟨at_, by rw [(others z apart).head]⟩
    obtain ⟨placeX, keyX⟩ := before x atX
    obtain ⟨placeY, keyY⟩ := before y atY
    exact sound.keyOnce be x y placeX placeY (by rw [← keyX, ← keyY, same])
  wbOpen wb isWb := by
    rw [sameWb] at isWb
    rw [sameOpen]
    exact sound.wbOpen wb isWb
  heldLive thread txg held := by
    rw [sameStage] at held
    rw [live_congr sameOpen sameWb]
    exact sound.heldLive thread txg held
  handed thread x hands := by
    rw [sameStage] at hands
    by_cases apart : x = n
    · rw [apart] at hands ⊢
      rw [(handed thread hands).1]
      exact sound.handed thread n hands
    · rw [places x apart]
      exact sound.handed thread x hands
  stages thread := by
    rw [sameStage]
    refine (sound.stages thread).mono (fun x hands => ?_) (fun y key points isSeen => ?_)
      fun request x stage isWon => ?_
    · by_cases apart : x = n
      · rw [apart] at hands ⊢
        exact (handed thread hands).2
      · refine ⟨(others x apart).head, fun _ blank => ?_⟩
        rwa [blocks x apart]
    · by_cases apart : y = n
      · rw [apart] at points isSeen ⊢
        exact seen thread key points isSeen
      · unfold ItbServer.Seen at isSeen ⊢
        rwa [(others y apart).head, places y apart]
    · by_cases apart : x = n
      · rw [apart] at stage isWon ⊢
        exact won thread request stage isWon
      · simp only [StageSound] at isWon ⊢
        rwa [(others x apart).head, places x apart]

theorem not_used_handed {x : Nat} {thread : Thread} (handed : place x = .handed thread) :
    ¬(place x).Used := by
  rw [handed]
  exact id

/-- No thread has a block from `get_free_itb` that is free, or not allocated, or in use. -/
theorem Sound.not_hands (sound : Sound steady c s place) {n : Nat}
    (elsewhere : ∀ thread, place n ≠ .handed thread) (thread : Thread) :
    (s.stage thread).hands ≠ some n :=
  fun hands => elsewhere thread (sound.handed thread n hands)

/-- A thread that put a copy in a block's place knows that it is in use. -/
theorem Sound.won_used (sound : Sound steady c s place) {thread : Thread}
    {request : Request} {n : Nat}
    (stage : s.stage thread = .cowWon request n) : (place n).Used := by
  have known := sound.stages thread
  rw [stage] at known
  exact known.1

/-- A thread comes back to blocks that are in use or free. -/
theorem Sound.seen_place (sound : Sound steady c s place) {thread : Thread} {n : Nat}
    (points : (s.stage thread).pointsTo = some n) : (place n).Used ∨ place n = .free := by
  have known := sound.stages thread
  rcases stage : s.stage thread with _ | _ | _ | _ | ⟨_, y, _⟩ | ⟨_, x, _, _⟩ | _ | _ | _ <;>
    rw [stage] at known points <;> cases points
  · exact known.2.imp_right And.left
  · exact known.1.2.imp_right And.left

/-! ### The free list -/

/-- What a call of `get_free_itb` does to the rest of the server. -/
structure Got (s t : ItbServer Thread) (place : Nat → Place Thread) (txg n : Nat) : Prop where
  spare : place n = .free ∨ place n = .unborn
  head : t.head = Function.update s.head n { txg }
  blank : Blank (t.block n)
  blocks : ∀ x, x ≠ n → t.block x = s.block x
  stage : t.stage = s.stage
  openTxg : t.openTxg = s.openTxg
  wb : t.wb = s.wb
  dirtyList : t.dirtyList = s.dirtyList

theorem Sound.got (sound : Sound steady c s place) {txg n : Nat}
    (free : getFreeItb c s txg = (n, t)) :
    Got s t place txg n := by
  unfold getFreeItb at free
  rcases lru : s.lru with _ | ⟨first, rest⟩ <;> rw [lru] at free <;> cases free
  · refine ⟨Or.inr ((sound.blocks _).unborn (Nat.le_refl _)), rfl, fun cell => ?_,
      fun x apart => ?_,
      rfl, rfl, rfl, rfl⟩
    · simp [emptyItb]
    · exact Function.update_of_ne apart _ _
  · refine ⟨Or.inl ((sound.blocks _).free.mp (by simp [lru])), rfl, fun cell => ?_,
      fun x apart => ?_,
      rfl, rfl, rfl, rfl⟩
    · simp [emptyItb]
    · exact Function.update_of_ne apart _ _

/-- A block that is not used is on no dirty list. -/
theorem Sound.not_onList (sound : Sound steady c s place) {n : Nat}
    (spare : ¬(place n).Used) (txg : Nat) :
    n ∉ s.dirtyList txg :=
  fun member => spare ((sound.blocks n).onList txg member).1

/-- The lists after a call of `get_free_itb`. -/
theorem Sound.getFree_lists (sound : Sound steady c s place) {txg n : Nat}
    (free : getFreeItb c s txg = (n, t)) :
    t.lru.Nodup ∧ n ∉ t.lru ∧ (∀ x, x ≠ n → (x ∈ t.lru ↔ x ∈ s.lru)) ∧
      (∀ be x, x ∈ t.chain be ↔ x ∈ s.chain be) ∧ n < t.allocated ∧ s.allocated ≤ t.allocated := by
  have got := sound.got free
  have notChained : ∀ be, n ∉ s.chain be := by
    intro be member
    have at_ := ((sound.blocks n).chained be).mp member
    rcases got.spare with spare | spare <;> rw [spare] at at_ <;> cases at_
  unfold getFreeItb at free
  have once := sound.freeOnce
  rcases lru : s.lru with _ | ⟨first, rest⟩ <;> rw [lru] at free once <;> cases free
  · exact ⟨by simp, by simp, fun x _ => by simp, fun be x => Iff.rfl,
      Nat.lt_succ_self _, Nat.le_succ _⟩
  · refine ⟨(List.nodup_cons.mp once).2, (List.nodup_cons.mp once).1, fun x apart => ?_,
      fun be x => ?_, ?_, Nat.le_refl _⟩
    · simp [apart]
    · simp only [List.mem_filter, decide_eq_true_eq, and_iff_left_iff_imp]
      rintro member rfl
      exact notChained be member
    · by_contra beyond
      have at_ := (sound.blocks n).unborn (Nat.not_lt.mp beyond)
      have isFree := (sound.blocks n).free.mp (by simp [lru])
      rw [at_] at isFree
      cases isFree

/-- A block that a thread gets is in its hands. -/
theorem Sound.getFree (sound : Sound steady c s place) (thread : Thread) {txg n : Nat}
    (free : getFreeItb c s txg = (n, t))
    (unseen : n ∈ s.lru → ∀ other, (s.stage other).pointsTo ≠ some n) :
    Sound steady c t (Function.update place n (.handed thread)) := by
  have got := sound.got free
  have notUsed : ¬(place n).Used := by
    rcases got.spare with at_ | at_ <;> rw [at_] <;> exact id
  have notChained : ∀ be, n ∉ s.chain be := by
    intro be member
    have at_ := ((sound.blocks n).chained be).mp member
    rw [at_] at notUsed
    exact notUsed trivial
  obtain ⟨freeOnce, offLru, lru, chain, allocated, grows⟩ := sound.getFree_lists free
  refine sound.change n got.stage got.openTxg got.wb
    (fun x apart => Function.update_of_ne apart _ _)
    (fun x apart => ⟨?_, lru x apart, fun be => chain be x, fun txg => ?_, fun beyond => ?_⟩)
    got.blocks ⟨?_, fun be => ?_, fun beyond => ?_, fun be at_ => ?_, fun _ _ => ?_, fun at_ => ?_,
      fun listed => ?_, fun txg member => ?_, fun used => ?_, fun used => ?_, fun used => ?_,
      fun _ dirty => ?_⟩ freeOnce
    ?_ (fun be at_ => ?_) (fun other hands => ?_) (fun other key points _ => ?_)
    fun other request stage _ => ?_
  · rw [got.head, Function.update_of_ne apart]
  · rw [got.dirtyList]
  · exact Nat.le_trans grows beyond
  · simp [offLru]
  · simp [chain, notChained]
  · exact absurd allocated (Nat.not_lt.mpr beyond)
  · simp at at_
  · simp [got.head]
  · simp at at_
  · simp [got.head] at listed
  · rw [got.dirtyList] at member
    exact absurd member (sound.not_onList notUsed txg)
  · simp at used
  · simp at used
  · simp at used
  · simp [got.head] at dirty
  · rw [got.dirtyList]
    exact sound.listOnce
  · simp at at_
  · have at_ := sound.handed other n hands
    rcases got.spare with spare | spare <;> rw [spare] at at_ <;> cases at_
  · rcases got.spare with spare | spare
    · exact absurd points (unseen ((sound.blocks n).free.mpr spare) other)
    · rcases sound.seen_place points with used | free
      · exact absurd used notUsed
      · rw [spare] at free
        cases free
  · exact absurd (sound.won_used stage) notUsed

/-- A block in the hands of a thread may be filled, before the thread leaves with it. -/
theorem Sound.fill (sound : Sound steady c s place) {thread : Thread} {n : Nat} {h : ItbHeader}
    (at_ : place n = .handed thread) (kept : ∀ other, (s.stage other).hands ≠ some n)
    (unlisted : h.listed = false) (notCowed : h.state ≠ .cowed)
    (past : h.state = .dirty → h.txg < s.openTxg) : Sound steady c (s.setHead n h) place := by
  have inside := sound.blocks n
  have notUsed : ¬(place n).Used := by
    rw [at_]
    exact id
  have head : (s.setHead n h).head n = h := Function.update_self _ _ _
  refine sound.change n rfl rfl rfl (fun _ _ => rfl)
    (fun x apart => ⟨Function.update_of_ne apart _ _, Iff.rfl, fun _ => Iff.rfl, fun _ => Iff.rfl,
      id⟩) (fun _ _ => rfl)
    ⟨inside.free, inside.chained, inside.unborn, fun be chained => ?_, fun _ _ => ?_,
      fun loose => ?_, fun listed => ?_, fun txg member => ?_, fun used => absurd used notUsed,
      fun used => absurd used notUsed, fun used => absurd used notUsed, fun _ dirty => ?_⟩
    sound.freeOnce sound.listOnce (fun be chained => ?_)
    (fun other hands => absurd hands (kept other))
    (fun other key points _ => ?_) fun other request stage _ =>
    absurd (sound.won_used stage) notUsed
  · rw [at_] at chained
    cases chained
  · rw [head]
    exact notCowed
  · rw [at_] at loose
    cases loose
  · rw [head, unlisted] at listed
    cases listed
  · exact absurd member (sound.not_onList notUsed txg)
  · rw [head] at dirty ⊢
    exact past dirty
  · rw [at_] at chained
    cases chained
  · rcases sound.seen_place points with used | free
    · exact absurd used notUsed
    · rw [at_] at free
      cases free

/-- A block that a thread has given up goes to the free list. -/
theorem Sound.giveBack (sound : Sound steady c s place) {thread : Thread} {n : Nat}
    (at_ : place n = .handed thread) (kept : ∀ other, (s.stage other).hands ≠ some n) :
    Sound steady c (itbFree s n) (Function.update place n .free) := by
  have inside := sound.blocks n
  have notUsed : ¬(place n).Used := by
    rw [at_]
    exact id
  have head : (itbFree s n).head n = { s.head n with listed := true } := Function.update_self _ _ _
  have offLru : n ∉ s.lru := by
    rw [inside.free, at_]
    exact nofun
  refine sound.change n rfl rfl rfl (fun x apart => Function.update_of_ne apart _ _)
    (fun x apart => ⟨Function.update_of_ne apart _ _, ?_, fun _ => Iff.rfl, fun _ => Iff.rfl, id⟩)
    (fun _ _ => rfl)
    ⟨?_, fun be => ?_, fun beyond => ?_, fun be chained => ?_, fun _ handed => ?_, fun loose => ?_,
      fun _ => ?_, fun txg member => ?_, fun used => ?_, fun used => ?_, fun used => ?_,
      fun _ dirty => ?_⟩
    ?_ sound.listOnce (fun be chained => ?_) (fun other hands => absurd hands (kept other))
    (fun other key points _ => ?_) fun other request stage _ =>
    absurd (sound.won_used stage) notUsed
  · simp [itbFree, apart]
  · simp [itbFree]
  · have off : n ∉ s.chain be := by
      rw [inside.chained, at_]
      exact nofun
    simp [itbFree, off]
  · have unborn := inside.unborn beyond
    rw [at_] at unborn
    cases unborn
  · simp at chained
  · simp at handed
  · simp at loose
  · exact Or.inl (Function.update_self _ _ _)
  · exact absurd member (sound.not_onList notUsed txg)
  · simp at used
  · simp at used
  · simp at used
  · rw [head] at dirty ⊢
    exact inside.spareDirty notUsed dirty
  · exact List.nodup_append.mpr ⟨sound.freeOnce, List.nodup_singleton n, fun x member y last => by
      rintro rfl
      exact offLru (List.mem_singleton.mp last ▸ member)⟩
  · simp at chained
  · rcases sound.seen_place points with used | free
    · exact absurd used notUsed
    · rw [at_] at free
      cases free

/-! ### The entries of a block -/

/-- A block may be written when it is not CLEAN, or stays blank. -/
theorem Sound.rewrite (sound : Sound steady c s place) (x : Nat) (sameHead : t.head = s.head)
    (lru : t.lru = s.lru) (chain : t.chain = s.chain) (dirtyList : t.dirtyList = s.dirtyList)
    (allocated : t.allocated = s.allocated) (sameStage : t.stage = s.stage)
    (sameOpen : t.openTxg = s.openTxg) (sameWb : t.wb = s.wb)
    (blocks : ∀ y, y ≠ x → t.block y = s.block y)
    (kept : (s.head x).state = .clean → Blank (s.block x) → Blank (t.block x)) :
    Sound steady c t place := by
  have same : ∀ y, SameAt s t y := fun y =>
    ⟨by rw [sameHead], by rw [lru], fun _ => by rw [chain], fun _ => by rw [dirtyList],
      fun beyond => by rwa [allocated] at beyond⟩
  refine sound.change x sameStage sameOpen sameWb (fun _ _ => rfl) (fun y _ => same y) blocks
    ((sound.blocks x).congr (same x) rfl sameOpen sameWb (fun isWon => Or.inr ?_)
      fun clean awaited => ?_) (by rw [lru]; exact sound.freeOnce)
    (fun txg => by rw [dirtyList]; exact sound.listOnce txg)
    (fun be at_ => ⟨at_, by rw [sameHead]⟩) (fun thread _ => ⟨rfl, by rw [sameHead], kept⟩)
    (fun thread key _ isSeen => ?_) fun thread request _ isWon => ?_
  · unfold ItbServer.Won at isWon ⊢
    rwa [sameStage, sameHead]
  · unfold ItbServer.Awaited at awaited ⊢
    rw [sameStage, sameHead]
    exact awaited.imp_left (kept clean)
  · unfold ItbServer.Seen at isSeen ⊢
    rwa [sameHead]
  · simp only [StageSound] at isWon ⊢
    rwa [sameHead]

/-! ### Dirty lists -/


/-- The other blocks are on the same dirty lists when a block is put on one. -/
theorem mem_dirtyList_append {x y : Nat} (apart : y ≠ x) (txg other : Nat) :
    y ∈ Function.update s.dirtyList txg (s.dirtyList txg ++ [x]) other ↔
      y ∈ s.dirtyList other := by
  by_cases same : other = txg
  · rw [same, Function.update_self]
    simp [apart]
  · rw [Function.update_of_ne same]

theorem Sound.dirtyList_append_nodup (sound : Sound steady c s place) {x txg : Nat}
    (off : x ∉ s.dirtyList txg) (other : Nat) :
    (Function.update s.dirtyList txg (s.dirtyList txg ++ [x]) other).Nodup := by
  by_cases same : other = txg
  · rw [same, Function.update_self]
    refine List.nodup_append.mpr ⟨sound.listOnce txg, List.nodup_singleton x, ?_⟩
    rintro y member z last rfl
    exact off (List.mem_singleton.mp last ▸ member)
  · rw [Function.update_of_ne same]
    exact sound.listOnce other

theorem markDirty_eq {txg x : Nat} (unlisted : (s.head x).listed = false) :
    markDirty s txg x = { s with
      dirtyList := Function.update s.dirtyList txg (s.dirtyList txg ++ [x])
      head := Function.update s.head x
        { s.head x with txg := txg, state := .dirty, listed := true } } := by
  simp [markDirty, txgAddItb, ItbServer.setHead, unlisted]

/-- A CLEAN block becomes DIRTY in a live TXG. -/
theorem Sound.markDirty (sound : Sound steady c s place) {txg x : Nat} (live : s.Live txg)
    (used : (place x).Used) (clean : (s.head x).state = .clean) :
    Sound steady c (markDirty s txg x) place := by
  rw [markDirty_eq (sound.clean_unlisted used clean)]
  have inside := sound.blocks x
  have offLists : ∀ other, x ∉ s.dirtyList other :=
    fun other member => (inside.onList other member).2.2.2.1 clean
  have bound := (sound.live_bounds live).1
  refine sound.change x rfl rfl rfl (fun _ _ => rfl)
    (fun y apart => ⟨Function.update_of_ne apart _ _, Iff.rfl, fun _ => Iff.rfl,
      mem_dirtyList_append apart txg, id⟩) (fun _ _ => rfl)
    ⟨inside.free, inside.chained, inside.unborn, fun be chained => ?_,
      fun thread handed => absurd used (not_used_handed handed), fun loose => ?_,
      fun _ => Or.inr ?_, fun other member => ?_, fun _ => ?_, fun _ _ => Or.inl ?_,
      fun _ dirty => ?_, fun spare => absurd used spare⟩
    sound.freeOnce (sound.dirtyList_append_nodup (offLists txg))
    (fun be chained => ⟨chained, ?_⟩) (fun thread hands => ?_)
    (fun thread key _ isSeen => ?_) fun thread request stage isWon => absurd clean isWon.2.2.2.1
  · obtain ⟨be, key, _⟩ := inside.chainHead be chained
    simpa using ⟨be, key⟩
  · obtain ⟨be, cowed⟩ := inside.looseHead loose
    exact ⟨by simpa using be, fun steadily => absurd (cowed steadily) (by rw [clean]; exact nofun)⟩
  · simp
  · by_cases same : other = txg
    · rw [same]
      simpa using ⟨used, Or.inl live⟩
    · simp only [Function.update_of_ne same] at member
      exact absurd member (offLists other)
  · simpa using bound
  · simp
  · simp at dirty
  · simp
  · have at_ := sound.handed thread x hands
    rw [at_] at used
    exact absurd used id
  · obtain ⟨sameKey, _⟩ := isSeen
    exact ⟨by simpa using sameKey, Or.inl used⟩

/-- A COWED block that is on its dirty list may become DIRTY again. -/
theorem Sound.revive (sound : Sound steady c s place) {x : Nat} (used : (place x).Used)
    (cowed : (s.head x).state = .cowed) (wavers : ¬steady) :
    Sound steady c (s.setHead x { s.head x with state := .dirty }) place := by
  have inside := sound.blocks x
  have changed : (s.head x).state ≠ .clean := by
    rw [cowed]
    exact nofun
  have head : (s.setHead x { s.head x with state := .dirty }).head x =
      { s.head x with state := .dirty } := Function.update_self _ _ _
  refine sound.change x rfl rfl rfl (fun _ _ => rfl)
    (fun y apart => ⟨Function.update_of_ne apart _ _, Iff.rfl, fun _ => Iff.rfl, fun _ => Iff.rfl,
      id⟩) (fun _ _ => rfl)
    ⟨inside.free, inside.chained, inside.unborn, fun be chained => ?_,
      fun thread handed => absurd used (not_used_handed handed), fun loose => ?_,
      fun listed => ?_, fun other member => ?_, fun _ => ?_, fun _ _ => ?_,
      fun _ clean => ?_, fun spare => absurd used spare⟩
    sound.freeOnce sound.listOnce (fun be chained => ⟨chained, ?_⟩) (fun thread hands => ?_)
    (fun thread key _ isSeen => ?_) fun thread request stage isWon => ?_
  · rw [head]
    obtain ⟨be, key, _⟩ := inside.chainHead be chained
    exact ⟨be, key, nofun⟩
  · rw [head]
    exact ⟨(inside.looseHead loose).1, fun steadily => absurd steadily wavers⟩
  · rw [head] at listed ⊢
    exact inside.listed listed
  · rw [head]
    obtain ⟨isUsed, listed, same, _, live⟩ := inside.onList other member
    exact ⟨isUsed, listed, same, nofun, live⟩
  · rw [head]
    exact inside.usedTxg used
  · unfold ItbServer.Won
    rw [head]
    exact inside.usedDirty used changed
  · rw [head] at clean
    cases clean
  · rw [head]
  · have at_ := sound.handed thread x hands
    rw [at_] at used
    exact absurd used id
  · refine ⟨?_, Or.inl used⟩
    rw [head]
    exact isSeen.1
  · obtain ⟨isUsed, key, txg, _⟩ := isWon
    simp only [StageSound]
    rw [head]
    exact ⟨isUsed, key, txg, nofun, fun _ => nofun⟩

/-- The copy that a thread has put in a block's place comes to the dirty list. -/
theorem Sound.addWon (sound : Sound steady c s place) {thread : Thread}
    {request : Request} {n : Nat}
    (stage : s.stage thread = .cowWon request n) :
    Sound steady c (txgAddItb s request.txg n) place ∧
      n ∈ (txgAddItb s request.txg n).dirtyList ((txgAddItb s request.txg n).head n).txg := by
  have known := sound.stages thread
  rw [stage] at known
  obtain ⟨used, -, sameTxg, changed, -⟩ := known
  have inside := sound.blocks n
  unfold txgAddItb
  by_cases listed : (s.head n).listed = true
  · rw [if_pos listed]
    refine ⟨sound, (inside.listed listed).resolve_left fun free => ?_⟩
    rw [free] at used
    exact used
  · rw [if_neg listed]
    have offLists : ∀ other, n ∉ s.dirtyList other :=
      fun other member => listed (inside.onList other member).2.1
    have live : s.Live request.txg := sound.heldLive thread _ (by rw [stage]; rfl)
    refine ⟨sound.change n rfl rfl rfl (fun _ _ => rfl)
      (fun y apart => ⟨Function.update_of_ne apart _ _, Iff.rfl, fun _ => Iff.rfl,
        mem_dirtyList_append apart request.txg, id⟩) (fun _ _ => rfl)
      ⟨inside.free, inside.chained, inside.unborn, fun be chained => ?_,
        fun thread handed => absurd used (not_used_handed handed), fun loose => ?_,
        fun _ => Or.inr ?_, fun other member => ?_, fun _ => ?_, fun _ _ => Or.inl ?_,
        fun _ clean => ?_, fun spare => absurd used spare⟩
      sound.freeOnce (sound.dirtyList_append_nodup (offLists _))
      (fun be chained => ⟨chained, ?_⟩) (fun other hands => ?_)
      (fun other key _ isSeen => ?_) fun other request stage isWon => ?_, ?_⟩
    · simpa using inside.chainHead be chained
    · simpa using inside.looseHead loose
    · simp [sameTxg]
    · by_cases same : other = request.txg
      · rw [same]
        simpa [sameTxg, changed] using ⟨used, Or.inl live⟩
      · simp only [Function.update_of_ne same] at member
        exact absurd member (offLists other)
    · simpa using inside.usedTxg used
    · simp [sameTxg]
    · exact absurd (by simpa using clean) changed
    · simp
    · have at_ := sound.handed other n hands
      rw [at_] at used
      exact absurd used id
    · exact ⟨by simpa using isSeen.1, Or.inl used⟩
    · simpa [StageSound] using isWon
    · simp [sameTxg]


/-! ### The commit -/

/-- Nobody holds a TXG of which the dirty list is walked. -/
theorem Sound.walking_not_live (sound : Sound steady c s place) {txg : Nat}
    (walking : s.wb = some ⟨txg, true⟩) : ¬s.Live txg := by
  rintro (isOpen | waiting)
  · have step := sound.wbOpen _ walking
    simp only at step
    omega
  · rw [walking] at waiting
    cases waiting

/-- The commit thread takes one block from the dirty list. -/
theorem Sound.commitItb (sound : Sound steady c s place) {txg x : Nat} {rest : List Nat}
    (walking : s.wb = some ⟨txg, true⟩) (list : s.dirtyList txg = x :: rest) :
    ∃ after, Sound steady c (commitItb s txg x rest) after := by
  have inside := sound.blocks x
  obtain ⟨used, -, sameTxg, changed, -⟩ := inside.onList txg
    (by rw [list]; exact List.mem_cons_self)
  have notWon : ∀ thread request, s.stage thread ≠ .cowWon request x := by
    intro thread request stage
    have known := sound.stages thread
    rw [stage] at known
    refine sound.walking_not_live walking (sound.heldLive thread txg ?_)
    rw [stage, ← sameTxg, known.2.2.1]
    rfl
  have listOnce := sound.listOnce txg
  rw [list] at listOnce
  obtain ⟨notRest, restOnce⟩ := List.nodup_cons.mp listOnce
  have offLists : ∀ other, x ∉ Function.update s.dirtyList txg rest other := by
    intro other member
    by_cases same : other = txg
    · rw [same, Function.update_self] at member
      exact notRest member
    · rw [Function.update_of_ne same] at member
      exact same ((inside.onList other member).2.2.1.symm.trans sameTxg)
  have otherLists : ∀ y, y ≠ x → ∀ other, y ∈ Function.update s.dirtyList txg rest other ↔
      y ∈ s.dirtyList other := by
    intro y apart other
    by_cases same : other = txg
    · rw [same, Function.update_self, list]
      simp [apart]
    · rw [Function.update_of_ne same]
  have onceAfter : ∀ other, (Function.update s.dirtyList txg rest other).Nodup := by
    intro other
    by_cases same : other = txg
    · rw [same, Function.update_self]
      exact restOnce
    · rw [Function.update_of_ne same]
      exact sound.listOnce other
  have notHands := sound.not_hands (n := x) fun thread at_ => by
    rw [at_] at used
    exact used
  have offLru : x ∉ s.lru := by
    rw [inside.free]
    rintro at_
    rw [at_] at used
    exact used
  unfold Hvfs.commitItb
  by_cases cowed : (s.head x).state = .cowed
  · have loose : place x = .loose := by
      rcases at_ : place x with _ | _ | _ | be | _
      · rw [at_] at used; exact absurd used id
      · rw [at_] at used; exact absurd used id
      · rw [at_] at used; exact absurd used id
      · exact absurd cowed (inside.chainHead be at_).2.2
      · rfl
    refine ⟨Function.update place x .free, ?_⟩
    rw [if_pos cowed]
    refine sound.change x rfl rfl rfl (fun y apart => Function.update_of_ne apart _ _)
      (fun y apart => ⟨?_, ?_, fun _ => Iff.rfl, otherLists y apart, id⟩) (fun _ _ => rfl)
      ⟨?_, fun be => ?_, fun beyond => ?_, fun be chained => ?_, fun _ handed => ?_,
        fun isLoose => ?_, fun _ => Or.inl ?_, fun other member => absurd member (offLists other),
        fun isUsed => ?_,
        fun isUsed => ?_, fun isUsed => ?_, fun _ dirty => ?_⟩
      ?_ onceAfter (fun be chained => ?_) (fun thread hands => absurd hands (notHands thread))
      (fun thread key _ isSeen => ⟨?_, Or.inr ⟨?_, ?_, ?_⟩⟩)
      fun thread request stage _ => absurd stage (notWon thread request)
    · simp [itbFree, apart]
    · simp [itbFree, apart]
    · simp [itbFree]
    · have off : x ∉ s.chain be := by
        rw [inside.chained, loose]
        exact nofun
      simp [itbFree, off]
    · have unborn := inside.unborn beyond
      rw [loose] at unborn
      cases unborn
    · simp at chained
    · simp at handed
    · simp at isLoose
    · simp
    · simp at isUsed
    · simp at isUsed
    · simp at isUsed
    · simp [itbFree, cowed] at dirty
    · exact List.nodup_append.mpr ⟨sound.freeOnce, List.nodup_singleton x,
        fun y member z last => by
          rintro rfl
          exact offLru (List.mem_singleton.mp last ▸ member)⟩
    · simp at chained
    · simpa [itbFree] using isSeen.1
    · simp
    · simpa [itbFree] using cowed
    · simpa [itbFree] using (inside.looseHead loose).1
  · refine ⟨place, ?_⟩
    rw [if_neg cowed]
    have wbTxg : txg < s.openTxg := by
      have step := sound.wbOpen _ walking
      simp only at step
      omega
    refine sound.change x rfl rfl rfl (fun _ _ => rfl)
      (fun y apart => ⟨?_, Iff.rfl, fun _ => Iff.rfl, otherLists y apart, id⟩) (fun _ _ => rfl)
      ⟨inside.free, inside.chained, inside.unborn, fun be chained => ?_,
        fun thread handed => absurd used (not_used_handed handed), fun isLoose => ?_,
        fun listed => ?_, fun other member => absurd member (offLists other), fun _ => ?_,
        fun _ dirty => ?_, fun _ _ => Or.inl ⟨?_, fun other waiting => ?_⟩,
        fun spare => absurd used spare⟩
      sound.freeOnce onceAfter (fun be chained => ⟨chained, ?_⟩)
      (fun thread hands => absurd hands (notHands thread))
      (fun thread key _ isSeen => ⟨?_, Or.inl used⟩)
      fun thread request stage _ => absurd stage (notWon thread request)
    · simp [ItbServer.setHead, apart]
    · obtain ⟨be, key, _⟩ := inside.chainHead be chained
      simpa [ItbServer.setHead] using ⟨be, key⟩
    · obtain ⟨be, isCowed⟩ := inside.looseHead isLoose
      exact ⟨by simpa [ItbServer.setHead] using be, fun steadily =>
        absurd (isCowed steadily) cowed⟩
    · simp [ItbServer.setHead] at listed
    · simpa [ItbServer.setHead] using inside.usedTxg used
    · simp [ItbServer.setHead] at dirty
    · simpa [ItbServer.setHead, sameTxg] using wbTxg
    · simp only [ItbServer.setHead, walking] at waiting
      cases waiting
    · simp [ItbServer.setHead]
    · simpa [ItbServer.setHead] using isSeen.1

/-- The open TXG changes. -/
theorem Sound.txgSwitch (sound : Sound steady c s place) (idle : s.wb = none) :
    Sound steady c s.txgSwitch place := by
  have live : ∀ txg, s.Live txg → s.txgSwitch.Live txg := by
    rintro txg (isOpen | waiting)
    · exact Or.inr (by rw [isOpen]; rfl)
    · rw [idle] at waiting
      cases waiting
  refine ⟨fun x => ?_, sound.freeOnce, sound.listOnce, sound.keyOnce, fun wb isWb => ?_,
    fun thread txg held => live txg (sound.heldLive thread txg held), sound.handed, sound.stages⟩
  · have inside := sound.blocks x
    refine ⟨inside.free, inside.chained, inside.unborn, inside.chainHead, inside.handedHead,
      inside.looseHead,
      inside.listed, fun txg member => ?_, fun used => Nat.le_succ_of_le (inside.usedTxg used),
      inside.usedDirty, fun used clean => (inside.usedClean used clean).imp_left ?_,
      fun spare dirty => Nat.lt_succ_of_lt (inside.spareDirty spare dirty)⟩
    · obtain ⟨used, listed, same, changed, isLive | walking⟩ := inside.onList txg member
      · exact ⟨used, listed, same, changed, Or.inl (live txg isLive)⟩
      · rw [idle] at walking
        cases walking
    · rintro ⟨below, -⟩
      refine ⟨Nat.lt_succ_of_lt below, fun txg waiting => ?_⟩
      cases waiting
      exact below
  · cases isWb
    rfl

/-- The commit thread begins when nobody holds the TXG any more. -/
theorem Sound.commitStart (sound : Sound steady c s place) {txg : Nat}
    (waiting : s.wb = some ⟨txg, false⟩) (free : ∀ thread, (s.stage thread).held ≠ some txg) :
    Sound steady c { s with wb := some ⟨txg, true⟩ } place := by
  refine ⟨fun x => ?_, sound.freeOnce, sound.listOnce, sound.keyOnce, fun wb isWb => ?_,
    fun thread other held => ?_, sound.handed, sound.stages⟩
  · have inside := sound.blocks x
    refine ⟨inside.free, inside.chained, inside.unborn, inside.chainHead, inside.handedHead,
      inside.looseHead,
      inside.listed, fun other member => ?_, inside.usedTxg, inside.usedDirty,
      fun used clean => (inside.usedClean used clean).imp_left fun settled =>
        ⟨settled.1, nofun⟩, inside.spareDirty⟩
    obtain ⟨used, listed, same, changed, (isOpen | isWaiting) | walking⟩ :=
      inside.onList other member
    · exact ⟨used, listed, same, changed, Or.inl (Or.inl isOpen)⟩
    · rw [waiting] at isWaiting
      cases isWaiting
      exact ⟨used, listed, same, changed, Or.inr rfl⟩
    · rw [waiting] at walking
      cases walking
  · cases isWb
    have step := sound.wbOpen _ waiting
    exact step
  · rcases sound.heldLive thread other held with isOpen | isWaiting
    · exact Or.inl isOpen
    · rw [waiting] at isWaiting
      cases isWaiting
      exact absurd held (free thread)

/-- The commit thread is done with the dirty list. -/
theorem Sound.commitEnd (sound : Sound steady c s place) {txg : Nat}
    (walking : s.wb = some ⟨txg, true⟩)
    (empty : s.dirtyList txg = []) : Sound steady c { s with wb := none } place := by
  refine ⟨fun x => ?_, sound.freeOnce, sound.listOnce, sound.keyOnce, nofun,
    fun thread other held => ?_, sound.handed, sound.stages⟩
  · have inside := sound.blocks x
    refine ⟨inside.free, inside.chained, inside.unborn, inside.chainHead, inside.handedHead,
      inside.looseHead,
      inside.listed, fun other member => ?_, inside.usedTxg, inside.usedDirty,
      fun used clean => (inside.usedClean used clean).imp_left fun settled =>
        ⟨settled.1, nofun⟩, inside.spareDirty⟩
    obtain ⟨used, listed, same, changed, (isOpen | isWaiting) | isWalking⟩ :=
      inside.onList other member
    · exact ⟨used, listed, same, changed, Or.inl (Or.inl isOpen)⟩
    · rw [walking] at isWaiting
      cases isWaiting
    · rw [walking] at isWalking
      cases isWalking
      rw [empty] at member
      cases member
  · rcases sound.heldLive thread other held with isOpen | isWaiting
    · exact Or.inl isOpen
    · rw [walking] at isWaiting
      cases isWaiting


/-! ### Chains -/

/-- A block leaves its chain, to be replaced. -/
theorem Sound.detach (sound : Sound steady c s place) {x be : Nat} (at_ : place x = .chained be)
    (changed : (s.head x).state ≠ .clean)
    (kept : steady → ∀ thread request, s.stage thread ≠ .cowWon request x) :
    Sound steady c { s with
      chain := fun e => (s.chain e).filter (· ≠ x)
      head := Function.update s.head x { s.head x with state := .cowed, be := none } }
      (Function.update place x .loose) := by
  have inside := sound.blocks x
  have used : (place x).Used := by
    rw [at_]
    exact trivial
  have offLru : x ∉ s.lru := by
    rw [inside.free, at_]
    exact nofun
  refine sound.change x rfl rfl rfl (fun y apart => Function.update_of_ne apart _ _)
    (fun y apart => ⟨Function.update_of_ne apart _ _, Iff.rfl, fun e => ?_, fun _ => Iff.rfl, id⟩)
    (fun _ _ => rfl)
    ⟨?_, fun e => ?_, fun beyond => ?_, fun e chained => ?_, fun _ handed => ?_, fun _ => ?_,
      fun listed => Or.inr ?_, fun other member => ?_, fun _ => ?_, fun _ _ => ?_,
      fun _ clean => ?_, fun _ dirty => ?_⟩
    sound.freeOnce sound.listOnce (fun e chained => ?_) (fun thread hands => ?_)
    (fun thread key _ isSeen => ⟨?_, Or.inl ?_⟩) fun thread request stage isWon => ?_
  · simp [apart]
  · simp [offLru]
  · simp
  · have unborn := inside.unborn beyond
    rw [at_] at unborn
    cases unborn
  · simp at chained
  · simp at handed
  · simp
  · have member := inside.listed (by simpa using listed)
    rw [at_] at member
    simpa using member
  · obtain ⟨_, listed, same, _, live⟩ := inside.onList other member
    exact ⟨by simp, by simpa using listed, by simpa using same, by simp, live⟩
  · simpa using inside.usedTxg used
  · simpa [ItbServer.Won] using inside.usedDirty used changed
  · simp at clean
  · simp at dirty
  · simp at chained
  · have handed := sound.handed thread x hands
    rw [at_] at handed
    cases handed
  · simpa using isSeen.1
  · simp
  · obtain ⟨_, key, txg, _⟩ := isWon
    simpa [StageSound] using ⟨key, txg, fun steadily => kept steadily thread request stage⟩

section Stages

variable [DecidableEq Thread]

@[simp] theorem setStage_self (thread : Thread) (stage : SearchStage) :
    (s.setStage thread stage).stage thread = stage := Function.update_self _ _ _

theorem setStage_of_ne {thread other : Thread} (apart : other ≠ thread) (stage : SearchStage) :
    (s.setStage thread stage).stage other = s.stage other := Function.update_of_ne apart _ _

/-- A thread that a block does not need may go on. -/
theorem needed_other {stages : Thread → SearchStage} {thread : Thread} (stage : SearchStage)
    (need : SearchStage → Prop) (free : ¬need (stages thread))
    (needed : ∃ other, need (stages other)) :
    ∃ other, need (Function.update stages thread stage other) := by
  obtain ⟨other, isNeeded⟩ := needed
  refine ⟨other, ?_⟩
  rwa [Function.update_of_ne]
  rintro rfl
  exact free isNeeded

/-- A thread goes on to a stage of which it has what it relies on. -/
theorem Sound.setStage (sound : Sound steady c s place) {thread : Thread} {stage : SearchStage}
    (held : ∀ txg, stage.held = some txg → s.Live txg)
    (hands : ∀ x, stage.hands = some x → place x = .handed thread)
    (known : StageSound steady c s place stage)
    (added : ∀ request n, s.stage thread = .cowWon request n → n ∈ s.dirtyList (s.head n).txg)
    (reached : ∀ x, (s.stage thread).Awaits x (s.head x).txg → Blank (s.block x) →
      (s.head x).state ≠ .clean) :
    Sound steady c (s.setStage thread stage) place where
  blocks x := by
    refine (sound.blocks x).congr ⟨rfl, Iff.rfl, fun _ => Iff.rfl, fun _ => Iff.rfl, id⟩ rfl rfl rfl
      (fun isWon => ?_) fun clean awaited => ⟨awaited.1, ?_⟩
    · by_cases mine : (s.stage thread).HasWon x (s.head x).txg
      · obtain ⟨request, isStage, _⟩ := mine
        exact Or.inl (added request x isStage)
      · exact Or.inr (needed_other stage (·.HasWon x (s.head x).txg) mine isWon)
    · exact needed_other stage (·.Awaits x (s.head x).txg)
        (fun mine => reached x mine awaited.1 clean) awaited.2
  freeOnce := sound.freeOnce
  listOnce := sound.listOnce
  keyOnce := sound.keyOnce
  wbOpen := sound.wbOpen
  heldLive other txg isHeld := by
    by_cases same : other = thread
    · rw [same, setStage_self] at isHeld
      exact held txg isHeld
    · rw [setStage_of_ne same] at isHeld
      exact sound.heldLive other txg isHeld
  handed other x isHands := by
    by_cases same : other = thread
    · rw [same, setStage_self] at isHands
      rw [same]
      exact hands x isHands
    · rw [setStage_of_ne same] at isHands
      exact sound.handed other x isHands
  stages other := by
    by_cases same : other = thread
    · rw [same, setStage_self]
      exact known
    · rw [setStage_of_ne same]
      exact sound.stages other

/-- A block is put on the chain of its key, by the thread that has it. -/
theorem Sound.attach (sound : Sound steady c s place) {thread : Thread} {n be : Nat}
    {h : ItbHeader} {i : Itb}
    {stage : SearchStage} (hands : (s.stage thread).hands = some n) (unlisted : h.listed = false)
    (entry : h.be = some be) (bucket : c.bucket h.key = be)
    (fresh : ∀ x ∈ s.chain be, (s.head x).key ≠ h.key) (live : s.Live h.txg)
    (known : (∃ request, stage = .cowWon request n ∧ request.txg = h.txg ∧ h.key = request.key ∧
        h.state = .dirty) ∨
      ∃ request, stage = .insertHit request n none ∧ request.txg = h.txg ∧ h.key = request.key ∧
        h.state = .clean ∧ Creates request.hi = true ∧ Blank i) :
    Sound steady c ({ s with
      chain := Function.update s.chain be (n :: s.chain be)
      head := Function.update s.head n h
      block := Function.update s.block n i }.setStage thread stage)
      (Function.update place n (.chained be)) := by
  have inside := sound.blocks n
  have at_ : place n = .handed thread := sound.handed thread n hands
  have notUsed : ¬(place n).Used := by
    rw [at_]
    exact id
  have offLists : ∀ txg, n ∉ s.dirtyList txg := sound.not_onList notUsed
  have offLru : n ∉ s.lru := by
    rw [inside.free, at_]
    exact nofun
  have offChain : ∀ e, n ∉ s.chain e := by
    intro e
    rw [inside.chained, at_]
    exact nofun
  have notWon : ∀ request x, s.stage thread ≠ .cowWon request x := by
    intro request x stage
    rw [stage] at hands
    cases hands
  have notAwaits : ∀ x txg, ¬(s.stage thread).Awaits x txg := by
    rintro x txg ⟨request, stage, _⟩
    rw [stage] at hands
    cases hands
  have held : stage.held = some h.txg := by
    rcases known with ⟨request, rfl, same, _⟩ | ⟨request, rfl, same, _⟩ <;> rw [← same] <;> rfl
  have noHands : stage.hands = none := by
    rcases known with ⟨request, rfl, _⟩ | ⟨request, rfl, _⟩ <;> rfl
  have otherPlace : ∀ x, x ≠ n → Function.update place n (.chained be) x = place x :=
    fun x apart => Function.update_of_ne apart _ _
  have newPlace : Function.update place n (.chained be) n = .chained be :=
    Function.update_self _ _ _
  refine ⟨fun x => ?_, sound.freeOnce, sound.listOnce, fun e x y atX atY same => ?_, sound.wbOpen,
    fun other txg isHeld => ?_, fun other x isHands => ?_, fun other => ?_⟩
  · by_cases apart : x = n
    · rw [apart]
      refine ⟨?_, fun e => ?_, fun beyond => ?_, fun e chained => ?_, fun _ handed => ?_,
        fun loose => ?_, fun listed => ?_, fun txg member => absurd member (offLists txg),
        fun _ => ?_, fun _ changed => ?_, fun _ clean => ?_, fun spare => ?_⟩
      · simp [ItbServer.setStage, offLru]
      · by_cases same : e = be
        · rw [same]
          simp [ItbServer.setStage]
        · have off : Place.chained be ≠ (Place.chained e : Place Thread) := by
            rintro ⟨⟩
            exact same rfl
          simp [ItbServer.setStage, Function.update_of_ne same, offChain, off]
      · have unborn := inside.unborn beyond
        rw [at_] at unborn
        cases unborn
      · rw [newPlace] at chained
        cases chained
        refine ⟨?_, ?_, ?_⟩
        · simpa [ItbServer.setStage] using entry
        · simpa [ItbServer.setStage] using bucket
        · rcases known with ⟨_, _, _, _, state⟩ | ⟨_, _, _, _, state, _⟩ <;>
            simp [ItbServer.setStage, state]
      · rw [newPlace] at handed
        cases handed
      · rw [newPlace] at loose
        cases loose
      · simp [ItbServer.setStage, unlisted] at listed
      · simpa [ItbServer.setStage] using (sound.live_bounds live).1
      · refine Or.inr ⟨thread, ?_⟩
        rcases known with ⟨request, isStage, same, _⟩ | ⟨_, _, _, _, state, _⟩
        · exact ⟨request, by simp [isStage], by simp [ItbServer.setStage, same]⟩
        · simp [ItbServer.setStage, state] at changed
      · rcases known with ⟨_, _, _, _, state⟩ | ⟨request, isStage, same, _, _, creates, blank⟩
        · simp [ItbServer.setStage, state] at clean
        · exact Or.inr ⟨by simpa [ItbServer.setStage] using blank, thread, request,
            by simp [isStage], by simp [ItbServer.setStage, same], creates⟩
      · rw [newPlace] at spare
        exact absurd trivial spare
    · refine (sound.blocks x).congr ⟨Function.update_of_ne apart _ _, Iff.rfl, fun e => ?_,
        fun _ => Iff.rfl, id⟩ (otherPlace x apart) rfl rfl (fun isWon => Or.inr ?_)
        fun _ awaited => ?_
      · by_cases same : e = be
        · rw [same]
          simp [ItbServer.setStage, apart]
        · simp [ItbServer.setStage, Function.update_of_ne same]
      · unfold ItbServer.Won
        simp only [ItbServer.setStage, Function.update_of_ne apart]
        exact needed_other stage (·.HasWon x (s.head x).txg)
          (fun ⟨request, isStage, _⟩ => notWon request x isStage) isWon
      · unfold ItbServer.Awaited
        simp only [ItbServer.setStage, Function.update_of_ne apart]
        exact ⟨awaited.1, needed_other stage (·.Awaits x (s.head x).txg) (notAwaits x _) awaited.2⟩
  · have old : ∀ z, z ≠ n → Function.update place n (.chained be) z = .chained e →
        z ∈ s.chain e ∧ place z = .chained e := by
      intro z apart isAt
      rw [otherPlace z apart] at isAt
      exact ⟨((sound.blocks z).chained e).mpr isAt, isAt⟩
    by_cases isX : x = n <;> by_cases isY : y = n
    · rw [isX, isY]
    · rw [isX] at atX same
      rw [newPlace] at atX
      cases atX
      simp only [ItbServer.setStage, Function.update_self, Function.update_of_ne isY] at same
      exact absurd same.symm (fresh y (old y isY atY).1)
    · rw [isY] at atY same
      rw [newPlace] at atY
      cases atY
      simp only [ItbServer.setStage, Function.update_self, Function.update_of_ne isX] at same
      exact absurd same (fresh x (old x isX atX).1)
    · simp only [ItbServer.setStage, Function.update_of_ne isX, Function.update_of_ne isY] at same
      exact sound.keyOnce e x y (old x isX atX).2 (old y isY atY).2 same
  · by_cases same : other = thread
    · rw [same, setStage_self, held] at isHeld
      cases isHeld
      exact live
    · rw [setStage_of_ne same] at isHeld
      exact sound.heldLive other txg isHeld
  · by_cases same : other = thread
    · rw [same, setStage_self, noHands] at isHands
      cases isHands
    · rw [setStage_of_ne same] at isHands
      have isAt := sound.handed other x isHands
      have apart : x ≠ n := by
        rintro rfl
        rw [at_] at isAt
        cases isAt
        exact same rfl
      rw [otherPlace x apart, isAt]
  · by_cases same : other = thread
    · rw [same, setStage_self]
      rcases known with ⟨request, rfl, txg, key, state⟩ | ⟨request, rfl, txg, key, _⟩
      · refine ⟨by rw [newPlace]; trivial, ?_, ?_, ?_, fun _ => ?_⟩ <;>
          simp [ItbServer.setStage, key, txg, state]
      · exact ⟨by simpa [ItbServer.setStage] using key, Or.inl (by rw [newPlace]; trivial)⟩
    · rw [setStage_of_ne same]
      refine (sound.stages other).mono (fun x isHands => ?_) (fun y key points isSeen => ?_)
        fun request x isStage isWon => ?_
      · have isAt := sound.handed other x isHands
        have apart : x ≠ n := by
          rintro rfl
          rw [at_] at isAt
          cases isAt
          exact same rfl
        simp [ItbServer.setStage, Function.update_of_ne apart]
      · have apart : y ≠ n := by
          rintro rfl
          rcases sound.seen_place points with used | free
          · exact notUsed used
          · rw [at_] at free
            cases free
        unfold ItbServer.Seen at isSeen ⊢
        simpa [ItbServer.setStage, Function.update_of_ne apart] using isSeen
      · have apart : x ≠ n := by
          rintro rfl
          exact notUsed (sound.won_used isStage)
        simpa [StageSound, ItbServer.setStage, Function.update_of_ne apart] using isWon

end Stages


end Operations

end Hvfs
