/-
This file states what holds of the blocks of a server between the steps, and
proves it of the operations on single blocks. Every block is in one place: on
the free list, in the hands of one thread, on the chain of a bucket entry, or
loose. The places fix which lists and threads a block belongs to, and with the
places come the rules for the TXG and the state of a block that is in use.
-/

import Hvfs.ItbRequests

namespace Hvfs

/-! ### Places -/

/-- Where a block is. A loose block was taken off its chain and not freed yet. -/
inductive Place (Thread : Type)
  | unborn
  | free
  | handed (thread : Thread)
  | chained (be : Nat)
  | loose

/-- The block holds entries of some key. -/
def Place.Used {Thread : Type} : Place Thread → Prop
  | .chained _ | .loose => True
  | _ => False

section Places

variable {Thread : Type}

@[simp] theorem used_chained (be : Nat) : (Place.chained be : Place Thread).Used := trivial

@[simp] theorem used_loose : (Place.loose : Place Thread).Used := trivial

@[simp] theorem used_free : ¬(Place.free : Place Thread).Used := id

@[simp] theorem used_unborn : ¬(Place.unborn : Place Thread).Used := id

@[simp] theorem used_handed (thread : Thread) : ¬(Place.handed thread).Used := id

end Places

/-! ### The invariant -/

/-- No cell of the block is used. -/
def Blank (i : Itb) : Prop := ∀ cell, (i.index cell).flag = .free

/-- The thread has inserted the block in the TXG and comes to it next. It finds nothing in it, and
creates its entry. -/
def SearchStage.Awaits (stage : SearchStage) (x txg : Nat) : Prop :=
  ∃ request, stage = .insertHit request x none ∧ request.txg = txg ∧ Creates request.hi = true

/-- The thread has put the copy in the place of a block in the TXG, not yet on the dirty list. -/
def SearchStage.HasWon (stage : SearchStage) (x txg : Nat) : Prop :=
  ∃ request, stage = .cowWon request x ∧ request.txg = txg

section Invariant

-- `steady` says that no copy leaves its chain before its thread has come to it
variable {Thread : Type} (steady : Prop) (c : ItbConfig) (s : ItbServer Thread)
  (place : Nat → Place Thread)

/-- A transaction may hold the TXG, and a block may be made DIRTY in it. -/
def ItbServer.Live (txg : Nat) : Prop := txg = s.openTxg ∨ s.wb = some ⟨txg, false⟩

/-- The block was last changed before the live TXGs. -/
def ItbServer.Settled (x : Nat) : Prop :=
  (s.head x).txg < s.openTxg ∧ ∀ txg, s.wb = some ⟨txg, false⟩ → (s.head x).txg < txg

/-- The block is new, and the thread that inserted it is on its way. -/
def ItbServer.Awaited (x : Nat) : Prop :=
  Blank (s.block x) ∧ ∃ thread, (s.stage thread).Awaits x (s.head x).txg

/-- The block is a copy that a thread will put on the dirty list. -/
def ItbServer.Won (x : Nat) : Prop := ∃ thread, (s.stage thread).HasWon x (s.head x).txg

/-- A block that was left without a lock is still in use, or free again and of no use to a thread
that comes back to it. -/
def ItbServer.Seen (y : Nat) (key : ItbKey) : Prop :=
  (s.head y).key = key ∧
    ((place y).Used ∨ place y = .free ∧ (s.head y).state = .cowed ∧ (s.head y).be = none)

/-- What a thread relies on at its stage. -/
def StageSound : SearchStage → Prop
  | .insert request n => (s.head n).key = request.key ∧ (s.head n).txg = request.txg ∧
    (s.head n).state = .clean ∧ Blank (s.block n) ∧ Creates request.hi = true
  | .insertHit request y _ => s.Seen place y request.key
  | .cowWait request x n be => s.Seen place x request.key ∧ (s.head n).key = request.key ∧
    c.bucket request.key = be
  | .cowWon request n => (place n).Used ∧ (s.head n).key = request.key ∧
    (s.head n).txg = request.txg ∧ (s.head n).state ≠ .clean ∧
    (steady → (s.head n).state ≠ .cowed)
  | _ => True

/-- The invariant of one block in its place. -/
structure BlockSound (x : Nat) : Prop where
  free : x ∈ s.lru ↔ place x = .free
  chained : ∀ be, x ∈ s.chain be ↔ place x = .chained be
  unborn : s.allocated ≤ x → place x = .unborn
  chainHead : ∀ be, place x = .chained be → (s.head x).be = some be ∧
    c.bucket (s.head x).key = be ∧ (s.head x).state ≠ .cowed
  handedHead : ∀ thread, place x = .handed thread → (s.head x).state ≠ .cowed
  looseHead : place x = .loose → (s.head x).be = none ∧ (steady → (s.head x).state = .cowed)
  listed : (s.head x).listed = true → place x = .free ∨ x ∈ s.dirtyList (s.head x).txg
  onList : ∀ txg, x ∈ s.dirtyList txg → (place x).Used ∧ (s.head x).listed = true ∧
    (s.head x).txg = txg ∧ (s.head x).state ≠ .clean ∧ (s.Live txg ∨ s.wb = some ⟨txg, true⟩)
  usedTxg : (place x).Used → (s.head x).txg ≤ s.openTxg
  usedDirty : (place x).Used → (s.head x).state ≠ .clean →
    x ∈ s.dirtyList (s.head x).txg ∨ s.Won x
  usedClean : (place x).Used → (s.head x).state = .clean → s.Settled x ∨ s.Awaited x
  spareDirty : ¬(place x).Used → (s.head x).state = .dirty → (s.head x).txg < s.openTxg

/-- The invariant, for the places of the blocks. -/
structure Sound : Prop where
  blocks : ∀ x, BlockSound steady c s place x
  freeOnce : s.lru.Nodup
  listOnce : ∀ txg, (s.dirtyList txg).Nodup
  keyOnce : ∀ be x y, place x = .chained be → place y = .chained be →
    (s.head x).key = (s.head y).key → x = y
  wbOpen : ∀ wb, s.wb = some wb → wb.txg + 1 = s.openTxg
  heldLive : ∀ thread txg, (s.stage thread).held = some txg → s.Live txg
  handed : ∀ thread x, (s.stage thread).hands = some x → place x = .handed thread
  stages : ∀ thread, StageSound steady c s place (s.stage thread)

end Invariant

/-! ### Frames -/

/-- The block is not touched: its header, and the lists and chains it is on. -/
structure SameAt {Thread : Type} (s t : ItbServer Thread) (x : Nat) : Prop where
  head : t.head x = s.head x
  free : x ∈ t.lru ↔ x ∈ s.lru
  chain : ∀ be, x ∈ t.chain be ↔ x ∈ s.chain be
  dirty : ∀ txg, x ∈ t.dirtyList txg ↔ x ∈ s.dirtyList txg
  allocated : t.allocated ≤ x → s.allocated ≤ x

section Frames

variable {Thread : Type} {steady : Prop} {c : ItbConfig} {s t : ItbServer Thread}
  {place after : Nat → Place Thread}

theorem live_congr (sameOpen : t.openTxg = s.openTxg) (sameWb : t.wb = s.wb) (txg : Nat) :
    t.Live txg ↔ s.Live txg := by
  unfold ItbServer.Live
  rw [sameOpen, sameWb]

theorem settled_congr (sameOpen : t.openTxg = s.openTxg) (sameWb : t.wb = s.wb) {x : Nat}
    (sameHead : t.head x = s.head x) : t.Settled x ↔ s.Settled x := by
  unfold ItbServer.Settled
  rw [sameOpen, sameWb, sameHead]

/-- A block that is not touched stays sound, if it keeps the threads it needs. -/
theorem BlockSound.congr {x : Nat} (sound : BlockSound steady c s place x) (same : SameAt s t x)
    (samePlace : after x = place x) (sameOpen : t.openTxg = s.openTxg) (sameWb : t.wb = s.wb)
    (won : s.Won x → x ∈ s.dirtyList (s.head x).txg ∨ t.Won x)
    (awaited : (s.head x).state = .clean → s.Awaited x → t.Awaited x) :
    BlockSound steady c t after x where
  free := by rw [same.free, samePlace, sound.free]
  chained be := by rw [same.chain, samePlace, sound.chained]
  unborn beyond := by rw [samePlace, sound.unborn (same.allocated beyond)]
  chainHead be at_ := by
    rw [samePlace] at at_
    rw [same.head]
    exact sound.chainHead be at_
  handedHead thread at_ := by
    rw [samePlace] at at_
    rw [same.head]
    exact sound.handedHead thread at_
  looseHead at_ := by
    rw [samePlace] at at_
    rw [same.head]
    exact sound.looseHead at_
  listed isListed := by
    rw [same.head] at isListed ⊢
    rw [same.dirty, samePlace]
    exact sound.listed isListed
  onList txg member := by
    rw [same.head, samePlace, live_congr sameOpen sameWb, sameWb]
    exact sound.onList txg ((same.dirty txg).mp member)
  usedTxg used := by
    rw [samePlace] at used
    rw [same.head, sameOpen]
    exact sound.usedTxg used
  usedDirty used changed := by
    rw [samePlace] at used
    rw [same.head] at changed ⊢
    rw [same.dirty]
    rcases sound.usedDirty used changed with member | isWon
    · exact Or.inl member
    · exact won isWon
  usedClean used clean := by
    rw [samePlace] at used
    rw [same.head] at clean
    rw [settled_congr sameOpen sameWb same.head]
    exact (sound.usedClean used clean).imp_right (awaited clean)
  spareDirty spare dirty := by
    rw [samePlace] at spare
    rw [same.head] at dirty ⊢
    rw [sameOpen]
    exact sound.spareDirty spare dirty

/-- What a thread relies on holds on, if its blocks keep what it knows of them. -/
theorem StageSound.mono {stage : SearchStage} (sound : StageSound steady c s place stage)
    (hands : ∀ n, stage.hands = some n → t.head n = s.head n ∧
      ((s.head n).state = .clean → Blank (s.block n) → Blank (t.block n)))
    (seen : ∀ y key, stage.pointsTo = some y → s.Seen place y key → t.Seen after y key)
    (won : ∀ request n, stage = .cowWon request n →
      StageSound steady c s place (.cowWon request n) →
      StageSound steady c t after (.cowWon request n)) :
    StageSound steady c t after stage := by
  cases stage with
  | insert request n =>
    obtain ⟨sameHead, blank⟩ := hands n rfl
    obtain ⟨key, txg, clean, isBlank, creates⟩ := sound
    simp only [StageSound]
    rw [sameHead]
    exact ⟨key, txg, clean, blank clean isBlank, creates⟩
  | insertHit request y unused => exact seen y _ rfl sound
  | cowWait request x n be =>
    obtain ⟨sameHead, _⟩ := hands n rfl
    simp only [StageSound] at sound ⊢
    rw [sameHead]
    exact ⟨seen x _ rfl sound.1, sound.2⟩
  | cowWon request n => exact won request n rfl sound
  | _ => trivial

end Frames

/-! ### Searches -/

/-- A search for a new entry comes to its creation in a blank block. -/
theorem itbPlan_blank {i : Itb} {hi : HvfsIndex} (blank : Blank i) (creates : Creates hi = true) :
    itbPlan i hi = some (.dirty .create) := by
  have slot : hashSlot i hi.hash < 2 * i.total := by
    have below : hashSlot i hi.hash < i.total := Nat.mod_lt _ (Nat.two_pow_pos _)
    omega
  have find : itbFind i hi (2 * i.total + 1) (hashSlot i hi.hash) = some none := by
    unfold itbFind
    rw [if_pos slot]
    simp only [blank (hashSlot i hi.hash)]
  have missing : planMissing hi = .dirty .create := if_pos creates
  unfold itbPlan
  rw [find, ← missing]

section Facts

variable {Thread : Type} {steady : Prop} {c : ItbConfig} {s : ItbServer Thread}
  {place : Nat → Place Thread}

/-- The block that the search finds is on the chain of its key, under the key. -/
theorem Sound.attached_some (sound : Sound steady c s place) {key : ItbKey} {x : Nat}
    (found : s.attached c key = some x) :
    place x = .chained (c.bucket key) ∧ (s.head x).key = key := by
  unfold ItbServer.attached at found
  have hit := List.find?_some found
  exact ⟨((sound.blocks x).chained _).mp (List.mem_of_find?_eq_some found), by simpa using hit⟩

/-- A block on the chain of its key is found. -/
theorem Sound.attached_iff (sound : Sound steady c s place) {key : ItbKey} {x : Nat} :
    s.attached c key = some x ↔ place x = .chained (c.bucket key) ∧ (s.head x).key = key := by
  refine ⟨sound.attached_some, fun ⟨at_, same⟩ => ?_⟩
  rcases found : s.attached c key with _ | y
  · unfold ItbServer.attached at found
    have apart := List.find?_eq_none.mp found x (((sound.blocks x).chained _).mpr at_)
    exact absurd (decide_eq_true same) apart
  · obtain ⟨atY, sameY⟩ := sound.attached_some found
    rw [sound.keyOnce _ y x atY at_ (sameY.trans same.symm)]

/-- A TXG that a transaction may hold is the open one or the one before. -/
theorem Sound.live_bounds (sound : Sound steady c s place) {txg : Nat} (live : s.Live txg) :
    txg ≤ s.openTxg ∧ s.openTxg ≤ txg + 1 := by
  rcases live with rfl | wb
  · exact ⟨Nat.le_refl _, Nat.le_succ _⟩
  · have step := sound.wbOpen _ wb
    simp only at step
    omega

/-- A block in use that is not CLEAN was last changed in the open TXG or the one before. -/
theorem Sound.dirty_bounds (sound : Sound steady c s place) {x : Nat} (used : (place x).Used)
    (changed : (s.head x).state ≠ .clean) : s.openTxg ≤ (s.head x).txg + 1 := by
  rcases (sound.blocks x).usedDirty used changed with member | ⟨thread, request, stage, same⟩
  · rcases ((sound.blocks x).onList _ member).2.2.2.2 with live | walking
    · exact (sound.live_bounds live).2
    · have step := sound.wbOpen _ walking
      simp only at step
      omega
  · have held : (s.stage thread).held = some (s.head x).txg := by
      rw [stage, ← same]
      rfl
    exact (sound.live_bounds (sound.heldLive thread _ held)).2

/-- A CLEAN block in use is on no list. -/
theorem Sound.clean_unlisted (sound : Sound steady c s place) {x : Nat} (used : (place x).Used)
    (clean : (s.head x).state = .clean) : (s.head x).listed = false := by
  by_contra listed
  rcases (sound.blocks x).listed (by simpa using listed) with free | member
  · rw [free] at used
    exact used
  · exact ((sound.blocks x).onList _ member).2.2.2.1 clean

/-- A block in a thread's hands is on no list. -/
theorem Sound.handed_unlisted (sound : Sound steady c s place) {x : Nat} {thread : Thread}
    (handed : place x = .handed thread) : (s.head x).listed = false := by
  by_contra listed
  rcases (sound.blocks x).listed (by simpa using listed) with free | member
  · rw [free] at handed
    cases handed
  · have used := ((sound.blocks x).onList _ member).1
    rw [handed] at used
    exact used

end Facts

end Hvfs
