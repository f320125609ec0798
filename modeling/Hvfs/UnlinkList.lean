/-
This file settles when the list of the asynchronous unlink stays a list. Its
nodes are in the blocks, and nothing takes a block off it but the wiping of a
block that is handed out again; so it stays a list as long as no block on it
comes to the free list.
-/

import Hvfs.ItbReturns

namespace Hvfs

open Transition

section Unlink

variable {Thread : Type} {c : ItbConfig} {s t : ItbServer Thread} {place : Nat → Place Thread}

/-- The block may be on the list: it is attached, or COWED and not freed yet. -/
structure Sits (s : ItbServer Thread) (x : Nat) : Prop where
  notFree : x ∉ s.lru
  allocated : x < s.allocated
  present : (∃ be, x ∈ s.chain be) ∨ (s.head x).state = .cowed

/-- The list is linked all the way around, and every block on it may be there. -/
def UnlinkRing (s : ItbServer Thread) : Prop :=
  ∃ members, Ring.IsRing s.unlink none members ∧ ∀ x, some x ∈ members → Sits s x

/-- A step that leaves the links, and the blocks that are linked. -/
theorem UnlinkRing.congr (ring : UnlinkRing s) (unlink : t.unlink = s.unlink)
    (sits : ∀ x, s.unlink.next (some x) ≠ some x → Sits s x → Sits t x) : UnlinkRing t := by
  obtain ⟨members, isRing, inside⟩ := ring
  exact ⟨members, by rwa [unlink], fun x member =>
    sits x (isRing.next_ne member) (inside x member)⟩

theorem Sits.congr {x : Nat} (sits : Sits s x) (lru : x ∈ t.lru → x ∈ s.lru)
    (allocated : t.allocated = s.allocated) (chain : ∀ be, x ∈ s.chain be → x ∈ t.chain be)
    (head : (t.head x).state = (s.head x).state) : Sits t x := by
  refine ⟨fun isFree => sits.notFree (lru isFree), by rw [allocated]; exact sits.allocated, ?_⟩
  rw [head]
  exact sits.present.imp_left fun ⟨be, member⟩ => ⟨be, chain be member⟩

/-- A block in a thread's hands is not on the list. -/
theorem Sound.not_sits {steady : Prop} (sound : Sound steady c s place) {x : Nat} {thread : Thread}
    (at_ : place x = .handed thread) : ¬Sits s x := by
  rintro ⟨-, -, ⟨be, member⟩ | cowed⟩
  · have chained := ((sound.blocks x).chained be).mp member
    rw [at_] at chained
    cases chained
  · exact (sound.blocks x).handedHead thread at_ cowed

/-- A block that is attached may be on the list. -/
theorem Sound.sits_of_attached {steady : Prop} (sound : Sound steady c s place) {x be : Nat}
    (member : x ∈ s.chain be) : Sits s x := by
  have inside := sound.blocks x
  have at_ := (inside.chained be).mp member
  refine ⟨fun free => ?_, ?_, Or.inl ⟨be, member⟩⟩
  · rw [inside.free.mp free] at at_
    cases at_
  · by_contra beyond
    rw [inside.unborn (Nat.not_lt.mp beyond)] at at_
    cases at_

/-- A block that is in use and not COWED may be on the list. -/
theorem Sound.sits_of_used (sound : Sound True c s place) {x : Nat} (used : (place x).Used)
    (kept : (s.head x).state ≠ .cowed) : Sits s x :=
  sound.sits_of_attached (List.mem_of_find?_eq_some
    (sound.attached_of_used trivial used rfl kept))

/-- `get_free_itb` hands out a block that is not on the list. -/
theorem UnlinkRing.getFree {steady : Prop} {u : ItbServer Thread} (ring : UnlinkRing s)
    (sound : Sound steady c s place) {txg n : Nat} (free : getFreeItb c s txg = (n, u))
    (unlink : t.unlink = u.unlink) (lru : t.lru = u.lru) (chain : t.chain = u.chain)
    (allocated : t.allocated = u.allocated)
    (head : ∀ x, x ≠ n → (t.head x).state = (u.head x).state) : UnlinkRing t := by
  obtain ⟨members, isRing, inside⟩ := ring
  obtain ⟨-, -, lists, chains, -, grows⟩ := sound.getFree_lists free
  have apart : ∀ x, Sits s x → x ≠ n := by
    rintro x sits rfl
    unfold getFreeItb at free
    rcases list : s.lru with _ | ⟨first, rest⟩ <;> rw [list] at free <;> cases free
    · exact absurd sits.allocated (Nat.lt_irrefl _)
    · exact sits.notFree (by rw [list]; exact List.mem_cons_self)
  refine ⟨members, ?_, fun x member => ?_⟩
  · have outside : some n ∉ none :: members := by
      intro member
      rcases List.mem_cons.mp member with same | isMember
      · cases same
      · exact apart n (inside n isMember) rfl
    rw [unlink]
    obtain ⟨_, _, _, _, rfl⟩ := getFreeItb_eq free
    exact isRing.init outside
  · have sits := inside x member
    have notN := apart x sits
    refine ⟨fun isFree => ?_, ?_, ?_⟩
    · rw [lru] at isFree
      exact sits.notFree ((lists x notN).mp isFree)
    · rw [allocated]
      exact Nat.lt_of_lt_of_le sits.allocated grows
    · rw [head x notN, (sound.got free).head, Function.update_of_ne notN, chain]
      exact sits.present.imp_left fun ⟨be, isChained⟩ => ⟨be, (chains be x).mpr isChained⟩

/-- A block in a thread's hands may be given back. -/
theorem Sound.sits_itbFree {steady : Prop} (sound : Sound steady c s place) {thread : Thread}
    {n x : Nat} (at_ : place n = .handed thread) (sits : Sits s x) : Sits (itbFree s n) x := by
  have apart : x ≠ n := by
    rintro rfl
    exact sound.not_sits at_ sits
  refine sits.congr (fun member => ?_) rfl (fun _ => id)
    (congrArg ItbHeader.state (Function.update_of_ne apart _ _))
  rcases List.mem_append.mp member with old | new
  · exact old
  · exact absurd (List.mem_singleton.mp new) apart

variable [DecidableEq Thread] {thread : Thread} {request : Request} {x : Nat}

theorem Sound.sits_freeUnused {steady : Prop} (sound : Sound steady c s place) {y z : Nat}
    {unused : Option Nat} (stage : s.stage thread = .insertHit request y unused)
    (sits : Sits s z) : Sits (Hvfs.freeUnused s thread request y unused) z := by
  cases unused with
  | none => exact sits
  | some n =>
    have given := sound.sits_itbFree (sound.handed thread n (by rw [stage]; rfl)) sits
    exact given.congr id rfl (fun _ => id) rfl

theorem freeUnused_unlink (s : ItbServer Thread) (thread : Thread) (request : Request) (y : Nat)
    (unused : Option Nat) : (freeUnused s thread request y unused).unlink = s.unlink := by
  cases unused <;> rfl

/-- Coming to a block keeps the list. -/
theorem UnlinkRing.comes {steady : Prop} (ring : UnlinkRing s) (sound : Sound steady c s place)
    {event : ServerEvent Thread} {u : ItbServer Thread}
    (comes : Comes c s event thread request x u) : UnlinkRing u := by
  cases comes with
  | search stage found ready => exact ring
  | hit stage ready =>
    exact ring.congr (freeUnused_unlink _ _ _ _ _) fun z _ => sound.sits_freeUnused stage
  | again stage =>
    obtain ⟨listed, lists, same⟩ := addCopy_eq s request x
    rw [same]
    refine ring.congr rfl fun z _ sits => sits.congr id rfl (fun _ => id) ?_
    by_cases isX : z = x
    · rw [isX]
      simp
    · simp [Function.update_of_ne isX]

/-- A search keeps the list; it may put its block there. -/
theorem UnlinkRing.visited (ring : UnlinkRing s) (sound : Sound True c s place)
    (visits : Visits True s place thread request x) (visited : Visited c s thread request x t) :
    UnlinkRing t := by
  have noted := sound.note request.txg x
  have ringNoted : UnlinkRing (s.note request.txg x) :=
    ring.congr rfl fun _ _ sits => sits.congr id rfl (fun _ => id) rfl
  cases visited with
  | done plan => exact ring.congr rfl fun _ _ sits => sits.congr id rfl (fun _ => id) rfl
  | failed plan dirtied => exact ring.congr rfl fun _ _ sits => sits.congr id rfl (fun _ => id) rfl
  | @copies act n be u plan dirtied =>
    obtain ⟨-, -, -, copied⟩ := itbDirty_cow_eq dirtied
    obtain ⟨v, free, rfl⟩ := itbCowNew_eq copied
    exact ringNoted.getFree noted free rfl rfl rfl rfl fun z apart =>
      congrArg ItbHeader.state (Function.update_of_ne apart _ _)
  | @uses act txg u result plan dirtied acted =>
    have live := sound.heldLive thread _ visits.held
    obtain ⟨after, -, dirty, -, -⟩ := noted.itbDirty_use live visits.used visits.kept dirtied
    have sitsX : Sits u x := after.sits_of_used visits.used (by rw [dirty]; exact nofun)
    -- the block itself stays attached; the others are not touched
    have ringUsed : UnlinkRing u := by
      obtain ⟨h, lists, same, _⟩ := itbDirty_use_eq dirtied
      refine ring.congr (by rw [same]; rfl) fun z _ sits => ?_
      by_cases isX : z = x
      · rw [isX]
        exact sitsX
      · rw [same]
        exact sits.congr id rfl (fun _ => id) (congrArg ItbHeader.state
          (Function.update_of_ne isX _ _))
    obtain ⟨members, isRing, inside⟩ := ringUsed
    by_cases added : result.itb.unlink ∧ u.unlink.next (some x) = some x
    · refine ⟨members ++ [some x], ?_, fun z member => ?_⟩
      · have outside : some x ∉ none :: members := by
          intro member
          rcases List.mem_cons.mp member with same | isMember
          · cases same
          · exact isRing.next_ne isMember added.2
        simp only [ItbServer.setStage, ItbServer.write]
        rw [if_pos added]
        exact isRing.addTail outside
      · rcases List.mem_append.mp member with old | new
        · exact (inside z old).congr id rfl (fun _ => id) rfl
        · cases List.mem_singleton.mp new
          exact sitsX.congr id rfl (fun _ => id) rfl
    · refine ⟨members, ?_, fun z member => (inside z member).congr id rfl (fun _ => id) rfl⟩
      simp only [ItbServer.setStage, ItbServer.write]
      rw [if_neg added]
      exact isRing

/-! ### Steps and runs -/

/-- The block that a step frees. -/
def ItbServer.freesItb (s : ItbServer Thread) : ServerEvent Thread → Option Nat
  | .commitWalk =>
    match s.wb with
    | some ⟨txg, true⟩ => (s.dirtyList txg).head?.filter fun x => (s.head x).state = .cowed
    | _ => none
  | _ => none

/-- No block is freed while it is linked into the list of the asynchronous unlink. -/
def FreesUnlinked (s : ItbServer Thread) (event : ServerEvent Thread) : Prop :=
  ∀ x ∈ s.freesItb event, s.unlink.next (some x) = some x

instance (s : ItbServer Thread) (event : ServerEvent Thread) : Decidable (FreesUnlinked s event) :=
  inferInstanceAs (Decidable (∀ x ∈ s.freesItb event, _))

omit [DecidableEq Thread] in
/-- The commit keeps the list, if the block is not linked when it is freed. -/
theorem UnlinkRing.commitItb (ring : UnlinkRing s) (sound : Sound True c s place) {txg : Nat}
    {rest : List Nat} (walking : s.wb = some ⟨txg, true⟩) (list : s.dirtyList txg = x :: rest)
    (frees : FreesUnlinked s .commitWalk) : UnlinkRing (commitItb s txg x rest) := by
  unfold Hvfs.commitItb
  by_cases cowed : (s.head x).state = .cowed
  · rw [if_pos cowed]
    have unlinked : s.unlink.next (some x) = some x := by
      refine frees x ?_
      simp only [ItbServer.freesItb, walking, list, List.head?_cons, Option.filter_some, cowed,
        decide_true, if_true, Option.mem_some_iff]
    refine ring.congr rfl fun z linked sits => ?_
    have apart : z ≠ x := by
      rintro rfl
      exact linked unlinked
    refine sits.congr (fun member => ?_) rfl (fun _ => id) (by simp [itbFree, apart])
    rcases List.mem_append.mp member with old | new
    · exact old
    · exact absurd (List.mem_singleton.mp new) apart
  · rw [if_neg cowed]
    have used := ((sound.blocks x).onList txg (by rw [list]; exact List.mem_cons_self)).1
    have sitsX := sound.sits_of_used used cowed
    refine ring.congr rfl fun z _ sits => ?_
    by_cases same : z = x
    · rw [same]
      refine ⟨sitsX.notFree, sitsX.allocated, Or.inl ?_⟩
      exact sitsX.present.resolve_right cowed
    · exact sits.congr id rfl (fun _ => id) (by simp [ItbServer.setHead, same])

/-- A step keeps the list. -/
theorem UnlinkRing.moves (ring : UnlinkRing s) (sound : Sound True c s place)
    {event : ServerEvent Thread} (moves : Moves c s event t) (frees : FreesUnlinked s event) :
    UnlinkRing t := by
  have untouched : ∀ u : ItbServer Thread, u.unlink = s.unlink → u.lru = s.lru →
      u.allocated = s.allocated → u.chain = s.chain → u.head = s.head → UnlinkRing u :=
    fun u unlink lru allocated chain head => ring.congr unlink fun z _ sits =>
      sits.congr (by rw [lru]; exact id) allocated
      (fun be => by rw [chain]; exact id) (by rw [head])
  cases moves with
  | visits comes visited =>
    obtain ⟨after, soundAfter, visits, -⟩ := sound.comes comes
    exact (ring.comes sound comes).visited soundAfter visits visited
  | gets stage creates free =>
    exact ring.getFree sound free rfl rfl rfl rfl fun z apart =>
      congrArg ItbHeader.state (Function.update_of_ne apart _ _)
  | @attaches thread request n stage fresh =>
    have notSits := sound.not_sits (sound.handed thread n (by rw [stage]; rfl))
    refine ring.congr rfl fun z _ sits => ?_
    have apart : z ≠ n := by
      rintro rfl
      exact notSits sits
    refine sits.congr id rfl (fun be member => ?_) (congrArg ItbHeader.state
      (Function.update_of_ne apart _ _))
    by_cases same : be = c.bucket (s.head n).key
    · rw [same] at member ⊢
      simp only [ItbServer.setStage, Function.update_self]
      exact List.mem_cons_of_mem _ member
    · simpa only [ItbServer.setStage, Function.update_of_ne same] using member
  | misses stage cowed =>
    exact ring.congr (freeUnused_unlink _ _ _ _ _) fun z _ sits =>
      (sound.sits_freeUnused stage sits).congr id rfl (fun _ => id) rfl
  | @wins thread request x n be stage replaceable =>
    have notSits := sound.not_sits (sound.handed thread n (by rw [stage]; rfl))
    refine ring.congr rfl fun z _ sits => ?_
    have notN : z ≠ n := by
      rintro rfl
      exact notSits sits
    by_cases same : z = x
    · rw [same]
      rw [same] at notN sits
      refine ⟨sits.notFree, sits.allocated, Or.inr ?_⟩
      simp [ItbServer.setStage, ItbServer.replace, Function.update_of_ne notN]
    · refine sits.congr id rfl (fun e member => ?_) ?_
      · by_cases isBe : e = be
        · rw [isBe] at member ⊢
          simp [ItbServer.setStage, ItbServer.replace, member, same]
        · simp [ItbServer.setStage, ItbServer.replace, Function.update_of_ne isBe, member, same]
      · simp [ItbServer.setStage, ItbServer.replace, Function.update_of_ne notN,
          Function.update_of_ne same]
  | @lost thread request n stage =>
    exact ring.congr rfl fun z _ sits => (sound.sits_itbFree
      (sound.handed thread n (by rw [stage]; rfl)) sits).congr id rfl (fun _ => id) rfl
  | commits walking list => exact ring.commitItb sound walking list frees
  | _ => exact untouched _ rfl rfl rfl rfl rfl

/-- What the list is relied on for. -/
structure UnlinkListed (s : ItbServer Thread) : Prop where
  present : ∀ x, Ring.Reaches s.unlink none (some x) →
    (∃ be, x ∈ s.chain be) ∨ (s.head x).state = .cowed ∧ x ∉ s.lru
  free : ∀ x ∈ s.lru, ¬Ring.Reaches s.unlink none (some x)
  handed : ∀ thread x, (s.stage thread).hands = some x → ¬Ring.Reaches s.unlink none (some x)
  returns : Ring.Returns s.unlink none

omit [DecidableEq Thread] in
theorem UnlinkRing.listed (ring : UnlinkRing s) (sound : Sound True c s place) :
    UnlinkListed s := by
  obtain ⟨members, isRing, inside⟩ := ring
  have sits : ∀ x, Ring.Reaches s.unlink none (some x) → Sits s x := by
    intro x reaches
    rcases List.mem_cons.mp (isRing.reaches_iff.mp reaches) with same | member
    · cases same
    · exact inside x member
  refine ⟨fun x reaches => ?_, fun x isFree reaches => (sits x reaches).notFree isFree,
    fun thread x hands reaches => sound.not_sits (sound.handed thread x hands) (sits x reaches),
    isRing.returns⟩
  exact (sits x reaches).present.imp_right fun cowed => ⟨cowed, (sits x reaches).notFree⟩

variable [Fintype Thread]

/-- In every state of a run in which no block is reused while a thread comes back to it, every copy
waits for the thread that has made it, and no block is freed while it is linked, the list of the
asynchronous unlink is one of blocks in use. -/
theorem unlink_listed_of_run {hmi : Hmi} {txg : Nat} {events : List (ServerEvent Thread)}
    (guarded : Guarded (serverStep c)
      (fun s event => (Unreused c s event ∧ CopiedOnce s event) ∧ FreesUnlinked s event)
      (ItbServer.init Thread hmi txg) events)
    (reached : run (serverStep c) (ItbServer.init Thread hmi txg) events = some s) :
    UnlinkListed s := by
  have initial : UnlinkRing (ItbServer.init Thread hmi txg) :=
    ⟨[], ⟨List.nodup_singleton _, rfl, rfl, trivial⟩, nofun⟩
  obtain ⟨⟨place, sound⟩, ring⟩ := guarded_invariant
    (fun s => (∃ place, Sound True c s place) ∧ UnlinkRing s)
    (fun state event next good allowed step => by
      obtain ⟨⟨place, sound⟩, ring⟩ := good
      obtain ⟨⟨unreused, once⟩, frees⟩ := allowed
      have moves := moves_of_serverStep step
      exact ⟨sound.moves moves (unreused next step) fun _ => once, ring.moves sound moves frees⟩)
    ⟨⟨_, init_sound hmi txg⟩, initial⟩ guarded reached
  exact ring.listed sound

end Unlink

theorem unlink_listed_of_run_unlink :
    ∃ s, run (serverStep smallConfig) (ItbServer.init Unit ⟨0, 0⟩ 1) unlinkRun = some s ∧
      s.unlink.next none = some 0 ∧ UnlinkListed s := by
  have guarded : Guarded (serverStep smallConfig)
      (fun s event => (Unreused smallConfig s event ∧ CopiedOnce s event) ∧ FreesUnlinked s event)
      (ItbServer.init Unit ⟨0, 0⟩ 1) unlinkRun := by decide +kernel
  have ends : (run (serverStep smallConfig) (ItbServer.init Unit ⟨0, 0⟩ 1) unlinkRun).map
      (·.unlink.next none) = some (some 0) := by decide +kernel
  obtain ⟨s, reached, linked⟩ := Option.map_eq_some_iff.mp ends
  exact ⟨s, reached, linked, unlink_listed_of_run guarded reached⟩

/-- The block of an unlinked name is copied in the TXG 2 and freed by the commit of the TXG 1, and
then handed out for a block of another key. -/
def linkedFreedRun : List (ServerEvent Unit) :=
  unlinkRun ++ [.put (), .switch, .begin () (letterSearch 98), .search () true, .swap (),
    .again (), .put (), .commitStart, .commitWalk, .commitEnd,
    .begin () { letterSearch 99 with itbid := 1 }, .search () true, .getFree () true]

/-- The walk along the list of the asynchronous unlink does not come back to its head. -/
theorem linked_block_reissued :
    ∃ s, run (serverStep smallConfig) (ItbServer.init Unit ⟨0, 0⟩ 1) linkedFreedRun = some s ∧
      ¬UnlinkListed s := by
  have ends : (run (serverStep smallConfig) (ItbServer.init Unit ⟨0, 0⟩ 1) linkedFreedRun).map
      (fun s => (s.unlink.next none, s.unlink.next (some 0))) = some (some 0, some 0) := by
    decide +kernel
  obtain ⟨s, reached, same⟩ := Option.map_eq_some_iff.mp ends
  obtain ⟨first, again⟩ := Prod.mk.injEq _ _ _ _ ▸ same
  refine ⟨s, reached, fun listed => ?_⟩
  obtain ⟨steps, back⟩ := listed.returns
  rw [Function.iterate_succ_apply, first, Function.iterate_fixed again] at back
  cases back

end Hvfs
