/-
This file proves that the steps of a thread in `itb_add_ite` that write no chain
keep the invariant.
-/

import Hvfs.ItbTogether

namespace Hvfs

open Threads Cursor Transition

section Steps

variable {Thread : Type} [Fintype Thread] {base : Itb} {baseChain chain : Nat → List Nat}
  {s : AddSystem Thread} {thread : Thread}

/-! ### Room -/

/-- A thread that is counted and has no bit finds a clear one. -/
theorem Together.clear_bit (good : Together base baseChain s chain) (thread : Thread)
    (reserved : (s.stage thread).reserved = true) (without : (s.stage thread).bit = none) :
    ∃ nr < s.itb.total, s.itb.bitmap nr = false := by
  classical
  by_contra none
  let owned := (Finset.range s.itb.total).filter fun nr => ∃ t, (s.stage t).bit = some nr
  have all : Finset.range s.itb.total ⊆ s.itb.held ∪ owned := by
    intro nr member
    have low := Finset.mem_range.mp member
    have set : s.itb.bitmap nr = true := by
      by_contra clear
      exact none ⟨nr, low, Bool.not_eq_true _ ▸ clear⟩
    rcases (good.marked.bits nr).mp set with held | owner
    · exact Finset.mem_union_left _ held
    · exact Finset.mem_union_right _ (Finset.mem_filter.mpr ⟨member, owner⟩)
  have few : owned.card ≤ countAt (fun stage : AddStage => stage.bit.isSome) s.stage :=
    card_le_countAt owned (fun nr member => (Finset.mem_filter.mp member).2)
      fun stage nr has => by rw [has]; rfl
  have fewer : countAt (fun stage : AddStage => stage.bit.isSome) s.stage <
      countAt AddStage.reserved s.stage := by
    refine countAt_lt (fun stage has => ?_) reserved ?_
    · cases stage <;> first | rfl | cases has
    · simp only [without, Option.isSome_none]
  have count := (Finset.card_le_card all).trans (Finset.card_union_le _ _)
  have room := good.tallied.room
  rw [Finset.card_range, good.marked.distinct] at count
  omega

/-- Under a head in use a thread that is counted and has no cell finds one that nobody has. -/
theorem Together.free_cell (good : Together base baseChain s chain) (thread : Thread)
    (reserved : (s.stage thread).reserved = true) (without : (s.stage thread).lends = false)
    {slot : Nat} (bound : slot < s.itb.total) (head : (s.itb.index slot).flag ≠ .free) :
    ∃ p < s.itb.total, (s.itb.index (p + s.itb.total)).flag = .free ∧
      ¬∃ t, (s.stage t).cell = some (p + s.itb.total) := by
  classical
  by_contra none
  let cells := Finset.Ico s.itb.total (2 * s.itb.total)
  let lent := cells.filter fun cell => ∃ t, (s.stage t).cell = some cell
  have all : cells ⊆ s.itb.spilled ∪ lent := by
    intro cell member
    obtain ⟨low, high⟩ := Finset.mem_Ico.mp member
    by_cases free : (s.itb.index cell).flag = .free
    · refine Finset.mem_union_right _ (Finset.mem_filter.mpr ⟨member, ?_⟩)
      by_contra nobody
      refine none ⟨cell - s.itb.total, by omega, ?_⟩
      rw [Nat.sub_add_cancel low]
      exact ⟨free, nobody⟩
    · exact Finset.mem_union_left _
        (Finset.mem_filter.mpr ⟨mem_used.mpr ⟨high, free⟩, low⟩)
  have few : lent.card ≤ countAt AddStage.lends s.stage := by
    refine card_le_countAt lent (fun cell member => (Finset.mem_filter.mp member).2) ?_
    intro stage cell has
    cases stage <;> first | rfl | cases has
  have fewer : countAt AddStage.lends s.stage < countAt AddStage.reserved s.stage := by
    refine countAt_lt (fun stage has => ?_) reserved without
    cases stage <;> first | rfl | cases has
  -- the head is in use and not among the cells of the second half
  have more : s.itb.spilled.card < s.itb.used.card := by
    refine Finset.card_lt_card (Finset.ssubset_iff_subset_ne.mpr ⟨Finset.filter_subset _ _, ?_⟩)
    intro same
    have member : slot ∈ s.itb.used := mem_used.mpr ⟨by omega, head⟩
    rw [← same] at member
    have high := (Finset.mem_filter.mp member).2
    omega
  have count := (Finset.card_le_card all).trans (Finset.card_union_le _ _)
  have room := good.tallied.room
  rw [Nat.card_Ico] at count
  omega

/-- A step of the stage leads to a state with the invariant. -/
def AddKept (base : Itb) (baseChain : Nat → List Nat) (next : Option (AddSystem Thread)) : Prop :=
  ∀ after, next = some after → ∃ chainAfter, Together base baseChain after chainAfter

theorem AddKept.some {after : AddSystem Thread} {chainAfter : Nat → List Nat}
    (good : Together base baseChain after chainAfter) : AddKept base baseChain (some after) := by
  rintro _ ⟨⟩
  exact ⟨chainAfter, good⟩

theorem AddKept.none : AddKept base baseChain (none : Option (AddSystem Thread)) := by
  rintro _ ⟨⟩

/-- The locks that a thread keeps. -/
theorem Together.lock_kept (good : Together base baseChain s chain) {old next : AddStage}
    (at_ : s.stage thread = old) (same : next.request = old.request) (l : Nat)
    (has : next.lock s.itb = some l) (other : Thread) (different : other ≠ thread) :
    (s.stage other).lock s.itb ≠ some l := by
  refine good.locks thread other different.symm l ?_
  show (s.stage thread).lock s.itb = some l
  rw [at_]
  unfold AddStage.lock at has ⊢
  rwa [← same]

theorem Together.spins_kept (good : Together base baseChain s chain) {old next : AddStage}
    (at_ : s.stage thread = old) (same : next.spins = old.spins) (u : Unit)
    (has : next.spins = some u) (other : Thread) (different : other ≠ thread) :
    (s.stage other).spins ≠ some u := by
  refine good.spins thread other different.symm u ?_
  show (s.stage thread).spins = some u
  rw [at_, ← same, has]

/-- The bit of an entry that is some thread's own is set. -/
theorem Together.bit_of_owns (good : Together base baseChain s chain) {t : Thread} {nr : Nat}
    (owns : (s.stage t).owns = some nr) : s.itb.bitmap nr = true := by
  rw [good.marked.bits]
  have served := good.served t
  have member : ∀ hi ite, Prepared s.itb hi nr ite ∧ Holds s.itb chain (hashSlot s.itb hi.hash) nr →
      nr ∈ s.itb.held := fun hi ite mine => good.chains.mem_held.mpr ⟨_, mine.2⟩
  cases at_ : s.stage t with
  | note hi own ite =>
    rw [at_] at owns served
    obtain rfl := Option.some.inj owns
    exact Or.inl (member hi ite served)
  | fill hi own ite =>
    rw [at_] at owns served
    obtain rfl := Option.some.inj owns
    exact Or.inl (member hi ite served)
  | took hi own => exact Or.inr ⟨t, by rw [at_] at owns ⊢; exact owns⟩
  | head hi own ite => exact Or.inr ⟨t, by rw [at_] at owns ⊢; exact owns⟩
  | seek hi own ite left pos => exact Or.inr ⟨t, by rw [at_] at owns ⊢; exact owns⟩
  | link hi own ite f => exact Or.inr ⟨t, by rw [at_] at owns ⊢; exact owns⟩
  | _ =>
    rw [at_] at owns
    cases owns

variable [DecidableEq Thread]

/-! ### Parts of the invariant that a step leaves alone -/

section Frames

variable {i : Itb} {hmi : Hmi} {added : List AddedIte} {next : AddStage}

omit [DecidableEq Thread] [Fintype Thread] in
theorem used_congr (index : i.index = base.index) (adepth : i.adepth = base.adepth) :
    i.used = base.used := by
  unfold Itb.used Itb.total
  rw [index, adepth]

omit [DecidableEq Thread] [Fintype Thread] in
theorem held_congr (index : i.index = base.index) (adepth : i.adepth = base.adepth) :
    i.held = base.held := by
  unfold Itb.held
  rw [used_congr index adepth, index]

omit [DecidableEq Thread] [Fintype Thread] in
theorem spilled_congr (index : i.index = base.index) (adepth : i.adepth = base.adepth) :
    i.spilled = base.spilled := by
  unfold Itb.spilled Itb.total
  rw [used_congr index adepth, adepth]

omit [Fintype Thread] in
theorem Marked.same (marked : Marked s) (index : i.index = s.itb.index)
    (adepth : i.adepth = s.itb.adepth) (bitmap : i.bitmap = s.itb.bitmap)
    (bit : next.bit = (s.stage thread).bit) :
    Marked ⟨i, hmi, Function.update s.stage thread next, added⟩ where
  bits nr := by
    rw [bitmap, held_congr index adepth, marked.bits nr]
    exact or_congr_right (exists_same AddStage.bit s.stage bit nr).symm
  apart t nr has := by
    rw [held_congr index adepth]
    have before := marked.apart t nr
      ((congrFun (holds_same AddStage.bit s.stage bit) t).symm.trans has)
    exact ⟨before.1, lt_of_lt_of_eq before.2 (congrArg (2 ^ ·) adepth.symm)⟩
  bound nr inside := by
    rw [held_congr index adepth] at inside
    exact lt_of_lt_of_eq (marked.bound nr inside) (congrArg (2 ^ ·) adepth.symm)
  distinct := by
    rw [held_congr index adepth, used_congr index adepth]
    exact marked.distinct

omit [Fintype Thread] in
theorem Noted.same (noted : Noted s) (index : i.index = s.itb.index)
    (adepth : i.adepth = s.itb.adepth) (maxOffset : i.maxOffset = s.itb.maxOffset)
    (len : i.len = s.itb.len) (notes : next.notes = (s.stage thread).notes) :
    Noted ⟨i, hmi, Function.update s.stage thread next, added⟩ where
  maxOffset nr inside := by
    rw [held_congr index adepth] at inside
    rw [maxOffset]
    exact (noted.maxOffset nr inside).imp_right
      (exists_same AddStage.notes s.stage notes nr).mpr
  len := by
    rw [maxOffset, len, adepth, held_congr index adepth]
    exact noted.len.imp_left fun ⟨all, zero⟩ => ⟨fun nr inside =>
      (exists_same AddStage.notes s.stage notes nr).mpr (all nr inside), zero⟩
  empty := by
    rw [used_congr index adepth, maxOffset]
    exact noted.empty

/-- The counters when the thread stays as it is counted, or a counter follows it. -/
theorem Tallied.go (tallied : Tallied s) (index : i.index = s.itb.index)
    (adepth : i.adepth = s.itb.adepth)
    (entries : i.entries + (s.stage thread).counts.toNat = s.itb.entries + next.counts.toNat)
    (room : s.itb.used.card + countAt AddStage.reserved s.stage + next.reserved.toNat ≤
      s.itb.total + (s.stage thread).reserved.toNat)
    (itu : i.itu + (s.stage thread).lends.toNat = s.itb.itu + next.lends.toNat)
    (pseudoConflicts : i.pseudoConflicts = s.itb.pseudoConflicts) :
    Tallied ⟨i, hmi, Function.update s.stage thread next, added⟩ where
  entries := by
    have counted := countAt_update AddStage.counts s.stage thread next
    have before := tallied.entries
    dsimp only
    rw [used_congr index adepth]
    omega
  room := by
    have counted := countAt_update AddStage.reserved s.stage thread next
    have total : i.total = s.itb.total := congrArg (2 ^ ·) adepth
    have before := tallied.room
    dsimp only
    rw [used_congr index adepth, total]
    omega
  itu := by
    have counted := countAt_update AddStage.lends s.stage thread next
    have before := tallied.itu
    dsimp only
    rw [spilled_congr index adepth]
    omega
  pseudoConflicts := by
    rw [spilled_congr index adepth, pseudoConflicts]
    exact tallied.pseudoConflicts

/-- What has been added when the thread takes no entry that is on a chain. -/
theorem Returned.same (returned : Returned base baseChain s chain)
    (index : i.index = s.itb.index) (adepth : i.adepth = s.itb.adepth) (chains : Chains s.itb chain)
    (ite : ∀ nr ∈ s.itb.held, (∀ t, (s.stage t).owns ≠ some nr) → i.ite nr = s.itb.ite nr)
    (owns : ∀ nr ∈ s.itb.held, next.owns = some nr → (s.stage thread).owns = some nr)
    (hangs : next.hangs = (s.stage thread).hangs) :
    Returned base baseChain ⟨i, hmi, Function.update s.stage thread next, s.added⟩ chain := by
  have holds : ∀ slot nr, Holds s.itb chain slot nr → Holds i chain slot nr := by
    rintro slot nr ⟨cell, member, entry⟩
    exact ⟨cell, member, by rw [index]; exact entry⟩
  have apart : ∀ nr ∈ s.itb.held, (∀ t, (s.stage t).owns ≠ some nr) →
      ∀ t, (Function.update s.stage thread next t).owns ≠ some nr := by
    intro nr inside nobody t
    rw [Function.update_apply]
    split_ifs
    · exact fun mine => nobody thread (owns nr inside mine)
    · exact nobody t
  refine ⟨adepth.trans returned.adepth, fun a member => ?_, returned.nodup,
    fun slot nr before => ?_,
    ?_⟩
  · obtain ⟨there, written, fresh, nobody⟩ := returned.added a member
    have inside := chains.mem_held.mpr ⟨_, there⟩
    refine ⟨?_, (ite _ inside nobody).trans written, fresh, apart _ inside nobody⟩
    rw [hashSlot_congr adepth]
    exact holds _ _ there
  · obtain ⟨there, written, nobody, new⟩ := returned.kept slot nr before
    have inside := chains.mem_held.mpr ⟨_, there⟩
    exact ⟨holds _ _ there, (ite _ inside nobody).trans written, apart _ inside nobody, new⟩
  · rw [used_congr index adepth, countAt_same s.stage hangs]
    exact returned.grown

omit [Fintype Thread] in
theorem served_go {chainAfter : Nat → List Nat} (own : AddServed i chainAfter next)
    (others : ∀ t, t ≠ thread → AddServed i chainAfter (s.stage t)) (t : Thread) :
    AddServed i chainAfter (Function.update s.stage thread next t) := by
  rcases eq_or_ne t thread with rfl | different
  · rw [Function.update_self]
    exact own
  · rw [Function.update_of_ne different]
    exact others t different

end Frames

/-! ### Steps that only count -/

/-- Two stages at which a thread has the same entry and the same cell. -/
structure SameHolds (old next : AddStage) : Prop where
  bit : next.bit = old.bit
  owns : next.owns = old.owns
  cell : next.cell = old.cell
  notes : next.notes = old.notes
  lends : next.lends = old.lends
  hangs : next.hangs = old.hangs

theorem Together.move (good : Together base baseChain s chain) {old next : AddStage} {k : Int}
    (at_ : s.stage thread = old) (same : SameHolds old next)
    (lock : ∀ l, next.lock s.itb = some l → ∀ other, other ≠ thread →
      (s.stage other).lock s.itb ≠ some l)
    (spins : ∀ u, next.spins = some u → ∀ other, other ≠ thread → (s.stage other).spins ≠ some u)
    (entries : k + old.counts.toNat = s.itb.entries + next.counts.toNat)
    (room : s.itb.used.card + countAt AddStage.reserved s.stage + next.reserved.toNat ≤
      s.itb.total + old.reserved.toNat)
    (served : AddServed s.itb chain next) :
    Together base baseChain
      ({ s with itb := { s.itb with entries := k } }.go thread next) chain := by
  subst at_
  obtain ⟨bit, owns, cell, notes, lends, hangs⟩ := same
  exact
    { chains := good.chains.congr rfl fun _ => ⟨rfl, rfl⟩
      marked := good.marked.same rfl rfl rfl bit
      tallied := good.tallied.go rfl rfl entries room (by rw [lends]) rfl
      noted := good.noted.same rfl rfl rfl rfl notes
      returned := good.returned.same rfl rfl good.chains (fun _ _ _ => rfl)
        (fun _ _ mine => owns ▸ mine) hangs
      fresh := good.fresh.mark (fun _ _ free => free)
        (fun p => (exists_same AddStage.cell s.stage cell _).mp)
        fun p _ _ => (exists_same AddStage.cell s.stage cell _).mpr
      owners := good.owners.go_same owns
      cells := good.cells.go_same cell
      locks := good.locks.go lock
      spins := good.spins.go spins
      served := by
        have frame : ∀ stage, AddServed s.itb chain stage →
            AddServed { s.itb with entries := k } chain stage := fun stage served =>
          served.frame rfl (fun _ => id) (fun _ _ => rfl) (fun _ _ => id) (fun _ _ _ => id)
            (fun _ => rfl) fun _ _ => id
        exact served_go (frame next served) fun t _ => frame _ (good.served t) }

theorem Together.begin_kept (good : Together base baseChain s chain) (hi : HvfsIndex)
    (idle : s.stage thread = .idle) (unlocked : ¬s.Locked (lockOf s.itb hi)) :
    Together base baseChain (s.go thread (.enter hi)) chain := by
  refine good.move (k := s.itb.entries) idle ⟨rfl, rfl, rfl, rfl, rfl, rfl⟩ ?_ (by rintro _ ⟨⟩) rfl
    good.tallied.room trivial
  rintro l ⟨⟩ other _ held
  exact unlocked ⟨other, held⟩

theorem Together.enter_kept (good : Together base baseChain s chain) {hi : HvfsIndex}
    (at_ : s.stage thread = .enter hi) : AddKept base baseChain (addNext s thread) := by
  have used := good.tallied.entries
  have room := good.tallied.room
  have fewer : countAt AddStage.reserved s.stage ≤ countAt AddStage.counts s.stage := by
    refine Finset.sum_le_sum fun t _ => Bool.toNat_le_toNat ?_
    cases s.stage t <;> first | exact id | (intro has; cases has)
  simp only [addNext, at_]
  split_ifs with below
  · refine AddKept.some (good.move at_ ⟨rfl, rfl, rfl, rfl, rfl, rfl⟩ (good.lock_kept at_ rfl)
      (by rintro _ ⟨⟩) (Int.add_zero _) ?_
      ⟨Nat.zero_le _, fun bit below => absurd below (Nat.not_lt_zero bit)⟩)
    show s.itb.used.card + countAt AddStage.reserved s.stage + 1 ≤ s.itb.total + 0
    omega
  · exact AddKept.some (good.move at_ ⟨rfl, rfl, rfl, rfl, rfl, rfl⟩ (good.lock_kept at_ rfl)
      (by rintro _ ⟨⟩) (Int.add_zero _) room trivial)

theorem Together.full_kept (good : Together base baseChain s chain) {hi : HvfsIndex}
    (at_ : s.stage thread = .full hi) : AddKept base baseChain (addNext s thread) := by
  simp only [addNext, at_]
  refine AddKept.some (good.move at_ ⟨rfl, rfl, rfl, rfl, rfl, rfl⟩ (good.lock_kept at_ rfl)
    (by rintro _ ⟨⟩) ?_ good.tallied.room (Or.inr rfl))
  show s.itb.entries - 1 + 1 = s.itb.entries + 0
  omega

/-- The search for a clear bit does not come to the end. -/
theorem Together.scan_kept (good : Together base baseChain s chain) {hi : HvfsIndex} {n : Nat}
    (at_ : s.stage thread = .scan hi n) : AddKept base baseChain (addNext s thread) := by
  have served := good.served thread
  rw [at_] at served
  have room := Nat.add_le_add_right good.tallied.room 1
  simp only [addNext, at_]
  split_ifs with inside set
  · refine AddKept.some (good.move (k := s.itb.entries) at_ ⟨rfl, rfl, rfl, rfl, rfl, rfl⟩
      (good.lock_kept at_ rfl) (by rintro _ ⟨⟩) rfl room ⟨inside, fun bit below => ?_⟩)
    rcases Nat.lt_succ_iff_lt_or_eq.mp below with less | rfl
    · exact served.2 bit less
    · exact set
  · exact AddKept.some (good.move (k := s.itb.entries) at_ ⟨rfl, rfl, rfl, rfl, rfl, rfl⟩
      (good.lock_kept at_ rfl) (by rintro _ ⟨⟩) rfl room inside)
  · obtain ⟨nr, low, clear⟩ := good.clear_bit thread (by rw [at_]; rfl) (by rw [at_]; rfl)
    have set := served.2 nr (lt_of_lt_of_le low (not_lt.mp inside))
    rw [clear] at set
    cases set

theorem Together.head_seek_kept (good : Together base baseChain s chain) {hi : HvfsIndex} {nr : Nat}
    {ite : Ite} (at_ : s.stage thread = .head hi nr ite)
    (used : (s.itb.index (hashSlot s.itb hi.hash)).flag ≠ .free) (free : ¬s.Spinning) :
    Together base baseChain (s.go thread (.seek hi nr ite s.itb.total s.itb.cursor)) chain := by
  have served := good.served thread
  rw [at_] at served
  refine good.move (k := s.itb.entries) at_ ⟨rfl, rfl, rfl, rfl, rfl, rfl⟩ (good.lock_kept at_ rfl)
    (fun _ _ other _ spins => free ⟨other, spins⟩) rfl
    (Nat.add_le_add_right good.tallied.room 1) ⟨served, used, s.itb.cursor_lt,
    Nat.le_refl _, ?_, ?_⟩
  · intro p _ before
    omega
  · exact Or.inr (by rw [ahead_self, Nat.sub_self])

/-- The search for a free cell goes on behind a cell in use. -/
theorem Together.seek_on_kept (good : Together base baseChain s chain) {hi : HvfsIndex}
    {nr left pos : Nat} {ite : Ite} (at_ : s.stage thread = .seek hi nr ite (left + 1) pos)
    (used : (s.itb.index (pos + s.itb.total)).flag ≠ .free) :
    Together base baseChain
      (s.go thread (.seek hi nr ite left (Cursor.next s.itb.total pos))) chain := by
  have served := good.served thread
  rw [at_] at served
  obtain ⟨mine, head, sought⟩ := served
  have below := s.itb.cursor_lt
  have here := sought.here.resolve_left (Nat.succ_ne_zero left)
  have less := sought.left_le
  refine good.move (k := s.itb.entries) at_ ⟨rfl, rfl, rfl, rfl, rfl, rfl⟩ (good.lock_kept at_ rfl)
    (good.spins_kept at_ rfl) rfl
    (Nat.add_le_add_right good.tallied.room 1)
    ⟨mine, head, next_lt sought.bound, by omega, fun p bound before => ?_, ?_⟩
  · by_cases passed : ahead s.itb.total s.itb.cursor p < s.itb.total - (left + 1)
    · exact sought.passed p bound passed
    · have same := ahead_inj below bound sought.bound (by omega)
      rwa [same]
  · rcases Nat.eq_zero_or_pos left with zero | more
    · exact Or.inl zero
    · refine Or.inr ?_
      rw [ahead_next below (by omega), here]
      omega

/-! ### The entry -/

/-- The bit that was clear is the thread's own now. -/
theorem Together.test_took_kept (good : Together base baseChain s chain) {hi : HvfsIndex} {nr : Nat}
    (at_ : s.stage thread = .test hi nr) (clear : s.itb.bitmap nr = false) :
    Together base baseChain
      ({ s with itb := s.itb.setBit nr true }.go thread (.took hi nr)) chain := by
  have low : nr < s.itb.total := by
    have served := good.served thread
    rwa [at_] at served
  have nobody : ∀ t, (s.stage t).owns ≠ some nr := by
    intro t owns
    have set := good.bit_of_owns owns
    rw [clear] at set
    cases set
  have outside : nr ∉ s.itb.held := by
    intro inside
    have set := (good.marked.bits nr).mpr (Or.inl inside)
    rw [clear] at set
    cases set
  have cell : (AddStage.took hi nr).cell = (s.stage thread).cell := by rw [at_]; rfl
  have notes : (AddStage.took hi nr).notes = (s.stage thread).notes := by rw [at_]; rfl
  refine
    { chains := good.chains.congr rfl fun _ => ⟨rfl, rfl⟩
      marked := ⟨fun other => ?_, fun t other has => ?_, good.marked.bound, good.marked.distinct⟩
      tallied := good.tallied.go rfl rfl (by rw [at_]; rfl) (by
        rw [at_]
        exact Nat.add_le_add_right good.tallied.room 1) (by rw [at_]; rfl) rfl
      noted := good.noted.same rfl rfl rfl rfl notes
      returned := good.returned.same rfl rfl good.chains (fun _ _ _ => rfl) ?_ (by rw [at_]; rfl)
      fresh := good.fresh.mark (fun _ _ free => free)
        (fun p => (exists_same AddStage.cell s.stage cell _).mp)
        fun p _ _ => (exists_same AddStage.cell s.stage cell _).mpr
      owners := good.owners.go (by
        rintro _ ⟨⟩ other _
        exact nobody other)
      cells := good.cells.go_same cell
      locks := good.locks.go (good.lock_kept at_ rfl)
      spins := good.spins.go (by rintro _ ⟨⟩)
      served := served_go trivial fun t _ => (good.served t).frame rfl (fun bit set => ?_)
        (fun _ _ => rfl) (fun _ _ => id) (fun _ _ _ => id) (fun _ => rfl) fun _ _ => id }
  · have before : (s.stage thread).bit = none := by rw [at_]; rfl
    have taken := exists_go_take AddStage.bit s.stage (.took hi nr) before rfl other
    show Function.update s.itb.bitmap nr true other = true ↔ other ∈ s.itb.held ∨
      ∃ t, (Function.update s.stage thread (AddStage.took hi nr) t).bit = some other
    rw [taken, Function.update_apply]
    split_ifs with here
    · exact iff_of_true rfl (Or.inr (Or.inl here))
    · rw [good.marked.bits other]
      exact or_congr_right ⟨Or.inr, fun either => either.resolve_left here⟩
  · simp only [AddSystem.go, Function.update_apply] at has
    split_ifs at has with here
    · obtain rfl := Option.some.inj has
      exact ⟨outside, low⟩
    · exact good.marked.apart t other has
  · rintro other inside ⟨⟩
    exact absurd inside outside
  · show Function.update s.itb.bitmap nr true bit = true
    rw [Function.update_apply, set, ite_self]

/-- Someone else may have set the bit meanwhile; then the search begins again. -/
theorem Together.test_kept (good : Together base baseChain s chain) {hi : HvfsIndex} {nr : Nat}
    (at_ : s.stage thread = .test hi nr) : AddKept base baseChain (addNext s thread) := by
  simp only [addNext, at_]
  split_ifs with set
  · exact AddKept.some (good.move (k := s.itb.entries) at_ ⟨rfl, rfl, rfl, rfl, rfl, rfl⟩
      (good.lock_kept at_ rfl) (by rintro _ ⟨⟩) rfl (Nat.add_le_add_right good.tallied.room 1)
      ⟨Nat.zero_le _, fun bit below => absurd below (Nat.not_lt_zero bit)⟩)
  · exact AddKept.some (good.test_took_kept at_ (Bool.not_eq_true _ ▸ set))

theorem Together.took_kept (good : Together base baseChain s chain) {hi : HvfsIndex} {nr : Nat}
    (at_ : s.stage thread = .took hi nr) : AddKept base baseChain (addNext s thread) := by
  have own : (s.stage thread).owns = some nr := by rw [at_]; rfl
  have bit : (AddStage.head hi nr (newIte s.hmi hi).1).bit = (s.stage thread).bit := by
    rw [at_]
    rfl
  have owns : (AddStage.head hi nr (newIte s.hmi hi).1).owns = (s.stage thread).owns := by
    rw [at_]; rfl
  have cell : (AddStage.head hi nr (newIte s.hmi hi).1).cell = (s.stage thread).cell := by
    rw [at_]; rfl
  have notes : (AddStage.head hi nr (newIte s.hmi hi).1).notes = (s.stage thread).notes := by
    rw [at_]; rfl
  have elsewhere : ∀ other, other ≠ nr →
      (s.itb.setIte nr (newIte s.hmi hi).1).ite other = s.itb.ite other := fun other different => by
    rw [setIte_ite, Function.update_of_ne different]
  simp only [addNext, at_]
  refine AddKept.some (show Together base baseChain _ chain from
    { chains := good.chains.congr rfl fun _ => ⟨rfl, rfl⟩
      marked := good.marked.same rfl rfl rfl bit
      tallied := good.tallied.go rfl rfl (by rw [at_]; rfl) (by
        rw [at_]
        exact Nat.add_le_add_right good.tallied.room 1) (by rw [at_]; rfl) rfl
      noted := good.noted.same rfl rfl rfl rfl notes
      returned := good.returned.same rfl rfl good.chains
        (fun other _ nobody => elsewhere other fun same => nobody thread (same ▸ own))
        (fun _ _ mine => owns ▸ mine) (by rw [at_]; rfl)
      fresh := good.fresh.mark (fun _ _ free => free)
        (fun p => (exists_same AddStage.cell s.stage cell _).mp)
        fun p _ _ => (exists_same AddStage.cell s.stage cell _).mpr
      owners := good.owners.go_same owns
      cells := good.cells.go_same cell
      locks := good.locks.go (good.lock_kept at_ rfl)
      spins := good.spins.go (by rintro _ ⟨⟩)
      served := served_go ⟨?_, s.hmi, rfl⟩ fun t different => (good.served t).frame rfl
        (fun _ => id) (fun other theirs => elsewhere other ?_) (fun _ _ => id) (fun _ _ _ => id)
        (fun _ => rfl) fun _ _ => id })
  · exact Function.update_self nr _ s.itb.ite
  · rintro rfl
    exact good.owners thread t different.symm _ own theirs

theorem Together.done_kept (good : Together base baseChain s chain) {hi : HvfsIndex} {err : Int}
    (at_ : s.stage thread = .done hi err) : AddKept base baseChain (addNext s thread) := by
  simp only [addNext, at_]
  exact AddKept.some (good.move (k := s.itb.entries) at_ ⟨rfl, rfl, rfl, rfl, rfl, rfl⟩
    (by rintro _ ⟨⟩) (by rintro _ ⟨⟩) rfl good.tallied.room trivial)

end Steps

end Hvfs
