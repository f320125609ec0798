/-
This file proves that threads in `itb_add_ite` keep the invariant when one of
them hangs its entry on a chain, is given a cell or notes and fills its entry.
-/

import Hvfs.ItbAddSteps

namespace Hvfs

open Threads Cursor Transition

section Steps

variable {Thread : Type} [Fintype Thread] {base : Itb} {baseChain chain : Nat → List Nat}
  {s : AddSystem Thread} {thread : Thread}

/-! ### Hanging the entry -/

theorem bit_owns {stage : AddStage} {nr : Nat} (has : stage.bit = some nr) :
    stage.owns = some nr := by
  cases stage <;> first | exact has | cases has

/-- No two threads have the same bit. -/
theorem Together.bits_apart (good : Together base baseChain s chain) :
    Exclusive fun t => (s.stage t).bit := fun first second different nr has also =>
  good.owners first second different nr (bit_owns has) (bit_owns also)

theorem Together.free_of_cell (good : Together base baseChain s chain) {t : Thread} {f : Nat}
    (has : (s.stage t).cell = some f) : FreeCell s.itb f := by
  have served := good.served t
  cases at_ : s.stage t with
  | link hi nr ite given =>
    rw [at_] at has served
    obtain rfl := Option.some.inj has
    exact served.2.2
  | _ =>
    rw [at_] at has
    cases has

/-- A thread that hangs its entry: on a FREE head, or with the cell that it was given. -/
structure Hanging (i : Itb) (stage : AddStage) (hi : HvfsIndex) (nr : Nat) (ite : Ite)
    (cell : Nat) : Prop where
  stage : stage = .head hi nr ite ∧ cell = hashSlot i hi.hash ∨ stage = .link hi nr ite cell
  free : (i.index cell).flag = .free

namespace Hanging

variable {stage : AddStage} {hi : HvfsIndex} {nr cell : Nat} {ite : Ite} {i : Itb}

theorem bit (hanging : Hanging i stage hi nr ite cell) : stage.bit = some nr := by
  rcases hanging.stage with ⟨rfl, _⟩ | rfl <;> rfl

theorem owns (hanging : Hanging i stage hi nr ite cell) : stage.owns = some nr := by
  rcases hanging.stage with ⟨rfl, _⟩ | rfl <;> rfl

theorem notes (hanging : Hanging i stage hi nr ite cell) : stage.notes = none := by
  rcases hanging.stage with ⟨rfl, _⟩ | rfl <;> rfl

theorem request (hanging : Hanging i stage hi nr ite cell) : stage.request = some hi := by
  rcases hanging.stage with ⟨rfl, _⟩ | rfl <;> rfl

theorem counts (hanging : Hanging i stage hi nr ite cell) : stage.counts = true := by
  rcases hanging.stage with ⟨rfl, _⟩ | rfl <;> rfl

theorem reserved (hanging : Hanging i stage hi nr ite cell) : stage.reserved = true := by
  rcases hanging.stage with ⟨rfl, _⟩ | rfl <;> rfl

theorem hangs (hanging : Hanging i stage hi nr ite cell) : stage.hangs = false := by
  rcases hanging.stage with ⟨rfl, _⟩ | rfl <;> rfl

theorem prepared {chain : Nat → List Nat} (hanging : Hanging i stage hi nr ite cell)
    (served : AddServed i chain stage) : Prepared i hi nr ite := by
  rcases hanging.stage with ⟨rfl, _⟩ | rfl
  · exact served
  · exact served.1

/-- The cell is in the second half if it was given. -/
theorem lends {chain : Nat → List Nat} (hanging : Hanging i stage hi nr ite cell)
    (served : AddServed i chain stage) : stage.lends = decide (i.total ≤ cell) := by
  rcases hanging.stage with ⟨rfl, rfl⟩ | rfl
  · exact (decide_eq_false (not_le.mpr (hashSlot_lt i hi.hash))).symm
  · exact (decide_eq_true served.2.2.low).symm

end Hanging

variable [DecidableEq Thread] {hi : HvfsIndex} {nr cell : Nat} {ite : Ite}
  {index : Nat → ItbIndex} {pseudoConflicts : Int} {chainAfter : Nat → List Nat}

/-- The block with another index. -/
def Itb.rehang (i : Itb) (index : Nat → ItbIndex) (pseudoConflicts : Int) : Itb :=
  { i with index, pseudoConflicts }

omit [DecidableEq Thread] in
/-- The entry is on no chain, and the cell is on none. -/
theorem Together.hook_outside (good : Together base baseChain s chain)
    (hanging : Hanging s.itb (s.stage thread) hi nr ite cell) :
    nr ∉ s.itb.held ∧ nr < s.itb.total ∧ cell ∉ s.itb.used := by
  have new := good.marked.apart thread nr hanging.bit
  exact ⟨new.1, new.2, fun member => (mem_used.mp member).2 hanging.free⟩

omit [DecidableEq Thread] in
/-- The cell of another thread is not the one that is written. -/
theorem Together.hook_other (good : Together base baseChain s chain)
    (hanging : Hanging s.itb (s.stage thread) hi nr ite cell) {t : Thread} (different : t ≠ thread)
    {f : Nat} (has : (s.stage t).cell = some f) : f ≠ cell := by
  rintro rfl
  rcases hanging.stage with ⟨_, same⟩ | at_
  · have low := (good.free_of_cell has).low
    have := hashSlot_lt s.itb hi.hash
    omega
  · have mine : (s.stage thread).cell = some f := by rw [at_]; rfl
    exact good.cells thread t different.symm f mine has

omit [DecidableEq Thread] [Fintype Thread] in
/-- The cells that are FREE now were FREE before, and one of those is not any more. -/
theorem Hooked.free_iff {i after : Itb} {slot : Nat} (chains : Chains i chain)
    (hooked : Hooked i chain slot nr cell after chainAfter) (sameTotal : after.total = i.total)
    {other : Nat} (bound : other < 2 * i.total) :
    (after.index other).flag = .free ↔ (i.index other).flag = .free ∧ other ≠ cell := by
  have used : other ∈ after.used ↔ other = cell ∨ other ∈ i.used := by
    rw [hooked.used chains, Finset.mem_insert]
  rw [mem_used, mem_used, sameTotal] at used
  have inUse : (after.index other).flag ≠ .free ↔
      other = cell ∨ (i.index other).flag ≠ .free := by
    constructor
    · exact fun now => (used.mp ⟨bound, now⟩).imp_right And.right
    · exact fun either => (used.mpr (either.imp_right fun before => ⟨bound, before⟩)).2
  tauto

section Hang

variable (good : Together base baseChain s chain)
  (hanging : Hanging s.itb (s.stage thread) hi nr ite cell)
  (hooked : Hooked s.itb chain (hashSlot s.itb hi.hash) nr cell
    (s.itb.rehang index pseudoConflicts) chainAfter)

include good hanging hooked

theorem hook_marked : Marked
    ({ s with itb := s.itb.rehang index pseudoConflicts }.go thread (.note hi nr ite)) := by
  obtain ⟨outside, low, unused⟩ := good.hook_outside hanging
  have held := hooked.held good.chains
  have used := hooked.used good.chains
  have released := good.bits_apart.exists_go_release (.note hi nr ite) hanging.bit rfl
  refine ⟨fun other => ?_, fun t other has => ?_, fun other inside => ?_, ?_⟩
  · show s.itb.bitmap other = true ↔ other ∈ (s.itb.rehang index pseudoConflicts).held ∨
      ∃ t, (Function.update s.stage thread (AddStage.note hi nr ite) t).bit = some other
    rw [held, released, Finset.mem_insert, good.marked.bits]
    rcases eq_or_ne other nr with rfl | different
    · exact iff_of_true (Or.inr ⟨thread, hanging.bit⟩) (Or.inl (Or.inl rfl))
    · simp only [different, false_or, ne_eq, not_false_eq_true, true_and]
  · have before := (released other).mp ⟨t, has⟩
    obtain ⟨different, u, mine⟩ := before
    have apart := good.marked.apart u other mine
    refine ⟨?_, apart.2⟩
    show other ∉ (s.itb.rehang index pseudoConflicts).held
    rw [held, Finset.mem_insert]
    exact fun either => either.elim different apart.1
  · have either : other ∈ insert nr s.itb.held := held ▸ inside
    rcases Finset.mem_insert.mp either with rfl | before
    · exact low
    · exact good.marked.bound other before
  · show (s.itb.rehang index pseudoConflicts).held.card =
      (s.itb.rehang index pseudoConflicts).used.card
    rw [held, used, Finset.card_insert_of_notMem outside, Finset.card_insert_of_notMem unused,
      good.marked.distinct]

theorem hook_tallied (now : pseudoConflicts =
      if cell ≥ s.itb.total then s.itb.pseudoConflicts + 1 else s.itb.pseudoConflicts) :
    Tallied ({ s with itb := s.itb.rehang index pseudoConflicts }.go thread (.note hi nr ite)) := by
  obtain ⟨_, _, unused⟩ := good.hook_outside hanging
  have used : (s.itb.rehang index pseudoConflicts).used.card = s.itb.used.card + 1 := by
    rw [hooked.used good.chains, Finset.card_insert_of_notMem unused]
  have spilled : (s.itb.rehang index pseudoConflicts).spilled.card =
      s.itb.spilled.card + (decide (s.itb.total ≤ cell)).toNat := by
    show ((s.itb.rehang index pseudoConflicts).used.filter fun c => s.itb.total ≤ c).card = _
    rw [hooked.used good.chains, Finset.filter_insert]
    split_ifs with high
    · have notSpilled : cell ∉ s.itb.used.filter fun c => s.itb.total ≤ c :=
        fun inside => unused (Finset.mem_filter.mp inside).1
      rw [Finset.card_insert_of_notMem notSpilled, decide_eq_true high]
      rfl
    · rw [decide_eq_false high]
      rfl
  have counts := countAt_update AddStage.counts s.stage thread (.note hi nr ite)
  have reserved := countAt_update AddStage.reserved s.stage thread (.note hi nr ite)
  have lends := countAt_update AddStage.lends s.stage thread (.note hi nr ite)
  rw [hanging.counts] at counts
  rw [hanging.reserved] at reserved
  rw [hanging.lends (good.served thread)] at lends
  obtain ⟨entries, room, itu, conflicts⟩ := good.tallied
  simp only [AddStage.counts, AddStage.reserved, AddStage.lends, Bool.toNat_true,
    Bool.toNat_false] at counts reserved lends
  refine ⟨?_, ?_, ?_, ?_⟩
  · show s.itb.entries = (s.itb.rehang index pseudoConflicts).used.card + _
    rw [used, entries]
    show _ = ((s.itb.used.card + 1 : Nat) : Int) +
      countAt AddStage.counts (Function.update s.stage thread (.note hi nr ite))
    omega
  · show (s.itb.rehang index pseudoConflicts).used.card +
      countAt AddStage.reserved (Function.update s.stage thread (.note hi nr ite)) ≤ s.itb.total
    omega
  · show s.itb.itu = (s.itb.rehang index pseudoConflicts).spilled.card +
      (countAt AddStage.lends (Function.update s.stage thread (.note hi nr ite)) : Int)
    omega
  · show pseudoConflicts = (s.itb.rehang index pseudoConflicts).spilled.card
    rw [spilled, now, conflicts]
    split_ifs with high
    · rw [decide_eq_true high]
      rfl
    · rw [decide_eq_false high]
      rfl

theorem hook_noted : Noted
    ({ s with itb := s.itb.rehang index pseudoConflicts }.go thread (.note hi nr ite)) := by
  have held := hooked.held good.chains
  have noted := exists_go_take AddStage.notes s.stage (.note hi nr ite) hanging.notes rfl
  refine ⟨fun other inside => ?_, good.noted.len.imp_left ?_, fun none => ?_⟩
  · have either : other ∈ insert nr s.itb.held := held ▸ inside
    rcases Finset.mem_insert.mp either with rfl | before
    · exact Or.inr ((noted other).mpr (Or.inl rfl))
    · exact (good.noted.maxOffset other before).imp_right
        fun mine => (noted other).mpr (Or.inr mine)
  · rintro ⟨all, zero⟩
    refine ⟨fun other inside => ?_, zero⟩
    have either : other ∈ insert nr s.itb.held := held ▸ inside
    rcases Finset.mem_insert.mp either with rfl | before
    · exact (noted other).mpr (Or.inl rfl)
    · exact (noted other).mpr (Or.inr (all other before))
  · have used : insert cell s.itb.used = ∅ := (hooked.used good.chains).symm.trans none
    exact absurd used (Finset.insert_ne_empty _ _)

theorem hook_returned : Returned base baseChain
    ({ s with itb := s.itb.rehang index pseudoConflicts }.go thread (.note hi nr ite))
    chainAfter := by
  obtain ⟨_, _, unused⟩ := good.hook_outside hanging
  have holds : ∀ slot other, Holds s.itb chain slot other →
      Holds (s.itb.rehang index pseudoConflicts) chainAfter slot other :=
    fun slot other before => (hooked.holds slot other).mpr (Or.inl before)
  have owns : ∀ other, (∀ t, (s.stage t).owns ≠ some other) →
      ∀ t, (Function.update s.stage thread (AddStage.note hi nr ite) t).owns ≠ some other := by
    intro other nobody t
    have same : (AddStage.note hi nr ite).owns = (s.stage thread).owns := hanging.owns.symm
    exact fun mine => nobody t ((congrFun (holds_same _ s.stage same) t).symm.trans mine)
  refine ⟨good.returned.adepth, fun a member => ?_, good.returned.nodup,
    fun slot other before => ?_, ?_⟩
  · obtain ⟨there, written, fresh, nobody⟩ := good.returned.added a member
    exact ⟨holds _ _ there, written, fresh, owns _ nobody⟩
  · obtain ⟨there, written, nobody, new⟩ := good.returned.kept slot other before
    exact ⟨holds _ _ there, written, owns _ nobody, new⟩
  · have moved := countAt_update AddStage.hangs s.stage thread (.note hi nr ite)
    have grown := good.returned.grown
    rw [hanging.hangs] at moved
    simp only [AddStage.hangs, Bool.toNat_true, Bool.toNat_false] at moved
    show (s.itb.rehang index pseudoConflicts).used.card = base.used.card + s.added.length +
      countAt AddStage.hangs (Function.update s.stage thread (.note hi nr ite))
    rw [hooked.used good.chains, Finset.card_insert_of_notMem unused]
    omega

/-- A thread hangs its entry. -/
theorem Together.hook_kept (now : pseudoConflicts =
      if cell ≥ s.itb.total then s.itb.pseudoConflicts + 1 else s.itb.pseudoConflicts) :
    Together base baseChain
      ({ s with itb := s.itb.rehang index pseudoConflicts }.go thread (.note hi nr ite))
      chainAfter := by
  have free : ∀ other < 2 * s.itb.total, (index other).flag = .free ↔
      (s.itb.index other).flag = .free ∧ other ≠ cell := fun other bound =>
    hooked.free_iff good.chains rfl bound
  have half : ∀ p < s.itb.total, p + s.itb.total < 2 * s.itb.total := fun p bound => by omega
  refine
    { chains := hooked.chains
      marked := hook_marked good hanging hooked
      tallied := hook_tallied good hanging hooked now
      noted := hook_noted good hanging hooked
      returned := hook_returned good hanging hooked
      fresh := good.fresh.mark ?_ ?_ ?_
      owners := good.owners.go_same hanging.owns.symm
      cells := good.cells.go (by rintro _ ⟨⟩)
      locks := good.locks.go fun l has other different => ?_
      spins := good.spins.go (by rintro _ ⟨⟩)
      served := served_go ⟨hanging.prepared (good.served thread), ?_⟩ fun t different => ?_ }
  · exact fun p bound now => ((free _ (half p bound)).mp now).1
  · rintro p ⟨t, has⟩
    have same := holds_update AddStage.cell s.stage thread (.note hi nr ite)
    rcases exists_update.mp ⟨t, (congrFun same t).symm.trans has⟩ with absurdity | ⟨u, _, mine⟩
    · cases absurdity
    · exact ⟨u, mine⟩
  · rintro p bound now ⟨t, has⟩
    have different : t ≠ thread := by
      rintro rfl
      rcases hanging.stage with ⟨at_, _⟩ | at_
      · rw [at_] at has
        cases has
      · rw [at_] at has
        exact ((free _ (half p bound)).mp now).2 (Option.some.inj has).symm
    exact ⟨t, (congrArg AddStage.cell (Function.update_of_ne different _ _)).trans has⟩
  · refine good.locks thread other different.symm l ?_
    show (s.stage thread).request.map (lockOf s.itb) = some l
    rw [hanging.request]
    exact has
  · exact (hooked.holds _ _).mpr (Or.inr ⟨rfl, rfl⟩)
  · exact (good.served t).frame rfl (fun _ => id) (fun _ _ => rfl)
      (fun other bound inUse now => inUse ((free other bound).mp now).1)
      (fun f bound has before => (free f bound).mpr ⟨before, good.hook_other hanging different has⟩)
      (fun _ => rfl) fun slot other before => (hooked.holds slot other).mpr (Or.inl before)

end Hang

omit [DecidableEq Thread] [Fintype Thread] in
theorem Chains.no_overflow {i : Itb} {slot : Nat} (chains : Chains i chain) (bound : slot < i.total)
    (flag : (i.index slot).flag = .overflow) : False := by
  have path := chains.path slot bound (by rw [flag]; rintro ⟨⟩)
  rcases chains.used slot slot path.start_mem with other | other
  · rw [flag] at other
    cases other
  · rw [flag] at other
    cases other

theorem Together.head_kept (good : Together base baseChain s chain)
    (at_ : s.stage thread = .head hi nr ite) : AddKept base baseChain (addNext s thread) := by
  have bound := hashSlot_lt s.itb hi.hash
  have search : (s.itb.index (hashSlot s.itb hi.hash)).flag ≠ .free → addNext s thread =
      (if s.Spinning then none
        else some (s.go thread (.seek hi nr ite s.itb.total s.itb.cursor))) →
      AddKept base baseChain (addNext s thread) := by
    intro used next
    rw [next]
    split_ifs with spinning
    · exact AddKept.none
    · exact AddKept.some (good.head_seek_kept at_ used spinning)
  rcases flag : (s.itb.index (hashSlot s.itb hi.hash)).flag with _ | _ | _ | _
  · -- FREE
    have written : ∀ cell : ItbIndex, Function.update s.itb.index (hashSlot s.itb hi.hash) cell
        (hashSlot s.itb hi.hash) = cell := fun cell => Function.update_self _ _ _
    have total : ∀ index, (s.itb.rehang index s.itb.pseudoConflicts).total = s.itb.total :=
      fun _ => rfl
    have hooked := good.chains.linkHead bound (total (Function.update s.itb.index _
        { s.itb.index (hashSlot s.itb hi.hash) with flag := .unique, entry := nr })) flag
      (fun cell different => Function.update_of_ne different _ _)
      (congrArg ItbIndex.flag (written _)) (congrArg ItbIndex.entry (written _))
    have kept := good.hook_kept ⟨Or.inl ⟨at_, rfl⟩, flag⟩ hooked (if_neg (by omega)).symm
    simp only [addNext, at_, flag]
    exact AddKept.some kept
  · refine search (by rw [flag]; rintro ⟨⟩) ?_
    simp only [addNext, at_, flag]
    rfl
  · refine search (by rw [flag]; rintro ⟨⟩) ?_
    simp only [addNext, at_, flag]
    rfl
  · exact (good.chains.no_overflow bound flag).elim

omit [DecidableEq Thread] [Fintype Thread] in
/-- The head and the cell have the old and the new entry, either way round. -/
theorem Chains.linkCell {i : Itb} (chains : Chains i chain) {slot f : Nat} (bound : slot < i.total)
    (used : (i.index slot).flag ≠ .free) (free : FreeCell i f) (nr : Nat) :
    ∃ index chainAfter, linkCell i slot nr f = i.rehang index (i.pseudoConflicts + 1) ∧
      Hooked i chain slot nr f (i.rehang index (i.pseudoConflicts + 1)) chainAfter := by
  obtain ⟨low, high, free⟩ := free
  have different : f ≠ slot := by omega
  have kept : ∀ cell : ItbIndex, Function.update i.index f cell slot = i.index slot :=
    fun cell => Function.update_of_ne different.symm _ _
  have total : ∀ index, (i.rehang index (i.pseudoConflicts + 1)).total = i.total := fun _ => rfl
  rcases flag : (i.index slot).flag with _ | _ | _ | _
  · exact absurd flag used
  · -- UNIQUE: the cell ends the chain with the new entry
    refine ⟨_, Function.update chain slot (slot :: f :: (chain slot).tail), by
      simp only [Hvfs.linkCell, flag]
      rfl, ?_⟩
    refine chains.linkBehind bound (total _) used low high free rfl rfl rfl flag.symm ?_
      (Or.inl ⟨rfl, rfl⟩)
    rintro ⟨⟩
  · -- CONFLICT: the old head moves into the cell and the new entry takes its place
    refine ⟨_, Function.update chain slot (slot :: f :: (chain slot).tail), by
      simp only [Hvfs.linkCell, flag]
      rfl, ?_⟩
    refine chains.linkBehind bound (total _) used low high free
      (Function.update_comm different _ _ _)
      ?_ rfl rfl (fun _ => rfl) (Or.inr ⟨rfl, rfl⟩)
    exact (congrArg ItbIndex.flag (kept _)).trans flag
  · exact (chains.no_overflow bound flag).elim

theorem Together.link_kept {f : Nat} (good : Together base baseChain s chain)
    (at_ : s.stage thread = .link hi nr ite f) : AddKept base baseChain (addNext s thread) := by
  have served := good.served thread
  rw [at_] at served
  obtain ⟨_, used, free⟩ := served
  obtain ⟨index, chainAfter, written, hooked⟩ :=
    good.chains.linkCell (hashSlot_lt s.itb hi.hash) used free nr
  have kept := good.hook_kept ⟨Or.inr at_, free.free⟩ hooked (if_pos free.low).symm
  simp only [addNext, at_, written]
  exact AddKept.some kept

/-! ### The cell -/

/-- The search is given a free cell, which stays free until it is written. -/
theorem Together.seek_found_kept {left pos : Nat} (good : Together base baseChain s chain)
    (at_ : s.stage thread = .seek hi nr ite (left + 1) pos)
    (free : (s.itb.index (pos + s.itb.total)).flag = .free) :
    AddKept base baseChain (addNext s thread) := by
  have served := good.served thread
  rw [at_] at served
  obtain ⟨prepared, head, sought⟩ := served
  have room := good.free_cell thread (by rw [at_]; rfl) (by rw [at_]; rfl)
    (hashSlot_lt s.itb hi.hash) head
  have here := sought.here.resolve_left (Nat.succ_ne_zero left)
  have passed : ∀ p < s.itb.total, ahead s.itb.total s.itb.cursor p <
      ahead s.itb.total s.itb.cursor pos → ¬(s.itb.index (p + s.itb.total)).flag = .free :=
    fun p bound before => sought.passed p bound (here ▸ before)
  have nobody := good.fresh.not_lent passed room
  have owns : (AddStage.link hi nr ite (pos + s.itb.total)).owns = (s.stage thread).owns := by
    rw [at_]; rfl
  have without : (s.stage thread).cell = none := by rw [at_]; rfl
  have lent := exists_go_take AddStage.cell s.stage (.link hi nr ite (pos + s.itb.total))
    without rfl
  simp only [addNext, at_, if_pos free]
  refine AddKept.some (show Together base baseChain _ chain from
    { chains := good.chains.congr rfl fun _ => ⟨rfl, rfl⟩
      marked := good.marked.same rfl rfl rfl (by rw [at_]; rfl)
      tallied := good.tallied.go rfl rfl (by rw [at_]; rfl) (by
        rw [at_]
        exact Nat.add_le_add_right good.tallied.room 1) (by rw [at_]; exact Int.add_zero _) rfl
      noted := good.noted.same rfl rfl rfl rfl (by rw [at_]; rfl)
      returned := good.returned.same rfl rfl good.chains (fun _ _ _ => rfl)
        (fun _ _ mine => owns ▸ mine) (by rw [at_]; rfl)
      fresh := ?_
      owners := good.owners.go_same owns
      cells := good.cells.go (by
        rintro _ ⟨⟩ other _ has
        exact nobody ⟨other, has⟩)
      locks := good.locks.go (good.lock_kept at_ rfl)
      spins := good.spins.go (by rintro _ ⟨⟩)
      served := served_go ⟨prepared, head, ⟨?_, ?_, free⟩⟩ fun t different => ?_ })
  · have next : Cursor.next s.itb.total pos = if pos + 1 ≥ s.itb.total then 0 else pos + 1 := by
      have := sought.bound
      unfold Cursor.next
      split_ifs <;> omega
    have taken := good.fresh.take s.itb.cursor_lt sought.bound passed
    rw [next] at taken
    refine taken.mark (fun _ _ free => free) (fun p has => ?_) fun p _ _ has => ?_
    · exact ((lent _).mp has).imp_left Nat.add_right_cancel
    · refine (lent _).mpr (has.imp_left ?_)
      rintro rfl
      rfl
  · exact Nat.le_add_left _ _
  · have := sought.bound
    show pos + s.itb.total < 2 * s.itb.total
    omega
  · refine (good.served t).frame rfl (fun _ => id) (fun _ _ => rfl) (fun _ _ => id)
      (fun _ _ _ => id) (fun spins => ?_) fun _ _ => id
    have mine : (s.stage thread).spins = some () := by rw [at_]; rfl
    exact absurd spins (good.spins thread t different.symm () mine)

/-- The search meets a cell that is FREE before it has gone round, and nobody else has it. -/
theorem Together.seek_kept {left pos : Nat} (good : Together base baseChain s chain)
    (at_ : s.stage thread = .seek hi nr ite left pos) :
    AddKept base baseChain (addNext s thread) := by
  cases left with
  | zero =>
    have served := good.served thread
    rw [at_] at served
    obtain ⟨_, head, sought⟩ := served
    obtain ⟨p, bound, free, _⟩ := good.free_cell thread (by rw [at_]; rfl) (by rw [at_]; rfl)
      (hashSlot_lt s.itb hi.hash) head
    exact absurd free (sought.passed p bound (ahead_lt s.itb.cursor_lt bound))
  | succ left =>
    by_cases free : (s.itb.index (pos + s.itb.total)).flag = .free
    · exact good.seek_found_kept at_ free
    · simp only [addNext, at_, if_neg free]
      exact AddKept.some (good.seek_on_kept at_ free)

/-! ### The end -/

theorem notes_owns {stage : AddStage} {nr : Nat} (has : stage.notes = some nr) :
    stage.owns = some nr := by
  cases stage <;> first | exact has | cases has

theorem Together.note_noted (good : Together base baseChain s chain)
    (at_ : s.stage thread = .note hi nr ite) :
    Noted ({ s with itb := noteOffset s.itb nr }.go thread (.fill hi nr ite)) := by
  have served := good.served thread
  rw [at_] at served
  have inside : nr ∈ s.itb.held := good.chains.mem_held.mpr ⟨_, served.2⟩
  have apart : Exclusive fun t => (s.stage t).notes := fun first second different other has also =>
    good.owners first second different other (notes_owns has) (notes_owns also)
  have before : (s.stage thread).notes = some nr := by rw [at_]; rfl
  have released := apart.exists_go_release (.fill hi nr ite) before rfl
  have most : (noteOffset s.itb nr).maxOffset =
      if s.itb.maxOffset ≤ (nr : Int) then (nr : Int) else s.itb.maxOffset := rfl
  refine ⟨fun other held => ?_, ?_, fun none => ?_⟩
  · show (other : Int) ≤ (noteOffset s.itb nr).maxOffset ∨
      ∃ t, (Function.update s.stage thread (AddStage.fill hi nr ite) t).notes = some other
    rw [released, most]
    rcases eq_or_ne other nr with rfl | different
    · left
      split_ifs <;> omega
    · rcases good.noted.maxOffset other held with less | theirs
      · left
        split_ifs <;> omega
      · exact Or.inr ⟨different, theirs⟩
  · right
    show sizeofItb s.itb.adepth + ((noteOffset s.itb nr).maxOffset + 1) * sizeofIte ≤
      (if s.itb.maxOffset ≤ (nr : Int) then sizeofItb s.itb.adepth + ((nr : Int) + 1) * sizeofIte
        else s.itb.len)
    rw [most]
    split_ifs with less
    · exact Int.le_refl _
    · rcases good.noted.len with ⟨_, zero⟩ | long
      · omega
      · exact long
  · have no : s.itb.held = ∅ := Finset.image_eq_empty.mpr none
    rw [no] at inside
    exact absurd inside (Finset.notMem_empty nr)

theorem Together.note_kept (good : Together base baseChain s chain)
    (at_ : s.stage thread = .note hi nr ite) : AddKept base baseChain (addNext s thread) := by
  have served := good.served thread
  rw [at_] at served
  have owns : (AddStage.fill hi nr ite).owns = (s.stage thread).owns := by rw [at_]; rfl
  have cell : (AddStage.fill hi nr ite).cell = (s.stage thread).cell := by rw [at_]; rfl
  simp only [addNext, at_]
  split_ifs with spinning
  · exact AddKept.none
  refine AddKept.some (show Together base baseChain _ chain from
    { chains := good.chains.congr rfl fun _ => ⟨rfl, rfl⟩
      marked := good.marked.same rfl rfl rfl (by rw [at_]; rfl)
      tallied := good.tallied.go rfl rfl (by rw [at_]; rfl) (by
        rw [at_]
        exact good.tallied.room) (by rw [at_]; rfl) rfl
      noted := good.note_noted at_
      returned := good.returned.same rfl rfl good.chains (fun _ _ _ => rfl)
        (fun _ _ mine => owns ▸ mine) (by rw [at_]; rfl)
      fresh := good.fresh.mark (fun _ _ free => free)
        (fun p => (exists_same AddStage.cell s.stage cell _).mp)
        fun p _ _ => (exists_same AddStage.cell s.stage cell _).mpr
      owners := good.owners.go_same owns
      cells := good.cells.go_same cell
      locks := good.locks.go (good.lock_kept at_ rfl)
      spins := good.spins.go (by rintro _ ⟨⟩)
      served := served_go served fun t _ => (good.served t).frame rfl (fun _ => id) (fun _ _ => rfl)
        (fun _ _ => id) (fun _ _ _ => id) (fun _ => rfl) fun _ _ => id })

theorem Together.fill_returned (good : Together base baseChain s chain)
    (at_ : s.stage thread = .fill hi nr ite) :
    Returned base baseChain
      ({ s with
        itb := s.itb.setIte nr (iteCreate hi ite)
        added := s.added ++ [AddedIte.mk hi nr ite] }.go thread (.done hi 0)) chain := by
  have served := good.served thread
  rw [at_] at served
  have mine : (s.stage thread).owns = some nr := by rw [at_]; rfl
  have elsewhere : ∀ other, (∀ t, (s.stage t).owns ≠ some other) → other ≠ nr ∧
      (s.itb.setIte nr (iteCreate hi ite)).ite other = s.itb.ite other := by
    intro other nobody
    have different : other ≠ nr := fun same => nobody thread (same ▸ mine)
    exact ⟨different, Function.update_of_ne different _ _⟩
  have released := good.owners.exists_go_release (.done hi 0) mine rfl
  have owns : ∀ other, (∀ t, (s.stage t).owns ≠ some other) →
      ∀ t, (Function.update s.stage thread (AddStage.done hi 0) t).owns ≠ some other := by
    intro other nobody t has
    obtain ⟨_, u, theirs⟩ := (released other).mp ⟨t, has⟩
    exact nobody u theirs
  refine ⟨good.returned.adepth, fun a member => ?_, ?_, fun slot other before => ?_, ?_⟩
  · rcases List.mem_append.mp member with before | new
    · obtain ⟨there, written, fresh, nobody⟩ := good.returned.added a before
      exact ⟨there, (elsewhere _ nobody).2.trans written, fresh, owns _ nobody⟩
    · obtain rfl := List.mem_singleton.mp new
      refine ⟨served.2, Function.update_self nr _ s.itb.ite, served.1.2, fun t has => ?_⟩
      exact ((released nr).mp ⟨t, has⟩).1 rfl
  · have apart : nr ∉ s.added.map AddedIte.nr := by
      intro inside
      obtain ⟨a, before, same⟩ := List.mem_map.mp inside
      exact (elsewhere _ (good.returned.added a before).2.2.2).1 same
    show ((s.added ++ [AddedIte.mk hi nr ite]).map AddedIte.nr).Nodup
    rw [List.map_append, List.map_singleton, ← List.concat_eq_append]
    exact good.returned.nodup.concat apart
  · obtain ⟨there, written, nobody, new⟩ := good.returned.kept slot other before
    refine ⟨there, (elsewhere _ nobody).2.trans written, owns _ nobody, ?_⟩
    show other ∉ (s.added ++ [AddedIte.mk hi nr ite]).map AddedIte.nr
    rw [List.map_append, List.mem_append, not_or]
    exact ⟨new, fun same => (elsewhere _ nobody).1 (List.mem_singleton.mp same)⟩
  · have moved := countAt_update AddStage.hangs s.stage thread (.done hi 0)
    have grown := good.returned.grown
    rw [at_] at moved
    simp only [AddStage.hangs, Bool.toNat_true, Bool.toNat_false] at moved
    show s.itb.used.card = base.used.card + (s.added ++ [AddedIte.mk hi nr ite]).length +
      countAt AddStage.hangs (Function.update s.stage thread (.done hi 0))
    rw [List.length_append, List.length_singleton]
    omega

theorem Together.fill_kept (good : Together base baseChain s chain)
    (at_ : s.stage thread = .fill hi nr ite) : AddKept base baseChain (addNext s thread) := by
  have mine : (s.stage thread).owns = some nr := by rw [at_]; rfl
  have cell : (AddStage.done hi 0).cell = (s.stage thread).cell := by rw [at_]; rfl
  simp only [addNext, at_]
  refine AddKept.some (show Together base baseChain _ chain from
    { chains := good.chains.congr rfl fun _ => ⟨rfl, rfl⟩
      marked := good.marked.same rfl rfl rfl (by rw [at_]; rfl)
      tallied := good.tallied.go rfl rfl (by rw [at_]; rfl) (by
        rw [at_]
        exact good.tallied.room) (by rw [at_]; rfl) rfl
      noted := good.noted.same rfl rfl rfl rfl (by rw [at_]; rfl)
      returned := good.fill_returned at_
      fresh := good.fresh.mark (fun _ _ free => free)
        (fun p => (exists_same AddStage.cell s.stage cell _).mp)
        fun p _ _ => (exists_same AddStage.cell s.stage cell _).mpr
      owners := good.owners.go (by rintro _ ⟨⟩)
      cells := good.cells.go_same cell
      locks := good.locks.go (good.lock_kept at_ rfl)
      spins := good.spins.go (by rintro _ ⟨⟩)
      served := served_go (Or.inl rfl) fun t different => (good.served t).frame rfl (fun _ => id)
        (fun other theirs => ?_) (fun _ _ => id) (fun _ _ _ => id) (fun _ => rfl) fun _ _ => id })
  refine Function.update_of_ne ?_ _ _
  rintro rfl
  exact good.owners thread t different.symm _ mine theirs

/-! ### Any step -/

/-- A step of the system keeps the invariant. -/
theorem Together.step (good : Together base baseChain s chain) (move : Thread × AddAction) :
    AddKept base baseChain (addThreadStep s move) := by
  obtain ⟨thread, ⟨hi, fits⟩ | _⟩ := move
  · simp only [addThreadStep]
    cases at_ : s.stage thread with
    | idle =>
      dsimp only
      split_ifs with locked
      · exact AddKept.none
      · exact AddKept.some (good.begin_kept hi at_ locked)
    | _ => exact AddKept.none
  · show AddKept base baseChain (addNext s thread)
    cases at_ : s.stage thread with
    | idle =>
      simp only [addNext, at_]
      exact AddKept.none
    | enter hi => exact good.enter_kept at_
    | full hi => exact good.full_kept at_
    | scan hi n => exact good.scan_kept at_
    | test hi nr => exact good.test_kept at_
    | noBit hi =>
      have served := good.served thread
      rw [at_] at served
      exact served.elim
    | took hi nr => exact good.took_kept at_
    | head hi nr ite => exact good.head_kept at_
    | seek hi nr ite left pos => exact good.seek_kept at_
    | link hi nr ite f => exact good.link_kept at_
    | note hi nr ite => exact good.note_kept at_
    | fill hi nr ite => exact good.fill_kept at_
    | done hi err => exact good.done_kept at_

end Steps

end Hvfs
