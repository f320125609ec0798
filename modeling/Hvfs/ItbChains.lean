/-
This file proves the shape of the index of a block: each head that is not FREE
starts a chain, the chains are disjoint, and together they use every cell of
the second half that is not FREE.

The chains are a ghost table of cell lists. Every function that writes the
index changes the list of one head at most, so one theorem, `Chains.update`,
carries the other heads over, and each of the write patterns only has to say
what its own list becomes.
-/

import Hvfs.Itb
import Hvfs.Library.Path

namespace Hvfs

/-! ### What the writers change -/

section Writers

variable (i : Itb) (cell prev nr : Nat)

@[simp] theorem setIndex_index (value : ItbIndex) :
    (i.setIndex cell value).index = Function.update i.index cell value := rfl

@[simp] theorem setIndex_bitmap (value : ItbIndex) : (i.setIndex cell value).bitmap = i.bitmap :=
  rfl

@[simp] theorem setIndex_total (value : ItbIndex) : (i.setIndex cell value).total = i.total := rfl

@[simp] theorem setBit_index (value : Bool) : (i.setBit nr value).index = i.index := rfl

@[simp] theorem setBit_bitmap (value : Bool) :
    (i.setBit nr value).bitmap = Function.update i.bitmap nr value := rfl

@[simp] theorem setBit_total (value : Bool) : (i.setBit nr value).total = i.total := rfl

@[simp] theorem setIte_index (value : Ite) : (i.setIte nr value).index = i.index := rfl

@[simp] theorem setIte_bitmap (value : Ite) : (i.setIte nr value).bitmap = i.bitmap := rfl

@[simp] theorem setIte_total (value : Ite) : (i.setIte nr value).total = i.total := rfl

@[simp] theorem setIte_ite (value : Ite) :
    (i.setIte nr value).ite = Function.update i.ite nr value := rfl

@[simp] theorem iteUnlinkInternal_index :
    (iteUnlinkInternal i cell).index =
      Function.update i.index cell { i.index cell with flag := .free } := rfl

@[simp] theorem iteUnlinkInternal_total : (iteUnlinkInternal i cell).total = i.total := rfl

@[simp] theorem iteUnlinkInternal_ite : (iteUnlinkInternal i cell).ite = i.ite := rfl

end Writers

/-! ### Chains -/

/-- The cell behind a cell on its chain. -/
def Itb.next (i : Itb) (cell : Nat) : Option Nat :=
  match (i.index cell).flag with
  | .conflict => some (i.index cell).conflict
  | _ => none

theorem next_of_conflict {i : Itb} {cell : Nat} (flag : (i.index cell).flag = .conflict) :
    i.next cell = some (i.index cell).conflict := by
  unfold Itb.next
  rw [flag]

theorem next_of_unique {i : Itb} {cell : Nat} (flag : (i.index cell).flag = .unique) :
    i.next cell = none := by
  unfold Itb.next
  rw [flag]

/-- A write of the index that leaves the place of a cell on its chain alone. -/
def SameLink (i after : Itb) (cell : Nat) : Prop :=
  (after.index cell).flag = (i.index cell).flag ∧
    (after.index cell).conflict = (i.index cell).conflict

theorem SameLink.of_eq {i after : Itb} {cell : Nat} (same : after.index cell = i.index cell) :
    SameLink i after cell := by
  unfold SameLink
  rw [same]
  exact ⟨rfl, rfl⟩

theorem SameLink.next {i after : Itb} {cell : Nat} (same : SameLink i after cell) :
    after.next cell = i.next cell := by
  unfold Itb.next
  rw [same.1, same.2]

/-- The chains of the index: `chain slot` lists the cells of the chain of a head, from the head
on. -/
structure Chains (i : Itb) (chain : Nat → List Nat) : Prop where
  empty : ∀ slot, (slot < i.total → (i.index slot).flag = .free) → chain slot = []
  path : ∀ slot, slot < i.total → (i.index slot).flag ≠ .free → CellPath i.next slot (chain slot)
  used : ∀ slot, ∀ cell ∈ chain slot,
    (i.index cell).flag = .unique ∨ (i.index cell).flag = .conflict
  spill : ∀ slot, ∀ cell ∈ (chain slot).tail, i.total ≤ cell ∧ cell < 2 * i.total
  disjoint : ∀ first second cell, cell ∈ chain first → cell ∈ chain second → first = second
  cover : ∀ cell, i.total ≤ cell → cell < 2 * i.total → (i.index cell).flag ≠ .free →
    ∃ slot, cell ∈ chain slot

namespace Chains

variable {i after : Itb} {chain : Nat → List Nat} {slot cell : Nat}

theorem used_ne_free (chains : Chains i chain) (member : cell ∈ chain slot) :
    (i.index cell).flag ≠ .free := by
  rcases chains.used slot cell member with flag | flag <;> rw [flag] <;> decide

theorem head_of_mem (chains : Chains i chain) (member : cell ∈ chain slot) :
    slot < i.total ∧ (i.index slot).flag ≠ .free := by
  by_contra none
  rw [chains.empty slot fun bound => by
    by_contra flag
    exact none ⟨bound, flag⟩] at member
  cases member

/-- The heads that are not FREE are those with a chain. -/
theorem ne_nil_iff (chains : Chains i chain) (bound : slot < i.total) :
    chain slot ≠ [] ↔ (i.index slot).flag ≠ .free := by
  constructor
  · intro some free
    exact some (chains.empty slot fun _ => free)
  · intro notFree
    exact List.ne_nil_of_mem (chains.path slot bound notFree).start_mem

theorem path_of_mem (chains : Chains i chain) (member : cell ∈ chain slot) :
    CellPath i.next slot (chain slot) :=
  chains.path slot (chains.head_of_mem member).1 (chains.head_of_mem member).2

/-- A chain that is not empty starts at its head. -/
theorem exists_tail (chains : Chains i chain) (member : cell ∈ chain slot) :
    ∃ rest, chain slot = slot :: rest :=
  (chains.path_of_mem member).exists_tail

theorem mem_head_or_spill (chains : Chains i chain) (member : cell ∈ chain slot) :
    cell = slot ∨ (i.total ≤ cell ∧ cell < 2 * i.total) := by
  obtain ⟨rest, shape⟩ := chains.exists_tail member
  rw [shape] at member
  rcases List.mem_cons.mp member with rfl | later
  · exact Or.inl rfl
  · exact Or.inr (chains.spill slot cell (by rw [shape]; exact later))

theorem lt_of_mem (chains : Chains i chain) (member : cell ∈ chain slot) :
    cell < 2 * i.total := by
  have head := (chains.head_of_mem member).1
  rcases chains.mem_head_or_spill member with rfl | inside
  · omega
  · exact inside.2

/-- A head is on no chain but its own. -/
theorem eq_of_mem_of_lt (chains : Chains i chain) (member : cell ∈ chain slot)
    (low : cell < i.total) : cell = slot := by
  rcases chains.mem_head_or_spill member with same | inside
  · exact same
  · omega

/-- The cells in use are the cells of the chains. -/
theorem exists_mem (chains : Chains i chain) (bound : cell < 2 * i.total)
    (flag : (i.index cell).flag ≠ .free) : ∃ slot, cell ∈ chain slot := by
  by_cases low : cell < i.total
  · exact ⟨cell, (chains.path cell low flag).start_mem⟩
  · exact chains.cover cell (by omega) bound flag

theorem nodup (chains : Chains i chain) (slot : Nat) : (chain slot).Nodup := by
  rcases shape : chain slot with _ | ⟨head, rest⟩
  · exact List.nodup_nil
  · have member : head ∈ chain slot := by
      rw [shape]
      exact List.mem_cons_self
    rw [← shape]
    exact (chains.path_of_mem member).nodup

/-- The one rule behind every change of the index: the list of one head changes, the cells that
join it were FREE, the cells that leave it are FREE now, and no other cell moves. -/
theorem update (chains : Chains i chain) (bound : slot < i.total)
    (sameTotal : after.total = i.total) {cells : List Nat}
    (others : ∀ cell, cell ∉ chain slot → cell ∉ cells → SameLink i after cell)
    (ended : cells = [] → (after.index slot).flag = .free)
    (linked : cells ≠ [] → CellPath after.next slot cells)
    (usedNow : ∀ cell ∈ cells,
      (after.index cell).flag = .unique ∨ (after.index cell).flag = .conflict)
    (spillNow : ∀ cell ∈ cells.tail, i.total ≤ cell ∧ cell < 2 * i.total)
    (joined : ∀ cell ∈ cells, cell ∉ chain slot → (i.index cell).flag = .free)
    (left : ∀ cell ∈ chain slot, cell ∉ cells → (after.index cell).flag = .free) :
    Chains after (Function.update chain slot cells) := by
  have apart : ∀ other cell, other ≠ slot → cell ∈ chain other →
      cell ∉ chain slot ∧ cell ∉ cells := by
    intro other cell different member
    have outside : cell ∉ chain slot := fun again =>
      different (chains.disjoint other slot cell member again)
    exact ⟨outside, fun inside => chains.used_ne_free member (joined cell inside outside)⟩
  have headApart : ∀ other, other ≠ slot → other < i.total → SameLink i after other := by
    intro other different low
    refine others other (fun member => different (chains.eq_of_mem_of_lt member low)) ?_
    intro member
    obtain ⟨rest, rfl⟩ := (linked (List.ne_nil_of_mem member)).exists_tail
    rcases List.mem_cons.mp member with same | later
    · exact different same
    · have := (spillNow other later).1
      omega
  refine ⟨?_, ?_, ?_, ?_, ?_, ?_⟩
  · intro other flag
    rw [sameTotal] at flag
    rcases eq_or_ne other slot with rfl | different
    · rw [Function.update_self]
      by_contra some
      have start := usedNow _ (linked some).start_mem
      rw [flag bound] at start
      rcases start with start | start <;> cases start
    · rw [Function.update_of_ne different]
      refine chains.empty other fun low => ?_
      rw [← (headApart other different low).1]
      exact flag low
  · intro other low flag
    rw [sameTotal] at low
    rcases eq_or_ne other slot with rfl | different
    · rw [Function.update_self]
      exact linked fun none => flag (ended none)
    · rw [Function.update_of_ne different]
      rw [(headApart other different low).1] at flag
      refine (chains.path other low flag).congr fun cell member => ?_
      obtain ⟨outside, outsideNow⟩ := apart other cell different member
      exact (others cell outside outsideNow).next
  · intro other cell member
    rcases eq_or_ne other slot with rfl | different
    · rw [Function.update_self] at member
      exact usedNow cell member
    · rw [Function.update_of_ne different] at member
      obtain ⟨outside, outsideNow⟩ := apart other cell different member
      rw [(others cell outside outsideNow).1]
      exact chains.used other cell member
  · intro other cell member
    rw [sameTotal]
    rcases eq_or_ne other slot with rfl | different
    · rw [Function.update_self] at member
      exact spillNow cell member
    · rw [Function.update_of_ne different] at member
      exact chains.spill other cell member
  · intro first second cell memberFirst memberSecond
    rcases eq_or_ne first slot with rfl | differentFirst <;>
      rcases eq_or_ne second first with rfl | different
    · rfl
    · rw [Function.update_self] at memberFirst
      rw [Function.update_of_ne different] at memberSecond
      exact absurd memberFirst (apart second cell different memberSecond).2
    · rfl
    · rw [Function.update_of_ne differentFirst] at memberFirst
      rcases eq_or_ne second slot with rfl | differentSecond
      · rw [Function.update_self] at memberSecond
        exact absurd memberSecond (apart first cell differentFirst memberFirst).2
      · rw [Function.update_of_ne differentSecond] at memberSecond
        exact chains.disjoint first second cell memberFirst memberSecond
  · intro cell low high flag
    rw [sameTotal] at low high
    by_cases inside : cell ∈ cells
    · exact ⟨slot, by rw [Function.update_self]; exact inside⟩
    · have outside : cell ∉ chain slot := fun member => flag (left cell member inside)
      rw [(others cell outside inside).1] at flag
      obtain ⟨other, member⟩ := chains.cover cell low high flag
      have different : other ≠ slot := by
        rintro rfl
        exact outside member
      exact ⟨other, by rw [Function.update_of_ne different]; exact member⟩

/-- A write that moves no cell leaves the chains as they are. -/
theorem congr (chains : Chains i chain) (sameTotal : after.total = i.total)
    (same : ∀ cell, SameLink i after cell) : Chains after chain where
  empty slot flag := chains.empty slot fun bound => by
    rw [← (same slot).1]
    exact flag (sameTotal ▸ bound)
  path slot bound flag := by
    rw [(same slot).1] at flag
    exact (chains.path slot (sameTotal ▸ bound) flag).congr fun cell _ => (same cell).next
  used slot cell member := by
    rw [(same cell).1]
    exact chains.used slot cell member
  spill slot cell member := sameTotal ▸ chains.spill slot cell member
  disjoint := chains.disjoint
  cover cell low high flag :=
    chains.cover cell (sameTotal ▸ low) (sameTotal ▸ high) ((same cell).1 ▸ flag)

/-! ### The write patterns -/

/-- The first entry of a FREE head. -/
theorem addHead (chains : Chains i chain) (bound : slot < i.total)
    (sameTotal : after.total = i.total) (free : (i.index slot).flag = .free)
    (others : ∀ cell, cell ≠ slot → after.index cell = i.index cell)
    (unique : (after.index slot).flag = .unique) :
    Chains after (Function.update chain slot [slot]) := by
  have none : chain slot = [] := chains.empty slot fun _ => free
  refine chains.update bound sameTotal ?_ ?_ ?_ ?_ ?_ ?_ ?_
  · intro cell _ outside
    exact .of_eq (others cell fun same => outside (same ▸ List.mem_singleton_self slot))
  · exact fun absurdity => absurd absurdity (List.cons_ne_nil _ _)
  · exact fun _ => .last (next_of_unique unique)
  · intro cell member
    rw [List.mem_singleton.mp member]
    exact Or.inl unique
  · intro cell member
    cases member
  · intro cell member _
    rw [List.mem_singleton.mp member]
    exact free
  · intro cell member _
    rw [none] at member
    cases member

/-- A further entry: a FREE cell of the second half goes in behind the head. -/
theorem insertBehind (chains : Chains i chain) (bound : slot < i.total)
    (sameTotal : after.total = i.total) (used : (i.index slot).flag ≠ .free) {fresh : Nat}
    (low : i.total ≤ fresh) (high : fresh < 2 * i.total) (free : (i.index fresh).flag = .free)
    (others : ∀ cell, cell ≠ slot → cell ≠ fresh → after.index cell = i.index cell)
    (head : (after.index slot).flag = .conflict) (linked : (after.index slot).conflict = fresh)
    (second : (after.index fresh).flag = .unique ∨ (after.index fresh).flag = .conflict)
    (taken : after.next fresh = i.next slot) :
    Chains after (Function.update chain slot (slot :: fresh :: (chain slot).tail)) := by
  have path := chains.path slot bound used
  obtain ⟨rest, shape⟩ := path.exists_tail
  have restOf : ∀ cell ∈ rest, cell ≠ slot ∧ cell ≠ fresh ∧ cell ∈ chain slot := by
    intro cell later
    have member : cell ∈ chain slot := by
      rw [shape]
      exact List.mem_cons_of_mem _ later
    refine ⟨?_, ?_, member⟩
    · rintro rfl
      have nodup := chains.nodup cell
      rw [shape] at nodup
      exact (List.nodup_cons.mp nodup).1 later
    · rintro rfl
      exact chains.used_ne_free member free
  rw [shape, List.tail_cons]
  refine chains.update bound sameTotal ?_ ?_ ?_ ?_ ?_ ?_ ?_
  · intro cell _ outside
    simp only [List.mem_cons, not_or] at outside
    exact .of_eq (others cell outside.1 outside.2.1)
  · exact fun absurdity => absurd absurdity (List.cons_ne_nil _ _)
  · intro _
    rw [shape] at path
    refine path.insertAfterHead ?_ taken ?_
    · rw [next_of_conflict head, linked]
    · intro cell later
      exact (SameLink.of_eq (others cell (restOf cell later).1 (restOf cell later).2.1)).next
  · intro cell member
    rcases List.mem_cons.mp member with rfl | member
    · exact Or.inr head
    rcases List.mem_cons.mp member with rfl | later
    · exact second
    · rw [others cell (restOf cell later).1 (restOf cell later).2.1]
      exact chains.used slot cell (restOf cell later).2.2
  · intro cell member
    rcases List.mem_cons.mp member with rfl | later
    · exact ⟨low, high⟩
    · exact chains.spill slot cell (by rw [shape]; exact later)
  · intro cell member outside
    rw [shape] at outside
    rcases List.mem_cons.mp member with rfl | member
    · exact absurd List.mem_cons_self outside
    rcases List.mem_cons.mp member with rfl | later
    · exact free
    · exact absurd (List.mem_cons_of_mem _ later) outside
  · intro cell member outside
    rw [shape] at member
    rcases List.mem_cons.mp member with rfl | later
    · exact absurd List.mem_cons_self outside
    · exact absurd (List.mem_cons_of_mem _ (List.mem_cons_of_mem _ later)) outside

/-- The cell behind `prev` leaves its chain. -/
theorem removeBehind (chains : Chains i chain) (sameTotal : after.total = i.total)
    {front rest : List Nat} {prev victim : Nat}
    (shape : chain slot = front ++ prev :: victim :: rest)
    (others : ∀ cell, cell ≠ prev → cell ≠ victim → after.index cell = i.index cell)
    (free : (after.index victim).flag = .free)
    (kept : (after.index prev).flag = .unique ∨ (after.index prev).flag = .conflict)
    (taken : after.next prev = i.next victim) :
    Chains after (Function.update chain slot (front ++ prev :: rest)) := by
  have memberVictim : victim ∈ chain slot := by
    rw [shape]
    simp
  have nodup : (prev :: victim :: (front ++ rest)).Nodup := by
    have order : (front ++ prev :: victim :: rest).Perm (prev :: victim :: (front ++ rest)) :=
      List.perm_middle.trans (List.perm_middle.cons prev)
    rw [← order.nodup_iff, ← shape]
    exact chains.nodup slot
  obtain ⟨outsidePrev, nodup⟩ := List.nodup_cons.mp nodup
  obtain ⟨outsideVictim, _⟩ := List.nodup_cons.mp nodup
  have differentPrev : prev ≠ victim := fun same => outsidePrev (same ▸ List.mem_cons_self)
  have different : ∀ cell ∈ front ++ rest, cell ≠ prev ∧ cell ≠ victim := by
    intro cell member
    constructor
    · rintro rfl
      exact outsidePrev (List.mem_cons_of_mem _ member)
    · rintro rfl
      exact outsideVictim member
  have same : ∀ cell ∈ front ++ rest, after.index cell = i.index cell := fun cell member =>
    others cell (different cell member).1 (different cell member).2
  have mem_split : ∀ cell, cell ∈ front ++ prev :: rest ↔ cell = prev ∨ cell ∈ front ++ rest := by
    intro cell
    rw [List.mem_append, List.mem_cons, List.mem_append]
    exact or_left_comm
  have inChain : ∀ cell ∈ front ++ rest, cell ∈ chain slot := by
    intro cell member
    rw [shape]
    rcases List.mem_append.mp member with early | late
    · exact List.mem_append_left _ early
    · exact List.mem_append_right _ (List.mem_cons_of_mem _ (List.mem_cons_of_mem _ late))
  refine chains.update (chains.head_of_mem memberVictim).1 sameTotal ?_ ?_ ?_ ?_ ?_ ?_ ?_
  · intro cell outside _
    rw [shape] at outside
    simp only [List.mem_append, List.mem_cons, not_or] at outside
    exact .of_eq (others cell outside.2.1 outside.2.2.1)
  · exact fun absurdity => absurd absurdity (by simp)
  · intro _
    have path := chains.path_of_mem memberVictim
    rw [shape] at path
    exact path.removeNext taken fun cell member => (SameLink.of_eq (same cell member)).next
  · intro cell member
    rcases (mem_split cell).mp member with rfl | member
    · exact kept
    · rw [same cell member]
      exact chains.used slot cell (inChain cell member)
  · intro cell member
    refine chains.spill slot cell ?_
    rw [shape]
    cases front with
    | nil => exact List.mem_cons_of_mem _ member
    | cons head front =>
      rw [List.cons_append, List.tail_cons] at member ⊢
      rcases List.mem_append.mp member with early | late
      · exact List.mem_append_left _ early
      · refine List.mem_append_right _ ?_
        rcases List.mem_cons.mp late with rfl | late
        · exact List.mem_cons_self
        · exact List.mem_cons_of_mem _ (List.mem_cons_of_mem _ late)
  · intro cell member outside
    refine absurd ?_ outside
    rcases (mem_split cell).mp member with rfl | member
    · rw [shape]
      simp
    · exact inChain cell member
  · intro cell member outside
    rw [shape] at member
    rw [mem_split] at outside
    rcases List.mem_append.mp member with early | late
    · exact absurd (Or.inr (List.mem_append_left _ early)) outside
    rcases List.mem_cons.mp late with rfl | late
    · exact absurd (Or.inl rfl) outside
    rcases List.mem_cons.mp late with rfl | late
    · exact free
    · exact absurd (Or.inr (List.mem_append_right _ late)) outside

/-- The only entry of a head leaves. -/
theorem removeSole (chains : Chains i chain) (sameTotal : after.total = i.total)
    (shape : chain slot = [slot])
    (others : ∀ cell, cell ≠ slot → after.index cell = i.index cell)
    (free : (after.index slot).flag = .free) : Chains after (Function.update chain slot []) := by
  have member : slot ∈ chain slot := by
    rw [shape]
    exact List.mem_cons_self
  refine chains.update (chains.head_of_mem member).1 sameTotal ?_ ?_ ?_ ?_ ?_ ?_ ?_
  · intro cell outside _
    rw [shape] at outside
    exact .of_eq (others cell fun same => outside (same ▸ List.mem_singleton_self slot))
  · exact fun _ => free
  · exact fun absurdity => absurd rfl absurdity
  · intro cell member
    cases member
  · intro cell member
    cases member
  · intro cell member
    cases member
  · intro cell member _
    rw [shape] at member
    rw [List.mem_singleton.mp member]
    exact free

end Chains

end Hvfs
