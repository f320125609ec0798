/-
This file develops a cursor that goes round a circle of slots to find free ones.

A slot that is handed out still looks free until its new owner marks it, so a
second search may come across it. As long as slots are only taken and marked,
every free slot that nobody has been given comes before those that are only
lent, and a search that meets the first free slot never hands one out twice.
-/

import Mathlib.Tactic.Common

namespace Cursor

/-! ### Distances -/

/-- How far a slot is ahead of the cursor. -/
def ahead (size cursor slot : Nat) : Nat :=
  if cursor ≤ slot then slot - cursor else slot + size - cursor

/-- The slot behind another one on the circle. -/
def next (size slot : Nat) : Nat := if slot + 1 = size then 0 else slot + 1

section Distances

variable {size cursor slot other : Nat}

theorem ahead_self : ahead size cursor cursor = 0 := by
  rw [ahead, if_pos (Nat.le_refl cursor), Nat.sub_self]

theorem ahead_lt (below : cursor < size) (bound : slot < size) :
    ahead size cursor slot < size := by
  unfold ahead
  split_ifs <;> omega

theorem next_lt (bound : slot < size) : next size slot < size := by
  unfold next
  split_ifs <;> omega

theorem ahead_inj (below : cursor < size) (bound : slot < size) (boundOther : other < size)
    (same : ahead size cursor slot = ahead size cursor other) : slot = other := by
  unfold ahead at same
  split_ifs at same <;> omega

/-- One slot further, unless the circle is closed. -/
theorem ahead_next (below : cursor < size)
    (more : ahead size cursor slot + 1 < size) :
    ahead size cursor (next size slot) = ahead size cursor slot + 1 := by
  unfold ahead next at *
  split_ifs at * <;> omega

/-- After a slot is taken the others are that much closer, and the slot is the last. -/
theorem ahead_past (below : cursor < size) (bound : slot < size) (boundOther : other < size)
    (later : ahead size cursor slot < ahead size cursor other) :
    ahead size (next size slot) other + (ahead size cursor slot + 1) = ahead size cursor other := by
  unfold ahead next at *
  split_ifs at * <;> omega

theorem ahead_taken (bound : slot < size) : ahead size (next size slot) slot + 1 = size := by
  unfold ahead next
  split_ifs <;> omega

end Distances

/-! ### Lending slots -/

/-- Every free slot that is not lent comes before those that are. -/
structure Fresh (size cursor : Nat) (free lent : Nat → Prop) : Prop where
  bound : ∀ slot, lent slot → slot < size
  first : ∀ slot other, slot < size → free slot → ¬lent slot → lent other →
    ahead size cursor slot < ahead size cursor other

section Lending

variable {size cursor slot : Nat} {free lent : Nat → Prop}

/-- Nothing is lent at the start. -/
theorem Fresh.start (size cursor : Nat) (free : Nat → Prop) :
    Fresh size cursor free fun _ => False :=
  ⟨fun _ => False.elim, fun _ _ _ _ _ => False.elim⟩

/-- The first free slot is nobody's, as long as there is one that is not lent. -/
theorem Fresh.not_lent (fresh : Fresh size cursor free lent)
    (passed : ∀ other < size, ahead size cursor other < ahead size cursor slot → ¬free other)
    (room : ∃ other < size, free other ∧ ¬lent other) : ¬lent slot := by
  intro taken
  obtain ⟨other, bound, isFree, mine⟩ := room
  exact passed other bound (fresh.first other slot bound isFree mine taken) isFree

/-- The first free slot is lent, and the cursor goes behind it. -/
theorem Fresh.take (fresh : Fresh size cursor free lent) (below : cursor < size)
    (bound : slot < size)
    (passed : ∀ other < size, ahead size cursor other < ahead size cursor slot → ¬free other) :
    Fresh size (next size slot) free fun other => other = slot ∨ lent other where
  bound := by
    rintro other (rfl | taken)
    · exact bound
    · exact fresh.bound other taken
  first := by
    intro other third boundOther isFree mine taken
    obtain ⟨different, notLent⟩ := not_or.mp mine
    -- the slots in front of the one that is taken are not free
    have later : ∀ x < size, free x → x ≠ slot →
        ahead size cursor slot < ahead size cursor x := by
      intro x boundX freeX apart
      rcases Nat.lt_trichotomy (ahead size cursor x)
        (ahead size cursor slot) with less | same | more
      · exact absurd freeX (passed x boundX less)
      · exact absurd (ahead_inj below boundX bound same) apart
      · exact more
    have here := later other boundOther isFree different
    have closer := ahead_past below bound boundOther here
    rcases taken with rfl | taken
    · have last := ahead_taken bound
      have inside := ahead_lt below boundOther
      omega
    · have order := fresh.first other third boundOther isFree notLent taken
      have boundThird := fresh.bound third taken
      have closerThird := ahead_past below bound boundThird (Nat.lt_trans here order)
      omega

/-- Slots may stop being free, and lent ones are marked first. -/
theorem Fresh.mark (fresh : Fresh size cursor free lent) {freeNow lentNow : Nat → Prop}
    (stillFree : ∀ slot < size, freeNow slot → free slot)
    (stillLent : ∀ slot, lentNow slot → lent slot)
    (marked : ∀ slot < size, freeNow slot → lent slot → lentNow slot) :
    Fresh size cursor freeNow lentNow where
  bound slot taken := fresh.bound slot (stillLent slot taken)
  first slot other bound isFree mine taken :=
    fresh.first slot other bound (stillFree slot bound isFree)
      (fun lentBefore => mine (marked slot bound isFree lentBefore)) (stillLent other taken)

end Lending

end Cursor
