/-
This file determines when a failed `ring_add_point` leaves the ring as it was.

The function assigns the answer of `xrealloc` to `r->array` before it looks at it,
so a failure takes the array away from a ring that still counts its points.
-/

import Hvfs.ChRing

namespace Hvfs

/-! ### A ring with its array in memory -/

/-- `struct chring`. `array` points to the `used` elements, or is null. -/
structure ChringMemory where
  alloc : Nat
  used : Nat
  group : U32
  array : Option (List Chp)
  deriving DecidableEq, Repr

/-- What `xrealloc` returns: null, or more memory; `fresh` is what stands there when there was no
array to copy. -/
inductive ReallocAnswer
  | failed
  | grown (fresh : Nat → Chp)

/-- `xrealloc` of the array. -/
def xrealloc (r : ChringMemory) : ReallocAnswer → Option (List Chp)
  | .failed => none
  | .grown fresh => some (r.array.getD ((List.range r.used).map fresh))

/-- The beginning of `ring_add_point`, which makes room for one more element; an error is -ENOMEM
with what the ring is then. -/
def ringMakeRoom (answer : ReallocAnswer) (r : ChringMemory) : Except ChringMemory ChringMemory :=
  if r.alloc ≤ r.used then
    match xrealloc r answer with
    | none => .error { r with array := none }
    | some array =>
      .ok { r with
        array := some array
        alloc := (r.alloc + RING_ALLOC_FACTOR) % 2 ^ 32 }
  else .ok r

/-- The end of `ring_add_point`. `none` is the assertion, or a write through the null pointer. -/
def ringPutPoint (qsort : Qsort) (p : Chp) (r : ChringMemory) : Option (Int × ChringMemory) :=
  if r.alloc > r.used then
    r.array.map fun array =>
      (0, { r with
        used := r.used + 1
        array := some (qsort.sort (array ++ [p])) })
  else none

/-- `ring_add_point` in memory. -/
def ringAddPointMemory (qsort : Qsort) (answer : ReallocAnswer) (p : Chp) (r : ChringMemory) :
    Option (Int × ChringMemory) :=
  match ringMakeRoom answer r with
  | .error r => some (-ENOMEM, r)
  | .ok r => ringPutPoint qsort p r

/-- `ring_get_point2` in memory. `none` is a read through the null pointer, or a search that does
not come back. -/
def ringGetPoint2Memory (point : Nat) (r : ChringMemory) : Option (Except Int Chp) :=
  if r.used = 0 then some (.error (-EINVAL))
  else
    match r.array with
    | none => none
    | some array => (ringSearch array point (r.used + 2) 0 r.used).map .ok

/-- The ring in memory. -/
def Chring.memory (r : Chring) : ChringMemory := ⟨r.alloc, r.used, r.group, some r.array⟩

/-! ### What a failure leaves -/

/-- When `ring_add_point` returns -ENOMEM, the ring is as before, and so are all later answers. -/
def AddsAtomically (qsort : Qsort) (answer : ReallocAnswer) (p : Chp) (r : ChringMemory) : Prop :=
  ∀ next, ringAddPointMemory qsort answer p r = some (-ENOMEM, next) →
    next = r ∧ (∀ point, ringGetPoint2Memory point next = ringGetPoint2Memory point r) ∧
      ∀ later q, ringAddPointMemory qsort later q next = ringAddPointMemory qsort later q r

section Memory

variable {qsort : Qsort} {answer : ReallocAnswer} {p : Chp} {r next : ChringMemory}

theorem ringPutPoint_ne : ringPutPoint qsort p r ≠ some (-ENOMEM, next) := by
  intro same
  unfold ringPutPoint at same
  split_ifs at same
  obtain ⟨array, _, pair⟩ := Option.map_eq_some_iff.mp same
  have code : (0 : Int) = -ENOMEM := congrArg Prod.fst pair
  exact absurd code (by decide)

/-- A call that returns -ENOMEM has left the null pointer in a full ring. -/
theorem ringAddPointMemory_failed :
    ringAddPointMemory qsort answer p r = some (-ENOMEM, next) ↔
      r.alloc ≤ r.used ∧ xrealloc r answer = none ∧ next = { r with array := none } := by
  unfold ringAddPointMemory ringMakeRoom
  by_cases full : r.alloc ≤ r.used
  · rw [if_pos full]
    rcases xrealloc r answer with _ | array
    · simp only [full, Option.some_inj, Prod.mk.injEq, true_and]
      exact eq_comm
    · simp only [full, reduceCtorEq, false_and, and_false, iff_false]
      exact ringPutPoint_ne
  · rw [if_neg full]
    simp only [full, false_and, iff_false]
    exact ringPutPoint_ne

/-- With an array, the functions are those of the ring, but for the array that a failure loses. -/
theorem ringAddPoint_memory (grown : Bool) (fresh : Nat → Chp) (r : Chring) :
    ringAddPointMemory qsort (if grown then .grown fresh else .failed) p r.memory =
      if r.alloc ≤ r.used ∧ grown = false then some (-ENOMEM, { r.memory with array := none })
      else (ringAddPoint qsort grown p r).bind fun result =>
        result.toOption.map fun next => (0, next.memory) := by
  have length : ∀ array : List Chp, (qsort.sort (array ++ [p])).length = array.length + 1 := by
    intro array
    rw [(qsort.perm _).length_eq, List.length_append, List.length_singleton]
  have put : ∀ alloc, ringPutPoint qsort p ⟨alloc, r.used, r.group, some r.array⟩ =
      if alloc > r.used then
        some (0, Chring.memory { r with alloc := alloc, array := qsort.sort (r.array ++ [p]) })
      else none := by
    intro alloc
    unfold ringPutPoint Chring.memory Chring.used
    simp only [length, Option.map_some]
  unfold ringAddPointMemory ringMakeRoom ringAddPoint
  by_cases full : r.alloc ≤ r.used
  · have fullMemory : r.memory.alloc ≤ r.memory.used := full
    rw [if_pos fullMemory]
    cases grown
    · simp only [full, true_and, if_true, Bool.false_eq_true, if_false, xrealloc]
    · simp only [full, Bool.true_eq_false, and_false, if_false, if_true, xrealloc, Bool.not_true,
        Bool.and_false, Bool.false_eq_true]
      rw [show r.memory.array.getD ((List.range r.memory.used).map fresh) = r.array from rfl]
      rw [show ({ r.memory with
          array := some r.array
          alloc := (r.memory.alloc + RING_ALLOC_FACTOR) % 2 ^ 32 } : ChringMemory) =
        ⟨(r.alloc + RING_ALLOC_FACTOR) % 2 ^ 32, r.used, r.group, some r.array⟩ from rfl, put]
      split_ifs
      · rfl
      · rfl
  · have room : ¬r.memory.alloc ≤ r.memory.used := full
    rw [if_neg room]
    simp only [full, false_and, if_false, decide_false, Bool.false_and, Bool.false_eq_true]
    rw [show r.memory = ⟨r.alloc, r.used, r.group, some r.array⟩ from rfl, put]
    split_ifs
    · rfl
    · rfl

theorem ringGetPoint2_memory (point : Nat) (r : Chring) :
    ringGetPoint2Memory point r.memory = ringGetPoint2 point r := rfl

end Memory

/-- A failed addition leaves the ring as it was exactly when there was no array to lose; nothing
fails when there is room or `xrealloc` succeeds. -/
theorem ring_add_point_failure (qsort : Qsort) (answer : ReallocAnswer) (p : Chp)
    (r : ChringMemory) :
    AddsAtomically qsort answer p r ↔
      r.used < r.alloc ∨ xrealloc r answer ≠ none ∨ r.array = none := by
  constructor
  · intro atomic
    by_contra loses
    rw [not_or, not_or, not_lt, not_not] at loses
    obtain ⟨full, failed, used⟩ := loses
    have same := (atomic _ (ringAddPointMemory_failed.mpr ⟨full, failed, rfl⟩)).1
    exact used (congrArg ChringMemory.array same).symm
  · intro keeps next result
    obtain ⟨full, failed, rfl⟩ := ringAddPointMemory_failed.mp result
    have null : r.array = none := by
      rcases keeps with room | grown | null
      · exact absurd room (not_lt.mpr full)
      · exact absurd failed grown
      · exact null
    have same : ({ r with array := none } : ChringMemory) = r := by
      rw [← null]
    rw [same]
    exact ⟨rfl, fun _ => rfl, fun _ _ => rfl⟩

/-- A full ring of 32 points gets no memory for another one; the lookup that found a point before
reads through the null pointer. -/
theorem ring_add_point_loses_array :
    ∃ next, ringAddPointMemory insertionQsort .failed (chpAt 7)
        ⟨32, 32, 0, some ((List.range 32).map chpAt)⟩ = some (-ENOMEM, next) ∧
      ringGetPoint2Memory 5 ⟨32, 32, 0, some ((List.range 32).map chpAt)⟩ =
        some (.ok (chpAt 5)) ∧
      ringGetPoint2Memory 5 next = none ∧
      ¬AddsAtomically insertionQsort .failed (chpAt 7)
        ⟨32, 32, 0, some ((List.range 32).map chpAt)⟩ := by
  refine ⟨⟨32, 32, 0, none⟩, rfl, rfl, rfl, fun atomic => ?_⟩
  have same := (atomic ⟨32, 32, 0, none⟩ rfl).1
  cases same

end Hvfs
