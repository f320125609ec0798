/-
This file develops what many invariants of threads rest on: the things that
threads hold, no two the same, and how many threads are at stages of a kind.

A step moves one thread to another stage, so every rule here is about a
function of the threads that is updated at one of them.
-/

import Mathlib.Algebra.BigOperators.Group.Finset.Basic
import Mathlib.Algebra.Order.BigOperators.Group.Finset
import Mathlib.Combinatorics.Enumerative.DoubleCounting
import Mathlib.Data.Fintype.BigOperators

namespace Threads

variable {Thread Stage Item : Type*}

/-! ### Things that threads hold -/

/-- No two threads hold the same. -/
def Exclusive (holds : Thread → Option Item) : Prop :=
  ∀ first second, first ≠ second → ∀ item, holds first = some item → holds second ≠ some item

section Holding

variable [DecidableEq Thread]

/-- What each thread holds after one of them goes to another stage. -/
theorem holds_update (holds : Stage → Option Item) (stage : Thread → Stage) (thread : Thread)
    (next : Stage) :
    (fun t => holds (Function.update stage thread next t)) =
      Function.update (fun t => holds (stage t)) thread (holds next) :=
  Function.comp_update holds stage thread next

/-- A thread that goes on with the same. -/
theorem holds_same (holds : Stage → Option Item) (stage : Thread → Stage) {thread : Thread}
    {next : Stage} (same : holds next = holds (stage thread)) :
    (fun t => holds (Function.update stage thread next t)) = fun t => holds (stage t) := by
  rw [holds_update, same]
  exact Function.update_eq_self thread _

theorem exists_same (holds : Stage → Option Item) (stage : Thread → Stage) {thread : Thread}
    {next : Stage} (same : holds next = holds (stage thread)) (item : Item) :
    (∃ t, holds (Function.update stage thread next t) = some item) ↔
      ∃ t, holds (stage t) = some item :=
  exists_congr fun t => iff_of_eq (congrArg (· = some item)
    (congrFun (holds_same holds stage same) t))

/-- A thread takes what no other thread holds. -/
theorem Exclusive.update {holds : Thread → Option Item} (apart : Exclusive holds) {thread : Thread}
    {taken : Option Item}
    (mine : ∀ item, taken = some item → ∀ other, other ≠ thread → holds other ≠ some item) :
    Exclusive (Function.update holds thread taken) := by
  intro first second different item has
  rw [Function.update_apply] at has ⊢
  split_ifs at has with isFirst
  · rw [if_neg fun isSecond => different (isFirst.trans isSecond.symm)]
    exact mine item has second fun isSecond => different (isFirst.trans isSecond.symm)
  · split_ifs with isSecond
    · intro also
      exact mine item also first isFirst has
    · exact apart first second different item has

/-- A thread goes to a stage with something that no other thread holds. -/
theorem Exclusive.go {holds : Stage → Option Item} {stage : Thread → Stage}
    (apart : Exclusive fun t => holds (stage t)) {thread : Thread} {next : Stage}
    (mine : ∀ item, holds next = some item → ∀ other, other ≠ thread →
      holds (stage other) ≠ some item) :
    Exclusive fun t => holds (Function.update stage thread next t) := by
  rw [holds_update]
  exact apart.update mine

theorem Exclusive.go_same {holds : Stage → Option Item} {stage : Thread → Stage}
    (apart : Exclusive fun t => holds (stage t)) {thread : Thread} {next : Stage}
    (same : holds next = holds (stage thread)) :
    Exclusive fun t => holds (Function.update stage thread next t) := by
  rw [holds_same holds stage same]
  exact apart

/-- Who holds an item after one thread goes on. -/
theorem exists_update {holds : Thread → Option Item} {thread : Thread} {taken : Option Item}
    {item : Item} : (∃ t, Function.update holds thread taken t = some item) ↔
      taken = some item ∨ ∃ t, t ≠ thread ∧ holds t = some item := by
  constructor
  · rintro ⟨t, has⟩
    rw [Function.update_apply] at has
    split_ifs at has with here
    · exact Or.inl has
    · exact Or.inr ⟨t, here, has⟩
  · rintro (has | ⟨t, different, has⟩)
    · exact ⟨thread, by rw [Function.update_self, has]⟩
    · exact ⟨t, by rw [Function.update_of_ne different, has]⟩

/-- Who holds an item after a thread without one takes it. -/
theorem exists_take {holds : Thread → Option Item} {thread : Thread} (before : holds thread = none)
    {mine item : Item} : (∃ t, Function.update holds thread (some mine) t = some item) ↔
      item = mine ∨ ∃ t, holds t = some item := by
  rw [exists_update, Option.some_inj, eq_comm]
  refine or_congr_right ⟨fun ⟨t, _, has⟩ => ⟨t, has⟩, fun ⟨t, has⟩ => ⟨t, ?_, has⟩⟩
  rintro rfl
  rw [before] at has
  cases has

/-- Who holds an item after a thread gives its own back. -/
theorem Exclusive.exists_release {holds : Thread → Option Item} (apart : Exclusive holds)
    {thread : Thread} {mine item : Item} (before : holds thread = some mine) :
    (∃ t, Function.update holds thread none t = some item) ↔
      item ≠ mine ∧ ∃ t, holds t = some item := by
  rw [exists_update]
  constructor
  · rintro (absurdity | ⟨t, different, has⟩)
    · cases absurdity
    · refine ⟨?_, t, has⟩
      rintro rfl
      exact apart thread t different.symm _ before has
  · rintro ⟨other, t, has⟩
    refine Or.inr ⟨t, ?_, has⟩
    rintro rfl
    rw [before] at has
    exact other (Option.some.inj has).symm

/-- A thread without an item goes to a stage with one. -/
theorem exists_go_take (holds : Stage → Option Item) (stage : Thread → Stage) {thread : Thread}
    (next : Stage) {mine : Item} (before : holds (stage thread) = none)
    (after : holds next = some mine) (item : Item) :
    (∃ t, holds (Function.update stage thread next t) = some item) ↔
      item = mine ∨ ∃ t, holds (stage t) = some item := by
  have moved := holds_update holds stage thread next
  simp only [fun t => congrFun moved t, after]
  refine exists_take ?_
  exact before

/-- A thread goes to a stage without the item it had. -/
theorem Exclusive.exists_go_release {holds : Stage → Option Item} {stage : Thread → Stage}
    (apart : Exclusive fun t => holds (stage t)) {thread : Thread} (next : Stage) {mine : Item}
    (before : holds (stage thread) = some mine) (after : holds next = none) (item : Item) :
    (∃ t, holds (Function.update stage thread next t) = some item) ↔
      item ≠ mine ∧ ∃ t, holds (stage t) = some item := by
  have moved := holds_update holds stage thread next
  simp only [fun t => congrFun moved t, after]
  refine apart.exists_release ?_
  exact before

end Holding

/-! ### Counting threads -/

section Counting

variable [Fintype Thread]

/-- How many threads are at a stage of the kind. -/
def countAt (kind : Stage → Bool) (stage : Thread → Stage) : Nat := ∑ t, (kind (stage t)).toNat

variable {kind narrow wide : Stage → Bool} {stage : Thread → Stage}

theorem countAt_update [DecidableEq Thread] (kind : Stage → Bool) (stage : Thread → Stage)
    (thread : Thread) (next : Stage) :
    countAt kind (Function.update stage thread next) + (kind (stage thread)).toNat =
      countAt kind stage + (kind next).toNat := by
  unfold countAt
  rw [← Finset.add_sum_erase Finset.univ _ (Finset.mem_univ thread),
    ← Finset.add_sum_erase Finset.univ (fun t => (kind (stage t)).toNat) (Finset.mem_univ thread)]
  have others : ∑ t ∈ Finset.univ.erase thread, (kind (Function.update stage thread next t)).toNat =
      ∑ t ∈ Finset.univ.erase thread, (kind (stage t)).toNat := by
    refine Finset.sum_congr rfl fun t member => ?_
    rw [Function.update_of_ne (Finset.ne_of_mem_erase member)]
  rw [Function.update_self, others]
  omega

/-- A thread that goes on at stages of the kind, or outside it. -/
theorem countAt_same [DecidableEq Thread] (stage : Thread → Stage) {thread : Thread} {next : Stage}
    (same : kind next = kind (stage thread)) :
    countAt kind (Function.update stage thread next) = countAt kind stage := by
  have moved := countAt_update kind stage thread next
  rw [same] at moved
  exact Nat.add_right_cancel moved

/-- A thread of a narrower kind, and one of the wider kind that is not of it. -/
theorem countAt_lt (within : ∀ s, narrow s = true → wide s = true) {thread : Thread}
    (isWide : wide (stage thread) = true) (notNarrow : narrow (stage thread) = false) :
    countAt narrow stage < countAt wide stage := by
  refine Finset.sum_lt_sum (fun t _ => ?_) ⟨thread, Finset.mem_univ thread, ?_⟩
  · exact Bool.toNat_le_toNat (within (stage t))
  · rw [isWide, notNarrow]
    decide

/-- There are no more items held than threads that hold one. -/
theorem card_le_countAt {holds : Stage → Option Item} (items : Finset Item)
    (held : ∀ item ∈ items, ∃ t, holds (stage t) = some item)
    (counted : ∀ s item, holds s = some item → kind s = true) :
    items.card ≤ countAt kind stage := by
  classical
  have sum : countAt kind stage = (Finset.univ.filter fun t => kind (stage t) = true).card := by
    unfold countAt
    rw [Finset.card_filter]
    exact Finset.sum_congr rfl fun t _ => by cases kind (stage t) <;> rfl
  rw [sum]
  refine Finset.card_le_card_of_forall_subsingleton
    (fun item t => holds (stage t) = some item) (fun item member => ?_) ?_
  · obtain ⟨t, has⟩ := held item member
    exact ⟨t, Finset.mem_filter.mpr ⟨Finset.mem_univ t, counted _ item has⟩, has⟩
  · intro t _ first isFirst second isSecond
    exact Option.some.inj (isFirst.2.symm.trans isSecond.2)

end Counting

end Threads
