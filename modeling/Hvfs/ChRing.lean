/-
This file models the consistent hash ring of `lib/ring.c`: the sorted array of
points, adding and deleting a point, and the binary search for the point that a
hash value belongs to. It proves that the search finds the owner of the value
among the points of the array, and that a ring built by adding and deleting
points moves only the values it must.
-/

import Hvfs.Const
import Hvfs.Library.ConsistentHash
import Hvfs.Library.Transition
import Mathlib.Data.List.Nodup
import Mathlib.Data.List.Sort

namespace Hvfs

/-! ### The ring -/

/-- `struct chp`, a point on the ring. -/
structure Chp where
  point : Nat
  vid : U32
  type : U32
  site_id : U64
deriving DecidableEq, Repr

/-- `struct chring`. The list is the first `used` elements of the array. -/
structure Chring where
  alloc : Nat
  group : U32
  array : List Chp
deriving DecidableEq, Repr

def Chring.used (r : Chring) : Nat := r.array.length

def RING_ALLOC_FACTOR : Nat := 32

/-- `ring_alloc`. A negative size is more than `xzalloc` has, and leaves no room. -/
def ringAlloc (alloc gid : U32) : Chring where
  alloc := ((alloc.sshiftRight 5 + 1) <<< 5).toInt.toNat
  group := gid
  array := []

def chpCompare (a b : Chp) : Int :=
  if a.point < b.point then -1 else if a.point > b.point then 1 else 0

/-- A `qsort` with `chp_compare`: any function that returns the sorted permutation. -/
structure Qsort where
  sort : List Chp → List Chp
  perm : ∀ array, (sort array).Perm array
  sorted : ∀ array, (sort array).Pairwise fun a b => chpCompare a b ≤ 0

/-- Sorting by insertion is a `qsort`. -/
def insertionQsort : Qsort where
  sort := List.insertionSort fun a b => a.point ≤ b.point
  perm := List.perm_insertionSort _
  sorted array := by
    have : Std.Total fun a b : Chp => a.point ≤ b.point := ⟨fun a b => Nat.le_total _ _⟩
    have : IsTrans Chp fun a b => a.point ≤ b.point := ⟨fun _ _ _ => Nat.le_trans⟩
    refine (List.pairwise_insertionSort (fun a b : Chp => a.point ≤ b.point) array).imp ?_
    intro a b order
    unfold chpCompare
    split
    · decide
    · rw [if_neg (by omega)]

/-- `ring_add_point`. The answer of `xrealloc` is `grown`; the assertion is `none`. -/
def ringAddPoint (qsort : Qsort) (grown : Bool) (p : Chp) (r : Chring) :
    Option (Except Int Chring) :=
  if r.alloc ≤ r.used && !grown then some (.error (-ENOMEM))
  else
    let alloc := if r.alloc ≤ r.used then (r.alloc + RING_ALLOC_FACTOR) % 2 ^ 32 else r.alloc
    if alloc > r.used then
      some (.ok { r with alloc := alloc, array := qsort.sort (r.array ++ [p]) })
    else none

/-- The loop of `ring_del_point`, from the element `p` of the array on. -/
def ringShift : Nat → List Chp → Nat → List Chp
  | 0, array, _ => array
  | left + 1, array, p =>
    if inside : p + 1 < array.length then ringShift left (array.set p array[p + 1]) (p + 1)
    else array

/-- `ring_del_point`, of the element `p` of the array. -/
def ringDelPoint (p : Nat) (r : Chring) : Chring :=
  { r with array := (ringShift r.used r.array p).dropLast }

/-- `r->array[index]`; `none` is a read outside of the used part. -/
def ringRead (array : List Chp) (index : Int) : Option Chp :=
  if 0 ≤ index then array[index.toNat]? else none

/-- The `midval1` of `ring_get_point2`. -/
def ringMidval1 (array : List Chp) (midp : Int) : Option Nat :=
  if midp = 0 then some 0 else (ringRead array (midp - 1)).map Chp.point

/-- The loop of `ring_get_point2`. -/
def ringSearch (array : List Chp) (point : Nat) : Nat → Int → Int → Option Chp
  | 0, _, _ => none
  | fuel + 1, lowp, highp =>
    let midp := (lowp + highp).tdiv 2
    if midp = array.length then array[0]?
    else do
      let mid ← ringRead array midp
      let midval1 ← ringMidval1 array midp
      if point ≤ mid.point && point > midval1 then some mid
      else
        let (lowp, highp) := if mid.point < point then (midp + 1, highp) else (lowp, midp - 1)
        if lowp > highp then array[0]? else ringSearch array point fuel lowp highp

/-- `ring_get_point2`, which is not to come back when there is no answer. -/
def ringGetPoint2 (point : Nat) (r : Chring) : Option (Except Int Chp) :=
  if r.used = 0 then some (.error (-EINVAL))
  else (ringSearch r.array point (r.used + 2) 0 r.used).map .ok

/-! ### Deleting a point -/

/-- The shifted array without its last element is the array without the element `p`. -/
theorem ringShift_dropLast {left : Nat} {array : List Chp} {p : Nat} (inside : p < array.length)
    (enough : array.length ≤ p + 1 + left) :
    (ringShift left array p).dropLast = array.eraseIdx p := by
  induction left generalizing array p with
  | zero =>
    rw [ringShift]
    exact (List.eraseIdx_eq_dropLast (by omega)).symm
  | succ left inductionHypothesis =>
    rw [ringShift]
    split
    · next more =>
      rw [inductionHypothesis (by rwa [List.length_set]) (by rw [List.length_set]; omega)]
      refine List.ext_getElem (by simp [List.length_eraseIdx, inside, more]) ?_
      intro index first second
      rw [List.getElem_eraseIdx, List.getElem_eraseIdx]
      rcases Nat.lt_trichotomy index p with before | rfl | after
      · simp [before, Nat.lt_succ_of_lt before, Nat.ne_of_gt before]
      · simp
      · rw [dif_neg (by omega), dif_neg (by omega), List.getElem_set_ne (by omega)]
    · exact (List.eraseIdx_eq_dropLast (by omega)).symm

theorem ringDelPoint_array {r : Chring} {p : Nat} (inside : p < r.used) :
    (ringDelPoint p r).array = r.array.eraseIdx p :=
  ringShift_dropLast inside (by unfold Chring.used; omega)

/-! ### The search -/

/-- No point of the array is before the points in front of it. -/
def Ordered (array : List Chp) : Prop := array.Pairwise fun a b => a.point ≤ b.point

theorem Ordered.le {array : List Chp} (ordered : Ordered array) {first second : Nat}
    (order : first ≤ second) (inside : second < array.length) :
    array[first].point ≤ array[second].point := by
  rcases Nat.lt_or_eq_of_le order with before | rfl
  · exact List.pairwise_iff_getElem.mp ordered _ _ _ _ before
  · exact Nat.le_refl _

/-- Each point of the array is behind the points before it. -/
def Sorted (array : List Chp) : Prop := array.Pairwise fun a b => a.point < b.point

theorem Sorted.ordered {array : List Chp} (sorted : Sorted array) : Ordered array :=
  sorted.imp Nat.le_of_lt

theorem Sorted.nodup {array : List Chp} (sorted : Sorted array) : array.Nodup :=
  sorted.imp fun before same => Nat.ne_of_lt before (congrArg Chp.point same)

theorem Sorted.injOn {array : List Chp} (sorted : Sorted array) :
    Set.InjOn Chp.point {p | p ∈ array} := by
  intro first firstMember second secondMember same
  obtain ⟨i, iInside, rfl⟩ := List.getElem_of_mem firstMember
  obtain ⟨j, jInside, rfl⟩ := List.getElem_of_mem secondMember
  rcases Nat.lt_trichotomy i j with before | rfl | after
  · exact absurd same (Nat.ne_of_lt (List.pairwise_iff_getElem.mp sorted _ _ _ _ before))
  · rfl
  · exact absurd same (Nat.ne_of_gt (List.pairwise_iff_getElem.mp sorted _ _ _ _ after))

/-- The points of the array, on the circle of the hash values. -/
abbrev RingOwner (array : List Chp) (point : Nat) (owner : Chp) : Prop :=
  ConsistentHash.Owner Chp.point {p | p ∈ array} point owner

/-- An element that is not before the value and whose predecessors are is the owner. -/
theorem ringOwner_of_before {array : List Chp} (sorted : Sorted array) {point mid : Nat}
    (inside : mid < array.length) (behind : point ≤ array[mid].point)
    (before : ∀ i (bound : i < mid), array[i].point < point) :
    RingOwner array point array[mid] := by
  refine ⟨List.getElem_mem inside, Or.inl ⟨behind, ?_⟩⟩
  intro other member notBefore
  obtain ⟨i, iInside, rfl⟩ := List.getElem_of_mem member
  have order : mid ≤ i := by
    by_contra early
    exact absurd (before i (by omega)) (Nat.not_lt.mpr notBefore)
  exact sorted.ordered.le order iInside

/-- When all points are before the value, the first one is the owner. -/
theorem ringOwner_of_all {array : List Chp} (sorted : Sorted array) {point : Nat}
    (inside : 0 < array.length)
    (before : ∀ i (bound : i < array.length), array[i].point < point) :
    RingOwner array point array[0] := by
  refine ⟨List.getElem_mem inside, Or.inr ⟨fun other member => ?_, fun other member => ?_⟩⟩
  · obtain ⟨i, iInside, rfl⟩ := List.getElem_of_mem member
    exact before i iInside
  · obtain ⟨i, iInside, rfl⟩ := List.getElem_of_mem member
    exact sorted.ordered.le (Nat.zero_le i) iInside

/-- The first element of the array that is not before the value, or else the element 0. -/
def successor (array : List Chp) (point : Nat) : Option Chp :=
  (array.find? fun p => decide (point ≤ p.point)).or array[0]?

theorem successor_of_before {array : List Chp} {point mid : Nat} (inside : mid < array.length)
    (behind : point ≤ array[mid].point)
    (before : ∀ i (bound : i < mid), array[i].point < point) :
    successor array point = some array[mid] := by
  have first : (array.find? fun p => decide (point ≤ p.point)) = some array[mid] := by
    rw [List.find?_eq_some_iff_getElem]
    refine ⟨decide_eq_true behind, mid, inside, rfl, fun i bound => ?_⟩
    have less := before i bound
    simp only [Bool.not_eq_true', decide_eq_false_iff_not]
    omega
  rw [successor, first, Option.some_or]

theorem successor_of_all {array : List Chp} {point : Nat}
    (before : ∀ i (bound : i < array.length), array[i].point < point) :
    successor array point = array[0]? := by
  have none : (array.find? fun p => decide (point ≤ p.point)) = none := by
    rw [List.find?_eq_none]
    intro p member found
    obtain ⟨i, inside, rfl⟩ := List.getElem_of_mem member
    have less := before i inside
    have behind := of_decide_eq_true found
    omega
  rw [successor, none, Option.none_or]

/-- Among points that are apart, the successor of a value is its owner. -/
theorem ringOwner_of_successor {array : List Chp} (sorted : Sorted array)
    {point : Nat} {owner : Chp}
    (found : successor array point = some owner) : RingOwner array point owner := by
  unfold successor at found
  rcases first : array.find? (fun p => decide (point ≤ p.point)) with _ | p
  · rw [first, Option.none_or] at found
    obtain ⟨used, rfl⟩ := List.getElem?_eq_some_iff.mp found
    refine ringOwner_of_all sorted used fun i bound => ?_
    have missed := List.find?_eq_none.mp first _ (List.getElem_mem bound)
    exact Nat.not_le.mp fun behind => missed (decide_eq_true behind)
  · rw [first, Option.some_or] at found
    cases found
    obtain ⟨behind, mid, inside, rfl, before⟩ := List.find?_eq_some_iff_getElem.mp first
    refine ringOwner_of_before sorted inside (of_decide_eq_true behind) fun i bound => ?_
    have missed := before i bound
    simp only [Bool.not_eq_true', decide_eq_false_iff_not] at missed
    exact Nat.not_le.mp missed

/-- The bounds of the search: the points below `lowp` are before the value, and the value is not
behind the point at `highp`. -/
structure Bounds (array : List Chp) (point : Nat) (lowp highp : Int) : Prop where
  low : 0 ≤ lowp
  order : lowp ≤ highp
  high : highp ≤ array.length
  before : ∀ i (bound : i < array.length), (i : Int) < lowp → array[i].point < point
  behind : ∀ i (bound : i < array.length), (i : Int) = highp → point ≤ array[i].point

theorem ringRead_inside {array : List Chp} {index : Nat} (inside : index < array.length) :
    ringRead array index = some array[index] := by
  rw [ringRead, if_pos (Int.natCast_nonneg index), Int.toNat_natCast,
    List.getElem?_eq_getElem inside]

/-- The point before the middle of the search, which is zero before the first one. -/
theorem ringMidval1_spec {array : List Chp} {mid : Nat} (inside : mid < array.length) :
    ∃ midval1, ringMidval1 array mid = some midval1 ∧ (mid = 0 → midval1 = 0) ∧
        ∀ previous (next : mid = previous + 1), midval1 = array[previous].point := by
  cases mid with
  | zero => exact ⟨0, rfl, fun _ => rfl, fun _ next => absurd next (by omega)⟩
  | succ previous =>
    refine ⟨array[previous].point, ?_, fun zero => absurd zero (by omega), fun other next => ?_⟩
    · rw [ringMidval1, if_neg (by omega), show ((previous + 1 : Nat) - 1 : Int) = previous by omega,
        ringRead_inside (by omega), Option.map_some]
    · cases next
      rfl

/-- The search between good bounds comes back with the successor of the value. -/
theorem ringSearch_successor {array : List Chp} (ordered : Ordered array) {point fuel : Nat}
    {lowp highp : Int} (bounds : Bounds array point lowp highp) (used : 0 < array.length)
    (enough : highp - lowp + 1 < fuel) :
    ∃ p, ringSearch array point fuel lowp highp = some p ∧ successor array point = some p := by
  induction fuel generalizing lowp highp with
  | zero =>
    have order := bounds.order
    omega
  | succ fuel inductionHypothesis =>
    obtain ⟨low, order, high, before, behind⟩ := bounds
    have halved : (lowp + highp).tdiv 2 = (lowp + highp) / 2 :=
      Int.tdiv_eq_ediv_of_nonneg (by omega)
    obtain ⟨mid, isMid⟩ : ∃ mid : Nat, (lowp + highp).tdiv 2 = mid :=
      ⟨((lowp + highp).tdiv 2).toNat, by omega⟩
    have lowMid : lowp ≤ mid := by omega
    have midHigh : mid ≤ highp := by omega
    have element := List.getElem?_eq_getElem used
    rw [ringSearch]
    simp only [isMid]
    split
    · next atEnd =>
      -- `lowp` and `highp` are both the number of the points
      refine ⟨array[0], element, ?_⟩
      rw [successor_of_all fun i bound => before i bound (by omega), element]
    · next notEnd =>
      have inside : mid < array.length := by omega
      obtain ⟨midval1, read, first, later⟩ := ringMidval1_spec inside
      simp only [ringRead_inside inside, Option.bind_eq_bind, Option.bind_some, read,
        Bool.and_eq_true, decide_eq_true_eq]
      split
      · next found =>
        refine ⟨array[mid], rfl, successor_of_before inside found.1 fun i bound => ?_⟩
        cases mid with
        | zero => omega
        | succ previous =>
          have last := later previous rfl
          have upTo := ordered.le (show i ≤ previous by omega) (by omega)
          omega
      · next notFound =>
        split
        · next tooLow =>
          -- the value is behind the middle, which is then before `highp`
          have more : (mid : Int) + 1 ≤ highp := by
            by_contra reached
            have isHigh : (mid : Int) = highp := by omega
            have := behind mid inside isHigh
            omega
          rw [if_neg (by omega)]
          refine inductionHypothesis ⟨by omega, more, high, fun i bound below => ?_, behind⟩
            (by omega)
          have upTo := ordered.le (show i ≤ mid by omega) inside
          omega
        · next notLow =>
          cases mid with
          | zero =>
            -- only zero is not behind the point before the first one
            have zero : point = 0 := by
              have := first rfl
              omega
            refine ⟨array[0], ?_, successor_of_before used (by omega) fun i bound => ?_⟩
            · rw [if_pos (by omega)]
              exact element
            · omega
          | succ previous =>
            have last := later previous rfl
            have notBehind : point ≤ array[previous].point := by omega
            -- a point below `lowp` is before the value, so the middle is above `lowp`
            have more : lowp ≤ previous := by
              by_contra passed
              have := before previous (by omega) (by omega)
              omega
            rw [if_neg (by omega)]
            refine inductionHypothesis ⟨low, by omega, by omega, before, fun i bound same => ?_⟩
              (by omega)
            have isPrevious : i = previous := by omega
            subst isPrevious
            exact notBehind

/-- In a ring with points in order, the search of the whole array ends with the successor of the
value and reads no element outside of the used part. -/
theorem ringSearch_whole {r : Chring} (ordered : Ordered r.array) (used : r.used ≠ 0)
    (point : Nat) :
    ∃ p, ringSearch r.array point (r.used + 2) 0 r.used = some p ∧
      successor r.array point = some p :=
  @ringSearch_successor _ ordered point (r.used + 2) 0 r.used
    ⟨by omega, by omega, le_refl _, fun i bound below => by omega,
      fun i bound same => absurd same (by unfold Chring.used; omega)⟩
    (Nat.pos_of_ne_zero used) (by omega)

theorem ringGetPoint2_of_search {r : Chring} {point : Nat} {p : Chp} (used : r.used ≠ 0)
    (found : ringSearch r.array point (r.used + 2) 0 r.used = some p) :
    ringGetPoint2 point r = some (.ok p) := by
  rw [ringGetPoint2, if_neg used, found, Option.map_some]

/-- The search of a ring whose points may stand at the same place returns the first one at or after
the value, or the element 0. -/
theorem ring_get_point2_first (r : Chring) (ordered : Ordered r.array) (used : r.used ≠ 0)
    (point : Nat) :
    ∃ p, successor r.array point = some p ∧ ringGetPoint2 point r = some (.ok p) := by
  obtain ⟨p, found, first⟩ := ringSearch_whole ordered used point
  exact ⟨p, first, ringGetPoint2_of_search used found⟩

/-- The first one of two points at one place. -/
theorem ring_get_point2_first_double :
    ∃ p, successor [⟨3, 0, 0, 0⟩, ⟨5, 1, 0, 0⟩, ⟨5, 2, 0, 0⟩, ⟨9, 3, 0, 0⟩] 4 = some p ∧
      ringGetPoint2 4 ⟨32, 0, [⟨3, 0, 0, 0⟩, ⟨5, 1, 0, 0⟩, ⟨5, 2, 0, 0⟩, ⟨9, 3, 0, 0⟩]⟩ =
        some (.ok p) :=
  ring_get_point2_first ⟨32, 0, [⟨3, 0, 0, 0⟩, ⟨5, 1, 0, 0⟩, ⟨5, 2, 0, 0⟩, ⟨9, 3, 0, 0⟩]⟩
    (by unfold Ordered; decide) (by decide) 4

/-- `ring_get_point2` finds the owner of the value among the points of the ring. -/
theorem ringGetPoint2_spec {r : Chring} (sorted : Sorted r.array) (point : Nat) :
    (r.array = [] ∧ ringGetPoint2 point r = some (.error (-EINVAL))) ∨
      ∃ owner, ringGetPoint2 point r = some (.ok owner) ∧ RingOwner r.array point owner := by
  rcases Nat.eq_zero_or_pos r.used with empty | used
  · exact Or.inl ⟨List.length_eq_zero_iff.mp empty, if_pos empty⟩
  · have nonempty : r.used ≠ 0 := Nat.ne_of_gt used
    obtain ⟨owner, found, first⟩ := ringSearch_whole sorted.ordered nonempty point
    exact Or.inr ⟨owner, ringGetPoint2_of_search nonempty found,
      ringOwner_of_successor sorted first⟩

/-! ### Runs -/

/-- What is done to a ring: `ring_add_point` of a point, and `ring_del_point` of the point `p` that
is the element `index` of the array. -/
inductive RingOp where
  | add (p : Chp)
  | del (p : Chp) (index : Nat)

/-- One operation, with an allocation that succeeds. -/
def ringStep (qsort : Qsort) (r : Chring) : RingOp → Option Chring
  | .add p =>
    match ringAddPoint qsort true p r with
    | some (.ok next) => some next
    | _ => none
  | .del p index => if r.array[index]? = some p then some (ringDelPoint index r) else none

/-- A new point is not where a point of the ring is. -/
def Apart (r : Chring) : RingOp → Prop
  | .add p => ∀ q ∈ r.array, q.point ≠ p.point
  | .del _ _ => True

/-- The points that were added and not deleted. -/
def pointsAfter (points : Set Chp) : RingOp → Set Chp
  | .add p => insert p points
  | .del p _ => points \ {p}

/-- What adding a point does to the array. -/
theorem ringAddPoint_ok {qsort : Qsort} {grown : Bool} {p : Chp} {r next : Chring}
    (added : ringAddPoint qsort grown p r = some (.ok next)) :
    next.array = qsort.sort (r.array ++ [p]) := by
  unfold ringAddPoint at added
  split at added
  · cases added
  · dsimp only at added
    generalize (if r.alloc ≤ r.used then _ else r.alloc) = alloc at added
    split at added
    · cases added
      rfl
    · cases added

/-- A sorted permutation of points that are apart is sorted strictly. -/
theorem Qsort.sorted_of_apart (qsort : Qsort) {array : List Chp}
    (apart : array.Pairwise fun a b => a.point ≠ b.point) : Sorted (qsort.sort array) := by
  have alsoApart : (qsort.sort array).Pairwise fun a b => a.point ≠ b.point :=
    ((qsort.perm array).pairwise_iff fun differ => Ne.symm differ).mpr apart
  refine List.Pairwise.imp ?_ ((qsort.sorted array).and alsoApart)
  rintro a b ⟨compared, differ⟩
  unfold chpCompare at compared
  split at compared
  · assumption
  · split at compared
    · exact absurd compared (by decide)
    · omega

theorem Sorted.apart {array : List Chp} (sorted : Sorted array) :
    array.Pairwise fun a b => a.point ≠ b.point :=
  sorted.imp Nat.ne_of_lt

/-- An added point keeps the ring sorted and joins its points. -/
theorem ringAddPoint_spec {qsort : Qsort} {grown : Bool} {p : Chp} {r next : Chring}
    (sorted : Sorted r.array) (apart : ∀ q ∈ r.array, q.point ≠ p.point)
    (added : ringAddPoint qsort grown p r = some (.ok next)) :
    Sorted next.array ∧ {q | q ∈ next.array} = insert p {q | q ∈ r.array} := by
  rw [ringAddPoint_ok added]
  constructor
  · refine qsort.sorted_of_apart (List.pairwise_append.mpr ⟨sorted.apart, ?_, ?_⟩)
    · exact List.pairwise_singleton _ _
    · intro q member other same
      rw [List.mem_singleton.mp same]
      exact apart q member
  · ext q
    simp only [Set.mem_ofPred_eq, (qsort.perm _).mem_iff, List.mem_append, List.mem_singleton,
      Set.mem_insert_iff]
    exact or_comm

/-- A deleted point keeps the ring sorted and leaves its points. -/
theorem ringDelPoint_spec {p : Chp} {index : Nat} {r : Chring} (sorted : Sorted r.array)
    (element : r.array[index]? = some p) :
    Sorted (ringDelPoint index r).array ∧
      {q | q ∈ (ringDelPoint index r).array} = {q | q ∈ r.array} \ {p} := by
  obtain ⟨inside, isPoint⟩ := List.getElem?_eq_some_iff.mp element
  rw [ringDelPoint_array inside]
  refine ⟨sorted.sublist (List.eraseIdx_sublist _ _), ?_⟩
  ext q
  rw [Set.mem_sdiff, Set.mem_singleton_iff, Set.mem_ofPred_eq, Set.mem_ofPred_eq,
    List.mem_eraseIdx_iff_getElem]
  constructor
  · rintro ⟨i, iInside, isOther, rfl⟩
    refine ⟨List.getElem_mem iInside, fun same => isOther ?_⟩
    exact (List.Nodup.getElem_inj_iff sorted.nodup).mp (same.trans isPoint.symm)
  · rintro ⟨member, differ⟩
    obtain ⟨i, iInside, rfl⟩ := List.getElem_of_mem member
    refine ⟨i, iInside, ?_, rfl⟩
    rintro rfl
    exact differ isPoint

/-- What a ring that was built is: sorted, with the points that were added and not deleted. -/
structure Built (r : Chring) (points : Set Chp) : Prop where
  sorted : Sorted r.array
  points : {p | p ∈ r.array} = points

/-- The search in a ring with points comes back with the owner among them. -/
theorem Built.find {r : Chring} {points : Set Chp} (built : Built r points)
    (used : points.Nonempty) (point : Nat) :
    ∃ owner, ringGetPoint2 point r = some (.ok owner) ∧
      ConsistentHash.Owner Chp.point points point owner := by
  rcases ringGetPoint2_spec built.sorted point with ⟨empty, _⟩ | ⟨owner, found, owned⟩
  · obtain ⟨p, member⟩ := used
    rw [← built.points, Set.mem_ofPred_eq, empty] at member
    exact absurd member List.not_mem_nil
  · exact ⟨owner, found, built.points ▸ owned⟩

theorem ringStep_built {qsort : Qsort} {r next : Chring} {points : Set Chp} {op : RingOp}
    (built : Built r points) (apart : Apart r op) (stepped : ringStep qsort r op = some next) :
    Built next (pointsAfter points op) := by
  cases op with
  | add p =>
    simp only [ringStep] at stepped
    split at stepped
    · next result added =>
      cases stepped
      obtain ⟨sorted, points⟩ := ringAddPoint_spec built.sorted apart added
      exact ⟨sorted, points.trans (congrArg (insert p) built.points)⟩
    · cases stepped
  | del p index =>
    simp only [ringStep] at stepped
    split at stepped
    · next element =>
      cases stepped
      obtain ⟨sorted, points⟩ := ringDelPoint_spec built.sorted element
      exact ⟨sorted, points.trans (congrArg (· \ {p}) built.points)⟩
    · cases stepped

/-- A ring that is built by adding points that are apart and deleting points. -/
theorem run_built {qsort : Qsort} {ops : List RingOp} {r final : Chring} {points : Set Chp}
    (built : Built r points) (apart : Transition.Guarded (ringStep qsort) Apart r ops)
    (reached : Transition.run (ringStep qsort) r ops = some final) :
    Built final (ops.foldl pointsAfter points) := by
  induction ops generalizing r points with
  | nil =>
    cases reached
    exact built
  | cons op rest inductionHypothesis =>
    obtain ⟨next, stepped, tail⟩ := Transition.run_cons_eq_some.mp reached
    exact inductionHypothesis (ringStep_built built apart.1 stepped) (apart.2 next stepped) tail

/-- Adding a point moves only values that the point takes, and deleting a point moves only the
values that belonged to it. -/
theorem ring_moves_only_its_own (qsort : Qsort) (alloc gid : U32) (ops : List RingOp)
    (final : Chring)
    (apart : Transition.Guarded (ringStep qsort) Apart (ringAlloc alloc gid) ops)
    (reached : Transition.run (ringStep qsort) (ringAlloc alloc gid) ops = some final) :
    Sorted final.array ∧ {p | p ∈ final.array} = ops.foldl pointsAfter ∅ ∧
      (∀ p next point, Apart final (.add p) → ringStep qsort final (.add p) = some next →
        ∃ answer, ringGetPoint2 point next = some answer ∧
          (ringGetPoint2 point final = some answer ∨ answer = .ok p)) ∧
      ∀ p index next point, ringStep qsort final (.del p index) = some next →
        ∃ answer, ringGetPoint2 point final = some answer ∧
          (ringGetPoint2 point next = some answer ∨ answer = .ok p) := by
  have initial : Built (ringAlloc alloc gid) ∅ :=
    ⟨List.Pairwise.nil, Set.eq_empty_of_forall_notMem fun _ => List.not_mem_nil⟩
  have built := run_built initial apart reached
  refine ⟨built.sorted, built.points, ?_, ?_⟩
  · intro p next point differs stepped
    have after := ringStep_built ⟨built.sorted, rfl⟩ differs stepped
    obtain ⟨owner, found, owned⟩ := after.find (Set.insert_nonempty _ _) point
    refine ⟨.ok owner, found, ?_⟩
    rcases Set.eq_empty_or_nonempty {q | q ∈ final.array} with empty | used
    · have points := owned.mem
      rw [pointsAfter, empty] at points
      rcases points with rfl | absent
      · exact Or.inr rfl
      · exact absurd absent (Set.notMem_empty _)
    · obtain ⟨before, foundBefore, ownedBefore⟩ := Built.find ⟨built.sorted, rfl⟩ used point
      rcases owned.of_insert built.sorted.injOn ownedBefore with rfl | rfl
      · exact Or.inr rfl
      · exact Or.inl foundBefore
  · intro p index next point stepped
    have after := @ringStep_built _ _ _ _ (.del p index) ⟨built.sorted, rfl⟩ trivial stepped
    have used : {q | q ∈ final.array}.Nonempty := by
      simp only [ringStep] at stepped
      split at stepped
      · next element => exact ⟨p, List.mem_of_getElem? element⟩
      · cases stepped
    obtain ⟨before, foundBefore, ownedBefore⟩ := Built.find ⟨built.sorted, rfl⟩ used point
    refine ⟨.ok before, foundBefore, ?_⟩
    by_cases deleted : before = p
    · exact Or.inr (congrArg _ deleted)
    · have kept : before ∈ pointsAfter {q | q ∈ final.array} (.del p index) :=
        ⟨ownedBefore.mem, deleted⟩
      obtain ⟨owner, found, owned⟩ := after.find ⟨before, kept⟩ point
      rw [ConsistentHash.Owner.of_remove built.sorted.injOn Set.sdiff_subset ownedBefore kept owned]
        at found
      exact Or.inl found

/-- A point where only the place matters. -/
def chpAt (point : Nat) : Chp := ⟨point, 0, 0, 0⟩

/-- A ring with two points left of three. -/
theorem ring_moves_only_its_own_three :
    Transition.run (ringStep insertionQsort) (ringAlloc 0 0)
        [.add (chpAt 5), .add (chpAt 3), .add (chpAt 9), .del (chpAt 5) 1] =
      some ⟨32, 0, [chpAt 3, chpAt 9]⟩ ∧ Sorted [chpAt 3, chpAt 9] := by
  have first : ringStep insertionQsort (ringAlloc 0 0) (.add (chpAt 5)) =
      some ⟨32, 0, [chpAt 5]⟩ := rfl
  have second : ringStep insertionQsort ⟨32, 0, [chpAt 5]⟩ (.add (chpAt 3)) =
      some ⟨32, 0, [chpAt 3, chpAt 5]⟩ := rfl
  have third : ringStep insertionQsort ⟨32, 0, [chpAt 3, chpAt 5]⟩ (.add (chpAt 9)) =
      some ⟨32, 0, [chpAt 3, chpAt 5, chpAt 9]⟩ := rfl
  have last : ringStep insertionQsort ⟨32, 0, [chpAt 3, chpAt 5, chpAt 9]⟩ (.del (chpAt 5) 1) =
      some ⟨32, 0, [chpAt 3, chpAt 9]⟩ := rfl
  refine ⟨rfl, (ring_moves_only_its_own insertionQsort 0 0
    [.add (chpAt 5), .add (chpAt 3), .add (chpAt 9), .del (chpAt 5) 1]
    ⟨32, 0, [chpAt 3, chpAt 9]⟩ ?_ rfl).1⟩
  exact .cons (by simp [Apart, ringAlloc]) first <| .cons (by simp [Apart, chpAt]) second <|
    .cons (by simp [Apart, chpAt]) third <| .cons trivial last trivial

end Hvfs
