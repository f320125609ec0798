/-
This file determines when `mds_get_itbid` finds the deepest ITB that exists.

The deepest one is at the longest tail of the offset whose bit is set. The
function shortens the offset from the top too, but `mds_bitmap_fallback` sees only
the low 32 bits: once these are used up it returns 0, and so the tails between
the high bits and the low ones are left out.
-/

import Hvfs.ItbidEnds
import Mathlib.Data.Nat.Find

namespace Hvfs

/-! ### Complete slices -/

/-- The slices follow each other from an offset on, and only the last one has `BITMAP_END`. -/
inductive SlicesFrom : Nat → List Itbitmap → Prop
  | last {start : Nat} {b : Itbitmap} (place : b.offset.toNat = start)
      (ends : Flag.has b.flag BITMAP_END = true) : SlicesFrom start [b]
  | cons {start : Nat} {b : Itbitmap} {rest : List Itbitmap} (place : b.offset.toNat = start)
      (goesOn : Flag.has b.flag BITMAP_END = false)
      (follow : SlicesFrom (start + XTABLE_BITMAP_SIZE) rest) : SlicesFrom start (b :: rest)

/-- One of the slices has the bit of this offset, and it is set. -/
def BitAt (slices : List Itbitmap) (offset : Nat) : Prop :=
  ∃ b ∈ slices, b.offset.toNat ≤ offset ∧ offset < b.offset.toNat + XTABLE_BITMAP_SIZE ∧
    testBit (offset - b.offset.toNat) b.array = true

/-- All slices of a directory are there, and its first ITB exists. -/
structure CompleteSlices (slices : List Itbitmap) : Prop where
  follow : SlicesFrom 0 slices
  first : BitAt slices 0

variable {slices : List Itbitmap} {start : Nat}

/-- Nothing before the first slice is covered. -/
theorem not_bitAt_before (follow : SlicesFrom start slices) {offset : Nat}
    (before : offset < start) : ¬BitAt slices offset := by
  induction follow with
  | last place ends =>
    rintro ⟨b, member, lower, -⟩
    rw [List.mem_singleton.mp member] at lower
    omega
  | cons place goesOn follow inductionHypothesis =>
    rintro ⟨b, member, lower, bit⟩
    rcases List.mem_cons.mp member with rfl | member
    · omega
    · exact inductionHypothesis (by omega) ⟨b, member, lower, bit⟩

/-- In complete slices the walk finds the bit or falls back; it misses no slice. -/
theorem itbidWalk_of_follow (follow : SlicesFrom start slices) (offset : U64)
    (inside : start ≤ offset.toNat) :
    BitAt slices offset.toNat ∧ itbidWalk offset slices = .found ∨
      ¬BitAt slices offset.toNat ∧ itbidWalk offset slices = .fall := by
  induction follow with
  | @last start b place ends =>
    rw [itbidWalk]
    by_cases covers : b.Covers offset
    · rw [if_pos covers]
      by_cases set : mdsBitmapLookup b offset = true
      · rw [if_pos set]
        exact Or.inl ⟨⟨b, List.mem_singleton_self b, covers.1, covers.2, set⟩, rfl⟩
      · rw [if_neg set]
        refine Or.inr ⟨?_, rfl⟩
        rintro ⟨other, member, -, -, bit⟩
        rw [List.mem_singleton.mp member] at bit
        exact set bit
    · have beyond : ¬b.offset.toNat > offset.toNat := by omega
      rw [if_neg covers, if_neg beyond, if_pos ends]
      refine Or.inr ⟨?_, rfl⟩
      rintro ⟨other, member, lower, upper, -⟩
      rw [List.mem_singleton.mp member] at lower upper
      exact covers ⟨lower, upper⟩
  | @cons start b rest place goesOn follow inductionHypothesis =>
    rw [itbidWalk]
    by_cases covers : b.Covers offset
    · rw [if_pos covers]
      by_cases set : mdsBitmapLookup b offset = true
      · rw [if_pos set]
        exact Or.inl ⟨⟨b, List.mem_cons_self, covers.1, covers.2, set⟩, rfl⟩
      · rw [if_neg set]
        refine Or.inr ⟨?_, rfl⟩
        have upper : offset.toNat < start + XTABLE_BITMAP_SIZE := by
          rw [← place]
          exact covers.2
        rintro ⟨other, member, found⟩
        rcases List.mem_cons.mp member with rfl | member
        · exact set found.2.2
        · exact not_bitAt_before follow upper ⟨other, member, found⟩
    · have beyond : ¬b.offset.toNat > offset.toNat := by omega
      have later : start + XTABLE_BITMAP_SIZE ≤ offset.toNat := by
        by_contra within
        exact covers ⟨by omega, by omega⟩
      rw [if_neg covers, if_neg beyond, goesOn, if_neg Bool.false_ne_true]
      rcases inductionHypothesis later with ⟨⟨other, member, found⟩, walk⟩ | ⟨clear, walk⟩
      · exact Or.inl ⟨⟨other, List.mem_cons_of_mem b member, found⟩, walk⟩
      · refine Or.inr ⟨?_, walk⟩
        rintro ⟨other, member, found⟩
        rcases List.mem_cons.mp member with rfl | member
        · exact covers ⟨found.1, found.2.1⟩
        · exact clear ⟨other, member, found⟩

/-! ### The deepest place -/

/-- The place at the largest `k` up to 64 whose bit is set. -/
def DeepestAt (slices : List Itbitmap) (place : Nat → Nat) (result : Nat) : Prop :=
  ∃ k ≤ 64, result = place k ∧ BitAt slices (place k) ∧
    ∀ deeper, k < deeper → deeper ≤ 64 → ¬BitAt slices (place deeper)

/-- The deepest ITB that exists for an offset. -/
def DeepestItb (slices : List Itbitmap) (offset : Nat) : Nat → Prop :=
  DeepestAt slices fun k => offset % 2 ^ k

section Deepest

variable {place : Nat → Nat} {result : Nat}

variable (place) in
theorem exists_deepest {k : Nat} (bound : k ≤ 64) (set : BitAt slices (place k)) :
    ∃ result, DeepestAt slices place result := by
  classical
  refine ⟨_, Nat.findGreatest (fun k => BitAt slices (place k)) 64, Nat.findGreatest_le 64, rfl,
    Nat.findGreatest_spec (P := fun k => BitAt slices (place k)) bound set, ?_⟩
  exact fun deeper above within =>
    Nat.findGreatest_is_greatest (P := fun k => BitAt slices (place k)) above within

/-- A set bit at 64 is the deepest. -/
theorem DeepestAt.eq_of_set (deepest : DeepestAt slices place result)
    (set : BitAt slices (place 64)) : result = place 64 := by
  obtain ⟨k, bound, rfl, -, greatest⟩ := deepest
  rcases Nat.lt_or_eq_of_le bound with below | rfl
  · exact absurd set (greatest 64 below le_rfl)
  · rfl

end Deepest

/-! ### Falling back through the low bits -/

theorem sub_log2 {low : Nat} (nonzero : low ≠ 0) :
    low - 2 ^ Nat.log2 low = low % 2 ^ Nat.log2 low := by
  have lower : 2 ^ Nat.log2 low ≤ low := Nat.log2_self_le nonzero
  have upper : low < 2 ^ (Nat.log2 low + 1) := Nat.lt_log2_self
  rw [Nat.mod_eq_sub_mod lower, Nat.mod_eq_of_lt]
  rw [Nat.pow_succ] at upper
  omega

theorem mod_mod_min (low first second : Nat) :
    low % 2 ^ first % 2 ^ second = low % 2 ^ min second first := by
  rcases Nat.le_total second first with within | beyond
  · rw [Nat.min_eq_left within]
    exact Nat.mod_mod_of_dvd low (Nat.pow_dvd_pow 2 within)
  · rw [Nat.min_eq_right beyond]
    have small : low % 2 ^ first < 2 ^ first := Nat.mod_lt _ (Nat.two_pow_pos first)
    exact Nat.mod_eq_of_lt (small.trans_le (Nat.pow_le_pow_right (by decide) beyond))

/-- A tail of more bits than the number has. -/
theorem mod_of_log2_lt {low k : Nat} (longer : Nat.log2 low < k) : low % 2 ^ k = low := by
  have upper : low < 2 ^ (Nat.log2 low + 1) := Nat.lt_log2_self
  exact Nat.mod_eq_of_lt (upper.trans_le (Nat.pow_le_pow_right (by decide) longer))

section Falling

variable {base low result : Nat}

/-- Where the bit of the whole number is clear, no tail is lost with its highest bit. -/
theorem DeepestAt.of_fallback (clear : ¬BitAt slices (base + low))
    (deepest : DeepestAt slices (fun k => base + low % 2 ^ Nat.log2 low % 2 ^ k) result) :
    DeepestAt slices (fun k => base + low % 2 ^ k) result := by
  obtain ⟨k, bound, place, set, greatest⟩ := deepest
  simp only [mod_mod_min] at place set greatest
  refine ⟨min k (Nat.log2 low), (Nat.min_le_left _ _).trans bound, place, set, ?_⟩
  intro deeper above within
  by_cases shorter : deeper ≤ Nat.log2 low
  · have unset := greatest deeper (by omega) within
    rw [Nat.min_eq_left shorter] at unset
    exact unset
  · have whole : low % 2 ^ deeper = low := mod_of_log2_lt (by omega)
    simp only [whole]
    exact clear

theorem not_bitAt_of_fallback (clear : ¬BitAt slices (base + low))
    (none : ∀ k, ¬BitAt slices (base + low % 2 ^ Nat.log2 low % 2 ^ k)) (k : Nat) :
    ¬BitAt slices (base + low % 2 ^ k) := by
  by_cases shorter : k ≤ Nat.log2 low
  · have unset := none k
    rw [mod_mod_min, Nat.min_eq_left shorter] at unset
    exact unset
  · rw [mod_of_log2_lt (by omega)]
    exact clear

end Falling

/-! ### The search -/

section Search

variable {answers : Nat → LoadAnswer} {offset : U64} {loads : Nat}

theorem itbidRun_found (walk : itbidWalk offset slices = .found) (turns : Nat) :
    itbidRun answers (turns + 1) ⟨offset, slices, loads⟩ = some (offset, loads) := by
  rw [itbidRun, itbidTurn, walk]

theorem itbidRun_fall (walk : itbidWalk offset slices = .fall) (turns : Nat) :
    itbidRun answers (turns + 1) ⟨offset, slices, loads⟩ =
      itbidRun answers turns ⟨mdsBitmapFallback offset, slices, loads⟩ := by
  rw [itbidRun, itbidTurn, walk]

/-- More turns do not change the result. -/
theorem itbidRun_mono {s : ItbidSearch} {turns : Nat} {result : U64 × Nat}
    (returned : itbidRun answers turns s = some result) (more : Nat) :
    itbidRun answers (turns + more) s = some result := by
  induction turns generalizing s with
  | zero => cases returned
  | succ turns inductionHypothesis =>
    rw [Nat.succ_add, itbidRun]
    rw [itbidRun] at returned
    rcases turned : itbidTurn (answers s.loads) s with found | next
    · rw [turned] at returned
      exact returned
    · rw [turned] at returned
      exact inductionHypothesis returned

/-- Two searches from the same state have the same result. -/
theorem itbidRun_unique {s : ItbidSearch} {firstTurns secondTurns : Nat} {first second : U64 × Nat}
    (firstReturned : itbidRun answers firstTurns s = some first)
    (secondReturned : itbidRun answers secondTurns s = some second) : first = second := by
  have longer := itbidRun_mono firstReturned secondTurns
  rw [Nat.add_comm, itbidRun_mono secondReturned firstTurns] at longer
  exact (Option.some.inj longer).symm

end Search

/-- In complete slices the search returns the deepest place among the high bits with a tail of the
low 32 bits, or 0 when there is none. -/
theorem search_of_complete (complete : CompleteSlices slices) {base low : Nat} {offset : U64}
    (split : offset.toNat = base + low) (high : 2 ^ 32 ∣ base) (small : low < 2 ^ 32) :
    ∃ turns result, (∀ answers loads,
      itbidRun answers turns ⟨offset, slices, loads⟩ = some (result, loads)) ∧
      (DeepestAt slices (fun k => base + low % 2 ^ k) result.toNat ∨
        result.toNat = 0 ∧ ∀ k, ¬BitAt slices (base + low % 2 ^ k)) := by
  induction low using Nat.strong_induction_on generalizing offset with
  | _ low inductionHypothesis =>
    rcases itbidWalk_of_follow complete.follow offset (Nat.zero_le _) with
      ⟨set, walk⟩ | ⟨clear, walk⟩
    · have whole : low % 2 ^ 64 = low := Nat.mod_eq_of_lt (small.trans (by decide))
      refine ⟨1, offset, fun answers loads => itbidRun_found walk 0,
        Or.inl ⟨64, le_rfl, ?_⟩⟩
      simp only [whole, ← split]
      exact ⟨trivial, set, fun deeper above within => absurd within (by omega)⟩
    · rw [split] at clear
      have lowBits : offset.toNat % 2 ^ 32 = low := by
        rw [split, Nat.add_mod, Nat.mod_eq_zero_of_dvd high, Nat.zero_add, Nat.mod_mod,
          Nat.mod_eq_of_lt small]
      have fallback := mdsBitmapFallback_toNat offset
      rw [lowBits] at fallback
      by_cases zero : low = 0
      · rw [if_pos zero] at fallback
        have atZero : mdsBitmapFallback offset = 0 := BitVec.eq_of_toNat_eq fallback
        have found : itbidWalk 0 slices = .found := by
          rcases itbidWalk_of_follow complete.follow 0 (Nat.zero_le _) with
            ⟨-, walk⟩ | ⟨unset, -⟩
          · exact walk
          · exact absurd complete.first unset
        refine ⟨2, 0, fun answers loads => ?_, Or.inr ⟨rfl, fun k => ?_⟩⟩
        · rw [itbidRun_fall walk, atZero]
          exact itbidRun_found found 0
        · rw [zero] at clear ⊢
          rw [Nat.zero_mod]
          exact clear
      · rw [if_neg zero, split, Nat.add_sub_assoc (Nat.log2_self_le zero),
          sub_log2 zero] at fallback
        have lower : low % 2 ^ Nat.log2 low < low :=
          (Nat.mod_lt _ (Nat.two_pow_pos _)).trans_le (Nat.log2_self_le zero)
        obtain ⟨turns, result, returned, place⟩ :=
          inductionHypothesis _ lower fallback (lower.trans small)
        refine ⟨turns + 1, result, fun answers loads => ?_, ?_⟩
        · rw [itbidRun_fall walk]
          exact returned answers loads
        · rcases place with deepest | ⟨isZero, none⟩
          · exact Or.inl (deepest.of_fallback clear)
          · exact Or.inr ⟨isZero, not_bitAt_of_fallback clear none⟩

/-! ### The deepest ITB -/

/-- The high bits of an offset with a tail of its low 32 bits. -/
def lowTail (offset k : Nat) : Nat := offset / 2 ^ 32 * 2 ^ 32 + offset % 2 ^ 32 % 2 ^ k

/-- The high bits of the offset play no part: there are none, or the bit of the whole offset is set,
or neither a shorter tail nor one below the high bits has its bit set. -/
def LowBitsDecide (slices : List Itbitmap) (offset : Nat) : Prop :=
  offset < 2 ^ 32 ∨ BitAt slices offset ∨
    (∀ k, offset % 2 ^ k ≠ 0 → ¬BitAt slices (offset % 2 ^ k)) ∧
      ∀ k, ¬BitAt slices (lowTail offset k)

section Tails

variable {offset result k : Nat}

theorem lowTail_of_low (low : offset < 2 ^ 32) : lowTail offset k = offset % 2 ^ k := by
  unfold lowTail
  rw [Nat.div_eq_of_lt low, Nat.mod_eq_of_lt low, Nat.zero_mul, Nat.zero_add]

theorem lowTail_whole : lowTail offset 64 = offset := by
  have low : offset % 2 ^ 32 < 2 ^ 32 := Nat.mod_lt _ (by decide)
  unfold lowTail
  rw [Nat.mod_eq_of_lt (low.trans (by decide)), Nat.mul_comm]
  exact Nat.div_add_mod offset (2 ^ 32)

/-- A shorter tail of an offset is below its high bits. -/
theorem tail_lt_high (high : 2 ^ 32 ≤ offset) (shorter : offset % 2 ^ k ≠ offset) :
    offset % 2 ^ k < offset / 2 ^ 32 * 2 ^ 32 := by
  have within : 2 ^ k ≤ offset := by
    by_contra beyond
    exact shorter (Nat.mod_eq_of_lt (by omega))
  have tail : offset % 2 ^ k < 2 ^ k := Nat.mod_lt _ (Nat.two_pow_pos k)
  refine tail.trans_le ?_
  rcases Nat.le_total k 32 with low | beyond
  · have one : 1 * 2 ^ 32 ≤ offset / 2 ^ 32 * 2 ^ 32 :=
      Nat.mul_le_mul_right _ ((Nat.one_le_div_iff (by decide)).mpr high)
    rw [Nat.one_mul] at one
    exact (Nat.pow_le_pow_right (by decide) low).trans one
  · obtain ⟨more, rfl⟩ := Nat.exists_eq_add_of_le beyond
    rw [Nat.pow_add, Nat.mul_comm] at within ⊢
    exact Nat.mul_le_mul_right _ ((Nat.le_div_iff_mul_le (by decide)).mpr within)

/-- Where the high bits play no part, the search has found the deepest ITB. -/
theorem deepest_of_lowBits (first : BitAt slices 0) (bound : offset < 2 ^ 64)
    (place : DeepestAt slices (lowTail offset) result ∨
      result = 0 ∧ ∀ k, ¬BitAt slices (lowTail offset k))
    (decides : LowBitsDecide slices offset) : DeepestItb slices offset result := by
  have shortest : BitAt slices (offset % 2 ^ 0) := by
    rw [Nat.pow_zero, Nat.mod_one]
    exact first
  rcases decides with low | set | ⟨noTail, noLowTail⟩
  · have tails : lowTail offset = fun k => offset % 2 ^ k := funext fun k => lowTail_of_low low
    rw [tails] at place
    rcases place with deepest | ⟨-, none⟩
    · exact deepest
    · exact absurd shortest (none 0)
  · rcases place with deepest | ⟨-, none⟩
    · have found := deepest.eq_of_set (by rw [lowTail_whole]; exact set)
      rw [lowTail_whole] at found
      have whole : offset % 2 ^ 64 = offset := Nat.mod_eq_of_lt bound
      refine ⟨64, le_rfl, ?_⟩
      simp only [whole]
      exact ⟨found, set, fun deeper above within => absurd within (by omega)⟩
    · have clear := none 64
      rw [lowTail_whole] at clear
      exact absurd set clear
  · rcases place with ⟨k, -, -, set, -⟩ | ⟨isZero, -⟩
    · exact absurd set (noLowTail k)
    · obtain ⟨other, deepest⟩ := exists_deepest (fun k => offset % 2 ^ k)
        (Nat.zero_le 64) shortest
      have otherZero : other = 0 := by
        obtain ⟨k, -, rfl, set, -⟩ := deepest
        by_contra nonzero
        exact noTail k nonzero set
      rw [isZero, ← otherZero]
      exact deepest

/-- Where the search has found the deepest ITB, the high bits play no part. -/
theorem lowBits_of_deepest (bound : offset < 2 ^ 64)
    (place : DeepestAt slices (lowTail offset) result ∨
      result = 0 ∧ ∀ k, ¬BitAt slices (lowTail offset k))
    (deepest : DeepestItb slices offset result) : LowBitsDecide slices offset := by
  by_cases low : offset < 2 ^ 32
  · exact Or.inl low
  by_cases set : BitAt slices offset
  · exact Or.inr (Or.inl set)
  obtain ⟨k, -, tail, tailSet, greatest⟩ := deepest
  simp only at tail tailSet greatest
  have shorter : offset % 2 ^ k ≠ offset := by
    intro whole
    rw [whole] at tailSet
    exact set tailSet
  have below := tail_lt_high (Nat.not_lt.mp low) shorter
  rcases place with ⟨other, -, placed, -⟩ | ⟨isZero, noLowTail⟩
  · rw [← tail, placed] at below
    exact absurd below (Nat.not_lt.mpr (Nat.le_add_right _ _))
  · refine Or.inr (Or.inr ⟨fun other nonzero otherSet => ?_, noLowTail⟩)
    rcases Nat.lt_or_ge k other with longer | within
    · by_cases long : other ≤ 64
      · exact greatest other longer long otherSet
      · have whole : offset % 2 ^ other = offset :=
          Nat.mod_eq_of_lt (bound.trans (Nat.pow_lt_pow_right (by decide) (by omega)))
        rw [whole] at otherSet
        exact set otherSet
    · rw [← Nat.mod_mod_of_dvd offset (Nat.pow_dvd_pow 2 within), ← tail, isZero,
        Nat.zero_mod] at nonzero
      exact nonzero rfl

end Tails

/-- `mds_get_itbid` returns without a load, at the deepest place among the high bits with a tail of
the low 32 bits, or 0 when there is none. This is the deepest ITB exactly when the high bits of the
offset play no part. -/
theorem get_itbid_deepest {slices : List Itbitmap} (complete : CompleteSlices slices) (hash : U64) :
    ∃ turns result, (∀ answers, mdsGetItbid answers turns slices hash = some (result, 0)) ∧
      (DeepestAt slices (lowTail (hash >>> ITB_DEPTH).toNat) result.toNat ∨
        result.toNat = 0 ∧ ∀ k, ¬BitAt slices (lowTail (hash >>> ITB_DEPTH).toNat k)) ∧
      (DeepestItb slices (hash >>> ITB_DEPTH).toNat result.toNat ↔
        LowBitsDecide slices (hash >>> ITB_DEPTH).toNat) := by
  have split : (hash >>> ITB_DEPTH).toNat = (hash >>> ITB_DEPTH).toNat / 2 ^ 32 * 2 ^ 32 +
      (hash >>> ITB_DEPTH).toNat % 2 ^ 32 := by
    rw [Nat.mul_comm]
    exact (Nat.div_add_mod _ (2 ^ 32)).symm
  obtain ⟨turns, result, returned, place⟩ := search_of_complete complete split
    (Nat.dvd_mul_left _ _) (Nat.mod_lt _ (by decide))
  refine ⟨turns, result, fun answers => returned answers 0, place, ?_, ?_⟩
  · exact lowBits_of_deepest (BitVec.isLt _) place
  · exact deepest_of_lowBits complete.first (BitVec.isLt _) place

/-- A slice that is the only one, with these bits in its first word. -/
def onlySlice (word : U64) : Itbitmap := ⟨0, BITMAP_END, 0, fun i => if i = 0 then word else 0⟩

theorem bitAt_onlySlice {word : U64} {offset : Nat} (inside : offset < 64)
    (set : word.getLsbD offset = true) : BitAt [onlySlice word] offset := by
  refine ⟨onlySlice word, List.mem_singleton_self _, Nat.zero_le _, ?_, ?_⟩
  · have size : 64 ≤ XTABLE_BITMAP_SIZE := by decide
    exact (inside.trans_le size).trans_le (Nat.le_add_left _ _)
  · have start : (onlySlice word).offset.toNat = 0 := rfl
    unfold testBit
    rw [start, Nat.sub_zero, Nat.div_eq_of_lt inside, Nat.mod_eq_of_lt inside]
    exact set

theorem onlySlice_complete {word : U64} (first : word.getLsbD 0 = true) :
    CompleteSlices [onlySlice word] := by
  have ends : Flag.has BITMAP_END BITMAP_END = true := by decide
  exact ⟨.last rfl ends, bitAt_onlySlice (by decide) first⟩

/-- The ITBs 0, 1 and 3 exist, and the offset is 7: the search falls back to 3. -/
theorem get_itbid_deepest_third :
    CompleteSlices [onlySlice 11] ∧ ∃ turns result,
      (∀ answers, mdsGetItbid answers turns [onlySlice 11] 7168 = some (result, 0)) ∧
        result = 3 ∧ DeepestItb [onlySlice 11] 7 result.toNat := by
  have complete : CompleteSlices [onlySlice 11] := onlySlice_complete (by decide)
  obtain ⟨turns, result, returned, -, deepest⟩ := get_itbid_deepest complete 7168
  have offset : ((7168 : U64) >>> ITB_DEPTH).toNat = 7 := by decide
  have run : mdsGetItbid (fun _ => .noBitmap) 2 [onlySlice 11] 7168 = some (3, 0) := by decide
  have third : result = 3 := (Prod.mk.inj (itbidRun_unique (returned fun _ => .noBitmap) run)).1
  rw [offset] at deepest
  exact ⟨complete, turns, result, returned, third, deepest.mpr (Or.inl (by decide))⟩

/-- The ITBs 0 and 1 exist, and the offset is 2 ^ 32 + 1: the deepest ITB is 1, but the function
returns 0. -/
theorem get_itbid_leaves_tails_out :
    CompleteSlices [onlySlice 3] ∧ ¬∃ turns result,
      (∀ answers, mdsGetItbid answers turns [onlySlice 3] 0x40000000400 = some (result, 0)) ∧
        DeepestItb [onlySlice 3] (0x40000000400#64 >>> ITB_DEPTH).toNat result.toNat := by
  refine ⟨onlySlice_complete (by decide), ?_⟩
  rintro ⟨turns, result, returned, deepest⟩
  have run : mdsGetItbid (fun _ => .noBitmap) 3 [onlySlice 3] 0x40000000400 = some (0, 0) := by
    decide
  have zero : result = 0 := (Prod.mk.inj (itbidRun_unique (returned fun _ => .noBitmap) run)).1
  obtain ⟨k, -, tail, -, greatest⟩ := deepest
  have offset : (0x40000000400#64 >>> ITB_DEPTH).toNat = 2 ^ 32 + 1 := by decide
  simp only [offset] at tail greatest
  rw [zero] at tail
  have none : (2 ^ 32 + 1) % 2 ^ k = 0 := tail.symm
  by_cases shortest : k = 0
  · refine greatest 1 (by omega) (by decide) ?_
    exact bitAt_onlySlice (by decide) (by decide)
  · have odd : (2 ^ 32 + 1) % 2 ^ k % 2 ^ 1 = (2 ^ 32 + 1) % 2 ^ 1 :=
      Nat.mod_mod_of_dvd _ (Nat.pow_dvd_pow 2 (by omega))
    rw [none] at odd
    exact absurd odd (by decide)

end Hvfs
