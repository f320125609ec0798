/-
This file determines when `cbht_enlarge_dir` doubles a directory whose segments
have one length allocated, with the lengths of the function in 32 bits.

The search for the segment to begin with stops at the first one that has all slots
that are left, so behind it nothing but empty segments can follow; the loop then
never gets to the end of the list.
-/

import Hvfs.CbhtAlloc

namespace Hvfs

/-! ### The lengths in 32 bits -/

/-- `(1 << d)` of an `int`, as a `u32`. `beyond`: the shifts by 32 and more, which C leaves open. -/
def oneShifted (beyond : Nat → U32) (d : Nat) : U32 := if d < 32 then 1#32 <<< d else beyond d

namespace Word

/-- `cbht_enlarge_dir`. In its loop nothing is taken off a length that is not there. -/
def cbhtEnlargeDir (beyond : Nat → U32) (fuel : Nat) (t : Cbht) (tdepth : Nat) :
    Except Stop (Int × Cbht) :=
  if tdepth ≤ t.dirDepth then .ok (0, t)
  else
    let nlen := oneShifted beyond t.dirDepth
    match enlargeFrom nlen t.dir with
    | none => .ok (-EINVAL, t)
    | some c =>
      match enlargeLoop fuel c 0 nlen.toNat with
      | .error stop => .error stop
      | .ok c => .ok (0, { t with dir := c.dir, dirDepth := t.dirDepth + 1 })

end Word

/-! ### Directories in segments -/

/-- The segments of a directory with `total` slots: all have the same power of two allocated, and
those in front of another one are full. -/
structure Segmented (dir : List Segment) (total : Nat) : Prop where
  contig : Contig 0 dir total
  common : ∃ a < 32, ∀ s ∈ dir, s.alen = 2 ^ a
  full : ∀ s ∈ dir.dropLast, s.len = s.alen
  fits : ∀ s ∈ dir, s.len ≤ s.alen

/-- The call returns with the directory twice, one deeper. -/
def Doubles (beyond : Nat → U32) (t : Cbht) (tdepth : Nat) : Prop :=
  ∃ fuel dir, Word.cbhtEnlargeDir beyond fuel t tdepth =
      .ok (0, { t with dir, dirDepth := t.dirDepth + 1 }) ∧
    Contig 0 dir (2 ^ (t.dirDepth + 1)) ∧
    ∀ j < 2 ^ (t.dirDepth + 1), dirEntry dir j = dirEntry t.dir (j % 2 ^ t.dirDepth)

/-- The number of slots of the segments. -/
def dirLength (dir : List Segment) : Nat := (dir.map Segment.len).sum

section Lengths

variable {dir front : List Segment} {s : Segment} {start stop : Nat}

theorem Contig.stop_eq (contig : Contig start dir stop) : stop = start + dirLength dir := by
  induction dir generalizing start with
  | nil => exact contig.symm
  | cons s rest inductionHypothesis =>
    rw [inductionHypothesis contig.2]
    unfold dirLength
    rw [List.map_cons, List.sum_cons, Nat.add_assoc]

theorem DirCursor.length (c : DirCursor) :
    dirLength c.dir = dirLength c.front + c.ss.len + dirLength c.behind := by
  unfold DirCursor.dir dirLength
  rw [List.map_append, List.map_cons, List.sum_append, List.sum_cons, Nat.add_assoc]

/-- The loop makes the directory as much longer as it is told. -/
theorem enlargeLoop_length {fuel offset nlen : Nat} {c last : DirCursor}
    (ran : enlargeLoop fuel c offset nlen = .ok last) :
    dirLength last.dir = dirLength c.dir + nlen := by
  induction fuel generalizing c offset nlen with
  | zero => cases ran
  | succ fuel inductionHypothesis =>
    unfold enlargeLoop at ran
    by_cases finished : nlen = 0
    · rw [if_pos finished] at ran
      cases ran
      rw [finished, Nat.add_zero]
    · rw [if_neg finished] at ran
      simp only at ran
      have within : min (c.ss.alen - c.ss.len) nlen ≤ nlen := Nat.min_le_right _ _
      generalize min (c.ss.alen - c.ss.len) nlen = olen at ran within
      have written : (if olen = 0 then c.ss else fillSegment c.ss c.dir offset olen).len =
          c.ss.len + olen := by
        split_ifs with none
        · rw [none, Nat.add_zero]
        · rfl
      generalize (if olen = 0 then c.ss else fillSegment c.ss c.dir offset olen) = ss at ran written
      by_cases more : nlen - olen ≠ 0 ∧ c.behind = []
      · rw [if_pos more] at ran
        have front : dirLength (c.front ++ [ss]) = dirLength c.front + ss.len := by
          unfold dirLength
          rw [List.map_append, List.sum_append]
          rfl
        have new : dirLength [] = 0 := rfl
        rw [inductionHypothesis ran, DirCursor.length, DirCursor.length c, more.2]
        simp only [front, written, mdsSegmentInit, new]
        omega
      · rw [if_neg more] at ran
        rw [inductionHypothesis ran, DirCursor.length, DirCursor.length c]
        simp only [written]
        omega

end Lengths

/-! ### The search -/

section Search

variable {dir front behind : List Segment} {start stop olen : Nat} {c : DirCursor}

theorem oneShifted_toNat {beyond : Nat → U32} {d : Nat} (shallow : d < 32) :
    (oneShifted beyond d).toNat = 2 ^ d := by
  rw [oneShifted, if_pos shallow, Word.one_shiftLeft shallow]

/-- The search gives back the directory around the segment that it finds. -/
theorem Word.enlargeFrom_dir {left : U32} (found : Word.enlargeFrom left dir = some c) :
    c.dir = dir := by
  induction dir generalizing left c with
  | nil => cases found
  | cons s rest inductionHypothesis =>
    rw [Word.enlargeFrom] at found
    split_ifs at found with whole
    · cases found
      rfl
    · obtain ⟨behind, later, rfl⟩ := Option.map_eq_some_iff.mp found
      have same := inductionHypothesis later
      unfold DirCursor.dir at same ⊢
      rw [List.cons_append, same]

/-- Segments behind the one that is found do not change the search. -/
theorem enlargeFrom_append (found : enlargeFrom olen dir = some c) :
    enlargeFrom olen (dir ++ behind) = some { c with behind := c.behind ++ behind } := by
  induction dir generalizing olen c with
  | nil => cases found
  | cons s rest inductionHypothesis =>
    rw [List.cons_append, enlargeFrom]
    rw [enlargeFrom] at found
    split_ifs at found ⊢ with whole
    · cases found
      rfl
    · obtain ⟨later, laterFound, rfl⟩ := Option.map_eq_some_iff.mp found
      rw [inductionHypothesis laterFound]
      rfl

/-- In front of the end of the list the loop goes nowhere once its segment is full. -/
theorem enlargeLoop_stuck {fuel offset nlen : Nat} (full : c.ss.len = c.ss.alen)
    (middle : c.behind ≠ []) (left : nlen ≠ 0) (last : DirCursor) :
    enlargeLoop fuel c offset nlen ≠ .ok last := by
  intro ran
  have stuck := Alloc.enlargeLoop_none ran
  rw [Alloc.enlargeLoop_stuck full middle left] at stuck
  cases stuck

end Search

/-! ### Doubling -/

section Double

variable {beyond : Nat → U32} {t : Cbht} {tdepth : Nat}

theorem Segmented.exists_last {dir : List Segment} {total : Nat} (segmented : Segmented dir total)
    (nonzero : total ≠ 0) : ∃ front ss, dir = front ++ [ss] := by
  rcases List.eq_nil_or_concat dir with empty | ⟨front, ss, shape⟩
  · have contig := segmented.contig
    rw [empty] at contig
    exact absurd contig.symm nonzero
  · exact ⟨front, ss, by rw [shape, List.concat_eq_append]⟩

/-- A directory without empty segments is doubled. -/
theorem doubles_of_filled (segmented : Segmented t.dir (2 ^ t.dirDepth))
    (deeper : t.dirDepth < tdepth) (shallow : t.dirDepth < 32) (filled : ∀ s ∈ t.dir, 0 < s.len) :
    Doubles beyond t tdepth := by
  have layout : Layout t.dir (2 ^ t.dirDepth) :=
    ⟨segmented.contig, fun s member => ⟨filled s member, segmented.fits s member⟩⟩
  obtain ⟨dir, enlarged, after, entries⟩ := cbhtEnlargeDir_spec layout deeper
  refine ⟨2 * 1 <<< t.dirDepth + 2, dir, ?_, after.contig, entries⟩
  have length : (oneShifted beyond t.dirDepth).toNat = 2 ^ t.dirDepth := oneShifted_toNat shallow
  have search := Word.enlargeFrom_eq segmented.contig length
  rw [Nat.sub_zero] at search
  rw [Word.cbhtEnlargeDir]
  rw [cbhtEnlargeDir] at enlarged
  simp only [search, length]
  rw [Nat.one_shiftLeft] at enlarged ⊢
  exact enlarged

/-- A call that doubles has found a segment, and its loop has ended. -/
theorem Word.cbhtEnlargeDir_ok {fuel : Nat} {final : Cbht} (deeper : t.dirDepth < tdepth)
    (enlarged : Word.cbhtEnlargeDir beyond fuel t tdepth = .ok (0, final)) :
    ∃ c last, Word.enlargeFrom (oneShifted beyond t.dirDepth) t.dir = some c ∧
      enlargeLoop fuel c 0 (oneShifted beyond t.dirDepth).toNat = .ok last ∧
      final.dir = last.dir := by
  rw [Word.cbhtEnlargeDir, if_neg (not_le.mpr deeper)] at enlarged
  simp only at enlarged
  rcases search : Word.enlargeFrom (oneShifted beyond t.dirDepth) t.dir with _ | c
  · rw [search] at enlarged
    cases enlarged
  · rw [search] at enlarged
    simp only at enlarged
    rcases loop : enlargeLoop fuel c 0 (oneShifted beyond t.dirDepth).toNat with stop | last
    · rw [loop] at enlarged
      cases enlarged
    · rw [loop] at enlarged
      cases enlarged
      exact ⟨c, last, rfl, loop, rfl⟩

/-- The search in a directory with an empty last segment finds the segment in front of it. -/
theorem Segmented.search_of_empty {front : List Segment} {ss : Segment} {total : Nat}
    (segmented : Segmented (front ++ [ss]) total) (nonzero : total ≠ 0) (empty : ss.len = 0) :
    ∃ c, enlargeFrom total (front ++ [ss]) = some c ∧ c.ss.len = c.ss.alen ∧ c.behind ≠ [] := by
  obtain ⟨a, -, common⟩ := segmented.common
  have full : ∀ s ∈ front, s.len = s.alen := fun s member =>
    segmented.full s (by rw [List.dropLast_concat]; exact member)
  obtain ⟨middle, contigFront, -, total⟩ := contig_append.mp segmented.contig
  have total : middle + ss.len = _ := total
  rw [empty, Nat.add_zero] at total
  rw [total] at contigFront
  rcases List.eq_nil_or_concat front with none | ⟨before, f, shape⟩
  · rw [none] at contigFront
    exact absurd contigFront.symm nonzero
  · rw [List.concat_eq_append] at shape
    have filled : ∀ s ∈ front, 0 < s.len ∧ s.len ≤ s.alen := by
      intro s member
      rw [full s member, common s (List.mem_append_left _ member)]
      exact ⟨Nat.two_pow_pos a, le_refl _⟩
    have fullLast : f.len = f.alen := full f (by rw [shape]; simp)
    rw [shape] at contigFront filled ⊢
    have found := enlargeFrom_eq contigFront filled
    rw [Nat.sub_zero] at found
    exact ⟨_, enlargeFrom_append found, fullLast, List.cons_ne_nil _ _⟩

/-- A directory with an empty segment is not doubled: the loop does not end. -/
theorem not_doubles_of_empty (segmented : Segmented t.dir (2 ^ t.dirDepth))
    (deeper : t.dirDepth < tdepth) (shallow : t.dirDepth < 32) {s : Segment} (member : s ∈ t.dir)
    (empty : s.len = 0) : ¬Doubles beyond t tdepth := by
  rintro ⟨fuel, dir, enlarged, -⟩
  have nonzero : 2 ^ t.dirDepth ≠ 0 := Nat.ne_of_gt (Nat.two_pow_pos _)
  obtain ⟨front, ss, shape⟩ := segmented.exists_last nonzero
  have last : ss.len = 0 := by
    rw [shape] at member
    rcases List.mem_append.mp member with before | here
    · obtain ⟨a, -, common⟩ := segmented.common
      have full := segmented.full s (by rw [shape, List.dropLast_concat]; exact before)
      rw [common s (by rw [shape]; exact member), empty] at full
      exact absurd full.symm (Nat.ne_of_gt (Nat.two_pow_pos a))
    · rw [← List.mem_singleton.mp here]
      exact empty
  rw [shape] at segmented
  obtain ⟨c, found, full, middle⟩ := segmented.search_of_empty nonzero last
  obtain ⟨other, final, search, loop, -⟩ := Word.cbhtEnlargeDir_ok deeper enlarged
  have length : (oneShifted beyond t.dirDepth).toNat = 2 ^ t.dirDepth := oneShifted_toNat shallow
  have sameSearch := Word.enlargeFrom_eq segmented.contig length
  rw [Nat.sub_zero, found, ← shape, search] at sameSearch
  rw [Option.some.inj sameSearch, length] at loop
  exact enlargeLoop_stuck full middle nonzero final loop

/-- A directory with more slots than 32 bits count is not doubled. -/
theorem not_doubles_of_deep (segmented : Segmented t.dir (2 ^ t.dirDepth))
    (deeper : t.dirDepth < tdepth) (deep : 32 ≤ t.dirDepth) : ¬Doubles beyond t tdepth := by
  rintro ⟨fuel, dir, enlarged, contig, -⟩
  obtain ⟨c, last, search, loop, same⟩ := Word.cbhtEnlargeDir_ok deeper enlarged
  have before := segmented.contig.stop_eq
  have after := contig.stop_eq
  have same : dir = last.dir := same
  rw [same, enlargeLoop_length loop, Word.enlargeFrom_dir search, Nat.pow_succ] at after
  have bound := (oneShifted beyond t.dirDepth).isLt
  have many : 2 ^ 32 ≤ 2 ^ t.dirDepth := Nat.pow_le_pow_right (by decide) deep
  omega

end Double

/-! ### Every directory in segments -/

/-- For a directory whose segments have one power of two allocated and are full but for the last,
`cbht_enlarge_dir` returns with the directory twice exactly when its slots can be counted in 32 bits
and no segment is empty. -/
theorem cbht_enlarge_dir_doubles (beyond : Nat → U32) {t : Cbht} {tdepth : Nat}
    (segmented : Segmented t.dir (2 ^ t.dirDepth)) (deeper : t.dirDepth < tdepth) :
    Doubles beyond t tdepth ↔ t.dirDepth < 32 ∧ ∀ s ∈ t.dir, s.len ≠ 0 := by
  constructor
  · intro doubles
    have shallow : t.dirDepth < 32 := by
      by_contra deep
      exact not_doubles_of_deep segmented deeper (not_lt.mp deep) doubles
    refine ⟨shallow, fun s member empty => ?_⟩
    exact not_doubles_of_empty segmented deeper shallow member empty doubles
  · rintro ⟨shallow, filled⟩
    exact doubles_of_filled segmented deeper shallow fun s member =>
      Nat.pos_of_ne_zero (filled s member)

/-- Two full segments are doubled. -/
theorem cbht_enlarge_dir_doubles_two : Doubles (fun _ => 0) twoSegments 16 := by
  have segmented : Segmented twoSegments.dir (2 ^ twoSegments.dirDepth) :=
    ⟨twoSegments_uniform.layout.contig, ⟨14, by decide, twoSegments_uniform.common⟩,
      fun s member => (twoSegments_uniform.full s member).trans
        (twoSegments_uniform.common s (List.mem_of_mem_dropLast member)).symm,
      fun s member => (twoSegments_uniform.layout.filled s member).2⟩
  refine (cbht_enlarge_dir_doubles (fun _ => 0) segmented (by decide)).mpr ⟨by decide, ?_⟩
  exact fun s member => Nat.ne_of_gt (twoSegments_uniform.layout.filled s member).1

/-- A directory of two segments of this length, the second one filled up to `len`. -/
def twoParts (alen len dirDepth : Nat) : Cbht :=
  { twoSegments with
    dir := [⟨0, alen, alen, fun _ => some 0⟩, ⟨alen, len, alen, fun _ => some 0⟩]
    dirDepth }

theorem twoParts_segmented {a len dirDepth : Nat} (bound : a < 32) (fits : len ≤ 2 ^ a)
    (total : 2 ^ a + len = 2 ^ dirDepth) :
    Segmented (twoParts (2 ^ a) len dirDepth).dir
      (2 ^ (twoParts (2 ^ a) len dirDepth).dirDepth) where
  contig := ⟨rfl, Nat.zero_add _ |>.symm, by rw [Nat.zero_add]; exact total⟩
  common := by
    refine ⟨a, bound, fun s member => ?_⟩
    rcases List.mem_pair.mp member with rfl | rfl
    · rfl
    · rfl
  full s member := by
    rw [List.mem_singleton.mp member]
  fits s member := by
    rcases List.mem_pair.mp member with rfl | rfl
    · exact le_refl _
    · exact fits

/-- Behind a full segment there is an empty one: the loop does not end. With `2 ^ 32` slots the
lengths do not fit. -/
theorem cbht_enlarge_dir_loops :
    (Segmented (twoParts (2 ^ 0) 0 0).dir (2 ^ (twoParts (2 ^ 0) 0 0).dirDepth) ∧
      ∀ beyond, ¬Doubles beyond (twoParts (2 ^ 0) 0 0) 1) ∧
    Segmented (twoParts (2 ^ 31) (2 ^ 31) 32).dir (2 ^ (twoParts (2 ^ 31) (2 ^ 31) 32).dirDepth) ∧
      ∀ beyond, ¬Doubles beyond (twoParts (2 ^ 31) (2 ^ 31) 32) 33 := by
  have empty := @twoParts_segmented 0 0 0 (by decide) (by decide) (by decide)
  have deep := @twoParts_segmented 31 (2 ^ 31) 32 (by decide) (le_refl _) (by decide)
  refine ⟨⟨empty, fun beyond => ?_⟩, deep, fun beyond => ?_⟩
  · have last : (⟨1, 0, 1, fun _ => some 0⟩ : Segment) ∈ (twoParts (2 ^ 0) 0 0).dir :=
      List.mem_cons_of_mem _ (List.mem_singleton_self _)
    exact not_doubles_of_empty empty (by decide) (by decide) last rfl
  · exact not_doubles_of_deep deep (by decide) (by decide)

end Hvfs
