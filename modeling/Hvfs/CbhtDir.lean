/-
This file proves what the functions on the CBHT's directory do, said of the
directory as one array: `dirEntry dir j` is the pointer in the slot `j`, however
the array is cut into segments.
-/

import Hvfs.Cbht
import Mathlib.Tactic.Common

namespace Hvfs

/-! ### Segments -/

/-- The segments lie one behind the other from `start` to `stop`. -/
def Contig : Nat → List Segment → Nat → Prop
  | start, [], stop => start = stop
  | start, s :: rest, stop => s.offset = start ∧ Contig (start + s.len) rest stop

/-- The segments of a directory with `total` slots. -/
structure Layout (dir : List Segment) (total : Nat) : Prop where
  contig : Contig 0 dir total
  filled : ∀ s ∈ dir, 0 < s.len ∧ s.len ≤ s.alen

section Segments

variable {dir rest front : List Segment} {s : Segment} {start stop middle : Nat}

theorem Contig.le (contig : Contig start dir stop) : start ≤ stop := by
  induction dir generalizing start with
  | nil => exact le_of_eq contig
  | cons s rest inductionHypothesis =>
    exact le_trans (Nat.le_add_right _ _) (inductionHypothesis contig.2)

theorem contig_append :
    Contig start (front ++ rest) stop ↔
      ∃ middle, Contig start front middle ∧ Contig middle rest stop := by
  induction front generalizing start with
  | nil => exact ⟨fun contig => ⟨start, rfl, contig⟩, fun ⟨_, same, contig⟩ => same ▸ contig⟩
  | cons s front inductionHypothesis =>
    rw [List.cons_append, Contig, inductionHypothesis]
    constructor
    · rintro ⟨offset, middle, first, second⟩
      exact ⟨middle, ⟨offset, first⟩, second⟩
    · rintro ⟨middle, ⟨offset, first⟩, second⟩
      exact ⟨offset, middle, first, second⟩

theorem dirEntry_cons (s : Segment) (rest : List Segment) (j : Nat) :
    dirEntry (s :: rest) j =
      if s.offset ≤ j ∧ j < s.offset + s.len then s.seg (j - s.offset) else dirEntry rest j := by
  unfold dirEntry
  by_cases inside : s.offset ≤ j ∧ j < s.offset + s.len
  · rw [if_pos inside, List.find?_cons_of_pos]
    · rfl
    · simpa using inside
  · rw [if_neg inside, List.find?_cons_of_neg]
    simpa using inside

theorem dirEntry_append (contig : Contig start front middle) {j : Nat} (low : start ≤ j) :
    dirEntry (front ++ rest) j = if j < middle then dirEntry front j else dirEntry rest j := by
  induction front generalizing start with
  | nil =>
    cases contig
    rw [if_neg (not_lt.mpr low), List.nil_append]
  | cons s front inductionHypothesis =>
    obtain ⟨offset, contig⟩ := contig
    have high := contig.le
    rw [List.cons_append, dirEntry_cons, dirEntry_cons, offset]
    by_cases inside : start ≤ j ∧ j < start + s.len
    · rw [if_pos inside, if_pos inside, if_pos (lt_of_lt_of_le inside.2 high)]
    · rw [if_neg inside, if_neg inside]
      exact inductionHypothesis contig (not_lt.mp fun less => inside ⟨low, less⟩)

/-- The slots of the last segment and those before it. -/
theorem dirEntry_last (contig : Contig 0 front s.offset) {j : Nat} (high : j < s.offset + s.len) :
    dirEntry (front ++ [s]) j =
      if j < s.offset then dirEntry front j else s.seg (j - s.offset) := by
  rw [dirEntry_append contig (Nat.zero_le j), dirEntry_cons]
  by_cases before : j < s.offset
  · rw [if_pos before, if_pos before]
  · rw [if_neg before, if_neg before, if_pos ⟨not_lt.mp before, high⟩]

end Segments

/-! ### Changing the entries of a bucket -/

section Update

variable {mask id b : Nat}

theorem segmentUpdate_eq (offset : Nat) {count i len : Nat} (enough : count ≤ len)
    (seg : Nat → Option Nat) :
    segmentUpdate mask id b offset count i len seg =
      (fun k => if i ≤ k ∧ k < i + count ∧ (offset + k) &&& mask = id &&& mask then some b
        else seg k, len - count) := by
  induction count generalizing i len seg with
  | zero =>
    unfold segmentUpdate
    congr 1
    funext k
    rw [if_neg (by omega)]
  | succ count inductionHypothesis =>
    unfold segmentUpdate
    -- one entry is written here, and the loop goes on or has come to the last one
    have tail : ∀ rest : (Nat → Option Nat) × Nat,
        rest = (fun k => if i + 1 ≤ k ∧ k < i + 1 + count ∧ (offset + k) &&& mask = id &&& mask
          then some b
          else (if (offset + i) &&& mask = id &&& mask then Function.update seg i (some b)
            else seg) k, len - 1 - count) →
        rest = (fun k => if i ≤ k ∧ k < i + (count + 1) ∧ (offset + k) &&& mask = id &&& mask
          then some b else seg k, len - (count + 1)) := by
      rintro rest rfl
      refine Prod.ext (funext fun k => ?_) (by simp only; omega)
      simp only
      rcases eq_or_ne k i with rfl | other
      · rw [if_neg (by omega)]
        by_cases hit : (offset + k) &&& mask = id &&& mask
        · rw [if_pos hit, Function.update_self, if_pos ⟨le_refl _, by omega, hit⟩]
        · rw [if_neg hit, if_neg fun all => hit all.2.2]
      · have range : (i + 1 ≤ k ∧ k < i + 1 + count ∧ (offset + k) &&& mask = id &&& mask) ↔
            (i ≤ k ∧ k < i + (count + 1) ∧ (offset + k) &&& mask = id &&& mask) := by
          constructor <;> rintro ⟨low, high, hit⟩ <;> exact ⟨by omega, by omega, hit⟩
        simp only [range]
        congr 1
        split_ifs
        · exact Function.update_of_ne other _ _
        · rfl
    simp only
    by_cases last : len - 1 = 0
    · rw [if_pos last]
      refine tail _ (Prod.ext (funext fun k => ?_) (by simp only; omega))
      have outside : ¬(i + 1 ≤ k ∧ k < i + 1 + count ∧ (offset + k) &&& mask = id &&& mask) := by
        rintro ⟨low, high, _⟩
        omega
      exact (if_neg outside).symm
    · rw [if_neg last]
      exact tail _ (inductionHypothesis (by omega) _)

/-- `segment_update_dir` puts the bucket into every slot with its bits. -/
theorem segmentUpdateDir_spec {start stop : Nat} {dir : List Segment}
    (contig : Contig start dir stop) :
    Contig start (segmentUpdateDir mask id b (stop - start) dir) stop ∧
      (∀ j, start ≤ j → j < stop →
        dirEntry (segmentUpdateDir mask id b (stop - start) dir) j =
          if j &&& mask = id &&& mask then some b else dirEntry dir j) ∧
      ((∀ s ∈ dir, 0 < s.len ∧ s.len ≤ s.alen) →
        ∀ s ∈ segmentUpdateDir mask id b (stop - start) dir, 0 < s.len ∧ s.len ≤ s.alen) := by
  induction dir generalizing start with
  | nil =>
    cases contig
    exact ⟨rfl, fun j low high => absurd low (not_le.mpr high), fun _ s member => nomatch member⟩
  | cons s rest inductionHypothesis =>
    obtain ⟨rfl, contig⟩ := contig
    have high := contig.le
    obtain ⟨contigRest, entries, filled⟩ := inductionHypothesis contig
    have left : stop - s.offset - s.len = stop - (s.offset + s.len) := by omega
    rw [segmentUpdateDir, segmentUpdate_eq s.offset (by omega : s.len ≤ stop - s.offset)]
    simp only [left]
    refine ⟨⟨rfl, contigRest⟩, fun j low below => ?_, fun good other member => ?_⟩
    · rw [dirEntry_cons, dirEntry_cons]
      by_cases inside : s.offset ≤ j ∧ j < s.offset + s.len
      · have place : s.offset + (j - s.offset) = j := Nat.add_sub_of_le low
        simp only [if_pos inside, place]
        by_cases hit : j &&& mask = id &&& mask
        · rw [if_pos hit, if_pos ⟨Nat.zero_le _, by omega, hit⟩]
        · rw [if_neg hit, if_neg fun all => hit all.2.2]
      · simp only [if_neg inside]
        exact entries j (not_lt.mp fun less => inside ⟨low, less⟩) below
    · rcases List.mem_cons.mp member with rfl | member
      · exact good s List.mem_cons_self
      · exact filled (fun s inside => good s (List.mem_cons_of_mem _ inside)) other member

end Update

/-! ### Doubling -/

section Enlarge

/-- `cbht_copy_dir` reads `len` slots from `offset` on. -/
theorem cbhtCopyDir_eq (base : Nat) {start stop : Nat} {dir : List Segment}
    (contig : Contig start dir stop) {offset len cplen : Nat} (low : start ≤ offset)
    (high : offset + len ≤ stop) (seg : Nat → Option Nat) :
    cbhtCopyDir base dir offset len cplen seg = fun k =>
      if base + cplen ≤ k ∧ k < base + cplen + len then
        dirEntry dir (offset + (k - (base + cplen)))
      else seg k := by
  induction dir generalizing start offset len cplen seg with
  | nil =>
    cases contig
    funext k
    rw [if_neg (by omega)]
    rfl
  | cons s rest inductionHypothesis =>
    obtain ⟨rfl, contig⟩ := contig
    unfold cbhtCopyDir
    by_cases inside : s.offset ≤ offset ∧ offset < s.offset + s.len
    · simp only [if_pos inside]
      by_cases enough : len - min len (s.offset + s.len - offset) = 0
      · -- everything is in this segment
        have whole : min len (s.offset + s.len - offset) = len := by omega
        rw [if_pos enough, whole]
        funext k
        unfold copyPointers
        by_cases here : base + cplen ≤ k ∧ k < base + cplen + len
        · rw [if_pos here, if_pos here, dirEntry_cons, if_pos (by omega)]
          congr 1
          omega
        · rw [if_neg here, if_neg here]
      · have part : min len (s.offset + s.len - offset) = s.offset + s.len - offset := by omega
        rw [if_neg enough, part, inductionHypothesis contig (by omega) (by omega)]
        funext k
        unfold copyPointers
        by_cases there : base + (cplen + (s.offset + s.len - offset)) ≤ k ∧
            k < base + (cplen + (s.offset + s.len - offset)) + (len - (s.offset + s.len - offset))
        · rw [if_pos there, if_pos (by omega), dirEntry_cons, if_neg (by omega)]
          congr 1
          omega
        · rw [if_neg there]
          by_cases here : base + cplen ≤ k ∧ k < base + cplen + (s.offset + s.len - offset)
          · rw [if_pos here, if_pos (by omega), dirEntry_cons, if_pos (by omega)]
            congr 1
            omega
          · rw [if_neg here, if_neg (by omega)]
    · have behind : s.offset + s.len ≤ offset := not_lt.mp fun less => inside ⟨low, less⟩
      rw [if_neg inside]
      by_cases empty : len = 0
      · rw [if_pos empty]
        funext k
        rw [if_neg (by omega)]
      · rw [if_neg empty, inductionHypothesis contig behind high]
        funext k
        by_cases here : base + cplen ≤ k ∧ k < base + cplen + len
        · rw [if_pos here, if_pos here, dirEntry_cons, if_neg (by omega)]
        · rw [if_neg here, if_neg here]

/-- The search of `cbht_enlarge_dir` finds the last segment. -/
theorem enlargeFrom_eq {start stop : Nat} {front : List Segment} {ss : Segment}
    (contig : Contig start (front ++ [ss]) stop)
    (filled : ∀ s ∈ front ++ [ss], 0 < s.len ∧ s.len ≤ s.alen) :
    enlargeFrom (stop - start) (front ++ [ss]) = some ⟨front, ss, []⟩ := by
  induction front generalizing start with
  | nil =>
    obtain ⟨_, same⟩ := contig
    have whole : stop - start = ss.len := by
      rw [← show start + ss.len = stop from same]
      omega
    rw [List.nil_append, enlargeFrom, if_pos whole]
  | cons s front inductionHypothesis =>
    obtain ⟨_, contig⟩ := contig
    obtain ⟨middle, first, _, last⟩ := contig_append.mp contig
    have below := first.le
    have positive := (filled ss (by simp)).1
    have whole : middle + ss.len = stop := last
    rw [List.cons_append, enlargeFrom, if_neg (by omega)]
    have rest := inductionHypothesis contig fun other member =>
      filled other (List.mem_cons_of_mem _ member)
    rw [show stop - start - s.len = stop - (start + s.len) by omega, rest]
    rfl

/-- One turn of the loop fills the last segment from the slots at `offset`. -/
theorem dirEntry_fillSegment {front : List Segment} {ss : Segment} {size offset : Nat} (olen : Nat)
    {entry : Nat → Option Nat} (contig : Contig 0 front ss.offset)
    (total : ss.offset + ss.len = size + offset) (bound : offset + olen ≤ size)
    (entries : ∀ j < size + offset, dirEntry (front ++ [ss]) j = entry (j % size)) (j : Nat)
    (below : j < size + (offset + olen)) :
    dirEntry (front ++ [fillSegment ss (front ++ [ss]) offset olen]) j = entry (j % size) := by
  have whole : Contig 0 (front ++ [ss]) (size + offset) :=
    contig_append.mpr ⟨ss.offset, contig, rfl, total⟩
  unfold fillSegment
  rw [dirEntry_last (by exact contig) (by simp only; omega)]
  simp only
  rw [cbhtCopyDir_eq ss.len whole (Nat.zero_le _) (by omega)]
  by_cases old : j < size + offset
  · have kept : ¬(ss.len + 0 ≤ j - ss.offset ∧ j - ss.offset < ss.len + 0 + olen) ∨
        j < ss.offset := by omega
    rw [← entries j old, dirEntry_last contig (by omega)]
    by_cases before : j < ss.offset
    · rw [if_pos before, if_pos before]
    · simp only [if_neg before, if_neg (kept.resolve_right before)]
  · have new : ¬j < ss.offset := by omega
    have copied : ss.len + 0 ≤ j - ss.offset ∧ j - ss.offset < ss.len + 0 + olen := by omega
    have place : offset + (j - ss.offset - (ss.len + 0)) = j - size := by omega
    simp only [if_neg new, if_pos copied, place]
    rw [entries (j - size) (by omega), ← Nat.mod_eq_sub_mod (by omega)]

/-- The loop of `cbht_enlarge_dir` appends a second copy of the directory. -/
theorem enlargeLoop_spec {size : Nat} {entry : Nat → Option Nat} {fuel : Nat}
    {front : List Segment} {ss : Segment} {offset nlen : Nat}
    (contig : Contig 0 front ss.offset) (filled : ∀ s ∈ front, 0 < s.len ∧ s.len ≤ s.alen)
    (room : ss.len ≤ ss.alen) (array : 0 < ss.alen) (some : 0 < ss.len ∨ 0 < nlen)
    (total : ss.offset + ss.len = size + offset) (split : offset + nlen = size)
    (entries : ∀ j < size + offset, dirEntry (front ++ [ss]) j = entry (j % size))
    (enough : nlen + (if ss.len < ss.alen ∨ nlen = 0 then 1 else 2) ≤ fuel) :
    ∃ c, enlargeLoop fuel ⟨front, ss, []⟩ offset nlen = .ok c ∧ Layout c.dir (size + size) ∧
      ∀ j < size + size, dirEntry c.dir j = entry (j % size) := by
  induction fuel generalizing front ss offset nlen with
  | zero =>
    split_ifs at enough
    · omega
    · omega
  | succ fuel inductionHypothesis =>
    -- what the loop finds when a full segment has been followed by a new one
    have appended : ∀ (last : Segment) (done : Nat), last.offset = ss.offset →
        last.alen = ss.alen → last.len = ss.alen → ss.len + done = ss.alen → done < nlen →
        nlen - done + 1 ≤ fuel →
        (∀ j < size + (offset + done), dirEntry (front ++ [last]) j = entry (j % size)) →
        ∃ c, enlargeLoop fuel ⟨front ++ [last], mdsSegmentInit (last.offset + last.alen) last.alen,
            []⟩ (offset + done) (nlen - done) = .ok c ∧ Layout c.dir (size + size) ∧
          ∀ j < size + size, dirEntry c.dir j = entry (j % size) := by
      intro last done place array' full whole left fuelLeft entriesLast
      have contigLast : Contig 0 (front ++ [last]) (last.offset + last.alen) := by
        refine contig_append.mpr ⟨ss.offset, contig, place, ?_⟩
        change ss.offset + last.len = last.offset + last.alen
        omega
      refine inductionHypothesis contigLast ?_ (Nat.zero_le _) (array'.symm ▸ array)
        (Or.inr (by omega)) (by simp only [mdsSegmentInit]; omega) (by omega) ?_ ?_
      · intro s member
        rcases List.mem_append.mp member with member | member
        · exact filled s member
        · obtain rfl := List.mem_singleton.mp member
          omega
      · intro j below
        rw [dirEntry_append contigLast (Nat.zero_le j), if_pos (by omega)]
        exact entriesLast j below
      · rw [if_pos (Or.inl (by simp only [mdsSegmentInit]; omega))]
        exact fuelLeft
    unfold enlargeLoop
    by_cases finished : nlen = 0
    · rw [if_pos finished]
      obtain rfl : offset = size := by omega
      refine ⟨_, rfl, ⟨contig_append.mpr ⟨ss.offset, contig, rfl, total⟩, ?_⟩, entries⟩
      intro s member
      rcases List.mem_append.mp member with member | member
      · exact filled s member
      · obtain rfl := List.mem_singleton.mp member
        exact ⟨by omega, room⟩
    · rw [if_neg finished]
      by_cases full : ss.len = ss.alen
      · -- nothing fits into the last segment
        have olen : min (ss.alen - ss.len) nlen = 0 := by omega
        rw [if_neg (by omega)] at enough
        simp only [olen, if_true, Nat.sub_zero, Nat.add_zero, ne_eq, finished, not_false_eq_true,
          and_self]
        exact appended ss 0 rfl rfl full full (by omega) (by omega) entries
      · rw [if_pos (Or.inl (by omega))] at enough
        obtain ⟨olen, least⟩ : ∃ olen, olen = min (ss.alen - ss.len) nlen := ⟨_, rfl⟩
        have positive : olen ≠ 0 := by omega
        have after := dirEntry_fillSegment olen contig total (by omega) entries
        simp only [← least, if_neg positive, and_true]
        by_cases more : nlen - olen ≠ 0
        · rw [if_pos more]
          exact appended _ olen rfl rfl (show ss.len + olen = ss.alen by omega) (by omega)
            (by omega) (by omega) after
        · rw [if_neg more]
          refine inductionHypothesis contig filled (show ss.len + olen ≤ ss.alen by omega) array
            (Or.inl (show 0 < ss.len + olen by omega))
            (show ss.offset + (ss.len + olen) = size + (offset + olen) by omega) (by omega) after ?_
          rw [if_pos (Or.inr (by omega))]
          omega

variable {t : Cbht}

/-- `cbht_enlarge_dir` doubles the directory. -/
theorem cbhtEnlargeDir_spec {tdepth : Nat} (layout : Layout t.dir (2 ^ t.dirDepth))
    (deeper : t.dirDepth < tdepth) :
    ∃ dir, cbhtEnlargeDir t tdepth = .ok (0, { t with dir, dirDepth := t.dirDepth + 1 }) ∧
      Layout dir (2 ^ (t.dirDepth + 1)) ∧
      ∀ j < 2 ^ (t.dirDepth + 1), dirEntry dir j = dirEntry t.dir (j % 2 ^ t.dirDepth) := by
  have positive := Nat.two_pow_pos t.dirDepth
  have double : 2 ^ t.dirDepth + 2 ^ t.dirDepth = 2 ^ (t.dirDepth + 1) := by
    rw [pow_succ]
    omega
  -- the directory is not empty, so it has a last segment
  obtain ⟨front, ss, shape⟩ : ∃ front ss, t.dir = front ++ [ss] := by
    rcases List.eq_nil_or_concat t.dir with empty | ⟨front, ss, shape⟩
    · have contig := layout.contig
      rw [empty] at contig
      exact absurd contig (by simp only [Contig]; omega)
    · exact ⟨front, ss, by rw [shape, List.concat_eq_append]⟩
  have contig := layout.contig
  have filled := layout.filled
  rw [shape] at contig filled
  obtain ⟨middle, contigFront, rfl, total⟩ := contig_append.mp contig
  have last := filled ss (by simp)
  have found := enlargeFrom_eq contig filled
  rw [Nat.sub_zero] at found
  obtain ⟨c, loop, layoutAfter, entries⟩ := @enlargeLoop_spec (2 ^ t.dirDepth) (dirEntry t.dir)
    (2 * 1 <<< t.dirDepth + 2) front ss 0 (2 ^ t.dirDepth) contigFront
    (fun s member => filled s (List.mem_append_left _ member)) last.2 (by omega) (Or.inl last.1)
    total (Nat.zero_add _)
    (fun j below => by rw [← shape, Nat.mod_eq_of_lt (by omega)])
    (by rw [Nat.one_shiftLeft]; split_ifs <;> omega)
  rw [double] at layoutAfter entries
  refine ⟨c.dir, ?_, layoutAfter, entries⟩
  unfold cbhtEnlargeDir
  rw [if_neg (by omega), shape, Nat.one_shiftLeft, found]
  rw [Nat.one_shiftLeft] at loop
  simp only [loop]

/-- `cbht_update_dir` puts a bucket into the slots of its bits, after it has doubled a directory
that is not deep enough for it. -/
theorem cbhtUpdateDir_spec (b : Nat) (layout : Layout t.dir (2 ^ t.dirDepth))
    (depth : (t.bucket b).depth ≤ t.dirDepth + 1) :
    ∃ dir, cbhtUpdateDir t b =
        .ok (0, { t with dir, dirDepth := max t.dirDepth (t.bucket b).depth }) ∧
      Layout dir (2 ^ max t.dirDepth (t.bucket b).depth) ∧
      ∀ j < 2 ^ max t.dirDepth (t.bucket b).depth, dirEntry dir j =
        if j % 2 ^ (t.bucket b).depth = (t.bucket b).id % 2 ^ (t.bucket b).depth then some b
        else dirEntry t.dir (j % 2 ^ t.dirDepth) := by
  -- the writing of the entries, whatever directory it starts with
  have written : ∀ (dir : List Segment) (total : Nat), Layout dir total →
      Layout (segmentUpdateDir ((1 <<< (t.bucket b).depth) - 1) (t.bucket b).id b total dir) total ∧
        ∀ j < total, dirEntry
          (segmentUpdateDir ((1 <<< (t.bucket b).depth) - 1) (t.bucket b).id b total dir) j =
          if j % 2 ^ (t.bucket b).depth = (t.bucket b).id % 2 ^ (t.bucket b).depth then some b
          else dirEntry dir j := by
    intro dir total good
    have spec := @segmentUpdateDir_spec ((1 <<< (t.bucket b).depth) - 1) (t.bucket b).id b _ _ _
      good.contig
    rw [Nat.sub_zero] at spec
    refine ⟨⟨spec.1, spec.2.2 good.filled⟩, fun j below => ?_⟩
    rw [spec.2.1 j (Nat.zero_le j) below, Nat.one_shiftLeft, Nat.and_two_pow_sub_one_eq_mod,
      Nat.and_two_pow_sub_one_eq_mod]
  unfold cbhtUpdateDir
  by_cases deeper : (t.bucket b).depth > t.dirDepth
  · obtain ⟨dir, enlarged, layoutAfter, entries⟩ := cbhtEnlargeDir_spec layout deeper
    have high : max t.dirDepth (t.bucket b).depth = t.dirDepth + 1 := by omega
    obtain ⟨good, slots⟩ := written dir _ layoutAfter
    rw [high]
    simp only [if_pos deeper, enlarged]
    refine ⟨_, rfl, ?_, fun j below => ?_⟩
    · rw [Nat.one_shiftLeft (t.dirDepth + 1)]
      exact good
    · rw [Nat.one_shiftLeft (t.dirDepth + 1), slots j below, entries j below]
  · have high : max t.dirDepth (t.bucket b).depth = t.dirDepth := by omega
    obtain ⟨good, slots⟩ := written t.dir _ layout
    rw [high]
    simp only [if_neg deeper]
    refine ⟨_, rfl, ?_, fun j below => ?_⟩
    · rw [Nat.one_shiftLeft t.dirDepth]
      exact good
    · rw [Nat.one_shiftLeft t.dirDepth, slots j below, Nat.mod_eq_of_lt below]

end Enlarge

end Hvfs
