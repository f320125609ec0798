/-
This file embeds the functions of `mds/cbht.c` that allocate, with an allocation
that fails.

The failure is given by what is allocated and by how many allocations of the kind
succeed before. A function that would write through the null pointer of a segment
without an array stops with `AllocStop.null`. Where nothing fails, these functions
are those of the table.
-/

import Hvfs.CbhtDir

namespace Hvfs

/-! ### Allocating -/

/-- What is allocated: a part of a bucket, a `struct segment` or the array of a segment. -/
inductive AllocSite
  | bucket
  | segment
  | array
  deriving DecidableEq, Repr

/-- The allocation that is going to fail, and the number of those of its kind before it. -/
abbrev Failure := Option (AllocSite × Nat)

/-- `xzalloc`: whether it succeeds. -/
def xzalloc (site : AllocSite) : Failure → Bool × Failure
  | none => (true, none)
  | some (failing, before) =>
    if failing = site then
      match before with
      | 0 => (false, none)
      | before + 1 => (true, some (failing, before))
    else (true, some (failing, before))

/-- Why a call does not return; `shift` is the shift of an `int` by 32 and more, which C leaves open. -/
inductive AllocStop
  | fuel
  | depth
  | null
  | shift
  deriving DecidableEq, Repr

/-! ### The search in 32 bits -/

/-- The search of `cbht_enlarge_dir` for the segment to begin with. -/
def Word.enlargeFrom : U32 → List Segment → Option DirCursor
  | _, [] => none
  | olen, s :: rest =>
    if olen.toNat = s.len then some ⟨[], s, rest⟩
    else (enlargeFrom (olen - BitVec.ofNat 32 s.len) rest).map fun c =>
      { c with front := s :: c.front }

section Word

variable {dir : List Segment} {start stop : Nat}

/-- In a directory of this length the search takes no length off that is not there. -/
theorem Word.enlargeFrom_eq (contig : Contig start dir stop) {left : U32}
    (length : left.toNat = stop - start) :
    Word.enlargeFrom left dir = Hvfs.enlargeFrom (stop - start) dir := by
  induction dir generalizing start left with
  | nil => rfl
  | cons s rest inductionHypothesis =>
    rw [Word.enlargeFrom, Hvfs.enlargeFrom, length]
    have within := contig.2.le
    have small : s.len < 2 ^ 32 := by
      have bound := left.isLt
      omega
    have taken : (left - BitVec.ofNat 32 s.len).toNat = stop - (start + s.len) := by
      rw [BitVec.toNat_sub_of_le, BitVec.toNat_ofNat, Nat.mod_eq_of_lt small, length]
      · omega
      · rw [BitVec.le_def, BitVec.toNat_ofNat, Nat.mod_eq_of_lt small, length]
        omega
    have rest := inductionHypothesis contig.2 taken
    rw [rest, ← Nat.sub_sub]

/-- The length of a directory whose slots are counted in 32 bits. -/
theorem Word.one_shiftLeft {d : Nat} (shallow : d < 32) : (1#32 <<< d).toNat = 2 ^ d := by
  have one : (1#32).toNat = 1 := rfl
  rw [BitVec.toNat_shiftLeft, Nat.shiftLeft_eq, one, Nat.one_mul,
    Nat.mod_eq_of_lt (Nat.pow_lt_pow_right (by decide) shallow)]

end Word

namespace Alloc

/-- `mds_seg_alloc`: what it returns, and whether the segment has an array. -/
def mdsSegAlloc (fail : Failure) : Int × Bool × Failure :=
  let (got, fail) := xzalloc .array fail
  -- a failure is noted in `err`, which is not what is returned
  (0, got, fail)

/-- Whether `cbht_bucket_alloc` gets the bucket and its entries. -/
def cbhtBucketAlloc (fail : Failure) : Bool × Failure :=
  let (b, fail) := xzalloc .bucket fail
  if !b then (false, fail) else xzalloc .bucket fail

/-! ### The directory -/

/-- The `while` loop of `cbht_enlarge_dir`; `array` tells whether `ss` has one. -/
def enlargeLoop : Nat → DirCursor → (array : Bool) → (offset nlen : Nat) → Failure →
    Except AllocStop (Int × DirCursor × Failure)
  | 0, _, _, _, _, _ => .error .fuel
  | fuel + 1, c, array, offset, nlen, fail =>
    if nlen = 0 then .ok (0, c, fail)
    else
      let olen := min (c.ss.alen - c.ss.len) nlen
      if olen ≠ 0 ∧ !array then .error .null
      else
        let ss := if olen = 0 then c.ss else fillSegment c.ss c.dir offset olen
        if nlen - olen ≠ 0 ∧ c.behind = [] then
          let (s, fail) := xzalloc .segment fail
          if !s then .ok (-ENOMEM, { c with ss }, fail)
          else
            let (err, array, fail) := mdsSegAlloc fail
            if err ≠ 0 then .ok (err, { c with ss }, fail)
            else
              enlargeLoop fuel ⟨c.front ++ [ss], mdsSegmentInit (ss.offset + ss.alen) ss.alen, []⟩
                array (offset + olen) (nlen - olen) fail
        else enlargeLoop fuel { c with ss } array (offset + olen) (nlen - olen) fail

/-- `cbht_enlarge_dir` from its loop on. -/
def enlargeDirFrom (t : Cbht) (nlen : Nat) (fail : Failure) :
    Option DirCursor → Except AllocStop (Int × Cbht × Failure)
  | none => .ok (-EINVAL, t, fail)
  | some c =>
    match enlargeLoop (2 * nlen + 2) c true 0 nlen fail with
    | .error stop => .error stop
    | .ok (err, c, fail) =>
      if err ≠ 0 then .ok (err, { t with dir := c.dir }, fail)
      else .ok (0, { t with dir := c.dir, dirDepth := t.dirDepth + 1 }, fail)

/-- `cbht_enlarge_dir`. In its loop nothing is taken off a length that is not there. -/
def cbhtEnlargeDir (t : Cbht) (tdepth : Nat) (fail : Failure) :
    Except AllocStop (Int × Cbht × Failure) :=
  if tdepth ≤ t.dirDepth then .ok (0, t, fail)
  else if 32 ≤ t.dirDepth then .error .shift
  else
    let nlen := 1#32 <<< t.dirDepth
    enlargeDirFrom t nlen.toNat fail (Word.enlargeFrom nlen t.dir)

/-- `cbht_update_dir`. -/
def cbhtUpdateDir (t : Cbht) (b : Nat) (fail : Failure) :
    Except AllocStop (Int × Cbht × Failure) :=
  let depth := (t.bucket b).depth
  match if depth > t.dirDepth then cbhtEnlargeDir t depth fail else .ok (0, t, fail) with
  | .error stop => .error stop
  | .ok (err, t, fail) =>
    if err ≠ 0 then .ok (err, t, fail)
    else
      .ok (0, { t with
        dir := segmentUpdateDir ((1 <<< depth) - 1) (t.bucket b).id b (1 <<< t.dirDepth) t.dir },
        fail)

/-! ### Splitting -/

/-- The levels of `cbht_bucket_split`. -/
def splitLoop (criminal : U64) : Nat → Cbht → Nat → Failure →
    Except AllocStop (Int × Cbht × Failure)
  | 0, _, _, _ => .error .fuel
  | fuel + 1, t, ob, fail =>
    let (got, fail) := cbhtBucketAlloc fail
    if !got then .ok (-ENOMEM, t, fail)
    else if (t.bucket ob).depth + 1 ≥ 31 then .error .depth
    else
      let (nb, t) := splitLevel t ob
      let inNew := hashBit t.bucketDepth criminal (t.bucket nb).depth
      match cbhtUpdateDir t nb fail with
      | .error stop => .error stop
      | .ok (err, t, fail) =>
        if err ≠ 0 then .ok (err, t, fail)
        else if (t.bucket nb).active = 0 ∧ !inNew then splitLoop criminal fuel t ob fail
        else if (t.bucket ob).active = 0 ∧ inNew then splitLoop criminal fuel t nb fail
        else .ok (0, t, fail)

/-- `cbht_bucket_split`. -/
def cbhtBucketSplit (t : Cbht) (ob : Nat) (criminal : U64) (sdepth : Nat) (fail : Failure) :
    Except AllocStop (Int × Cbht × Failure) :=
  if (t.bucket ob).active < ((2 <<< (t.bucket ob).adepth : Nat) : Int) then .ok (-EAGAIN, t, fail)
  else if sdepth ≠ t.dirDepth then .ok (-EAGAIN, t, fail)
  else splitLoop criminal 31 t ob fail

end Alloc

/-! ### Where allocations can fail -/

/-- Only allocations of one kind can fail. -/
def Failure.Only (fail : Failure) (site : AllocSite) : Prop :=
  ∀ failing before, fail = some (failing, before) → failing = site

section Sites

variable {fail : Failure} {site failing : AllocSite}

theorem Failure.only_some (site : AllocSite) (before : Nat) :
    Failure.Only (some (site, before)) site := by
  rintro _ _ ⟨⟩
  rfl

theorem xzalloc_only (only : fail.Only failing) (site : AllocSite) :
    (xzalloc site fail).2.Only failing := by
  intro other before same
  rcases fail with _ | ⟨kind, count⟩
  · cases same
  · obtain rfl := only kind count rfl
    simp only [xzalloc] at same
    split_ifs at same
    · cases count
      · cases same
      · cases same
        rfl
    · cases same
      rfl

/-- What fails is of the kind that can fail. -/
theorem xzalloc_failed (only : fail.Only failing) (failed : (xzalloc site fail).1 = false) :
    site = failing := by
  rcases fail with _ | ⟨kind, count⟩
  · cases failed
  · obtain rfl := only kind count rfl
    simp only [xzalloc] at failed
    split_ifs at failed with here
    exact here.symm

end Sites

namespace Alloc

/-! ### The loop -/

section Loop

variable {fuel offset nlen : Nat} {c last : DirCursor} {array : Bool} {fail after : Failure}
  {site : AllocSite} {err : Int}

/-- The loop runs like the one whose allocations succeed, or a `struct segment` is missing. -/
theorem enlargeLoop_cases (only : fail.Only site)
    (ran : enlargeLoop fuel c array offset nlen fail = .ok (err, last, after)) :
    (err = 0 ∧ Hvfs.enlargeLoop fuel c offset nlen = .ok last ∧ after.Only site) ∨
      (err = -ENOMEM ∧ site = .segment) := by
  induction fuel generalizing c array offset nlen fail with
  | zero => cases ran
  | succ fuel inductionHypothesis =>
    unfold enlargeLoop at ran
    unfold Hvfs.enlargeLoop
    by_cases finished : nlen = 0
    · rw [if_pos finished] at ran ⊢
      cases ran
      exact Or.inl ⟨rfl, rfl, only⟩
    · rw [if_neg finished] at ran ⊢
      simp only at ran ⊢
      generalize min (c.ss.alen - c.ss.len) nlen = olen at ran ⊢
      generalize (if olen = 0 then c.ss else fillSegment c.ss c.dir offset olen) = ss at ran ⊢
      by_cases null : olen ≠ 0 ∧ !array
      · rw [if_pos null] at ran
        cases ran
      · rw [if_neg null] at ran
        by_cases more : nlen - olen ≠ 0 ∧ c.behind = []
        · rw [if_pos more] at ran ⊢
          have onlySegment := xzalloc_only only .segment
          have failedSegment := @xzalloc_failed _ .segment _ only
          generalize (xzalloc .segment fail).1 = s at ran failedSegment
          generalize (xzalloc .segment fail).2 = failSegment at ran onlySegment
          cases s
          · cases ran
            exact Or.inr ⟨rfl, (failedSegment rfl).symm⟩
          · exact inductionHypothesis (xzalloc_only onlySegment .array) ran
        · rw [if_neg more] at ran ⊢
          exact inductionHypothesis only ran

theorem enlargeLoop_none (ran : Hvfs.enlargeLoop fuel c offset nlen = .ok last) :
    enlargeLoop fuel c true offset nlen none = .ok (0, last, none) := by
  induction fuel generalizing c offset nlen with
  | zero => cases ran
  | succ fuel inductionHypothesis =>
    unfold Hvfs.enlargeLoop at ran
    unfold enlargeLoop
    by_cases finished : nlen = 0
    · rw [if_pos finished] at ran ⊢
      cases ran
      rfl
    · rw [if_neg finished] at ran ⊢
      simp only at ran ⊢
      rw [if_neg (by simp)]
      by_cases more : nlen - min (c.ss.alen - c.ss.len) nlen ≠ 0 ∧ c.behind = []
      · rw [if_pos more] at ran ⊢
        exact inductionHypothesis ran
      · rw [if_neg more] at ran ⊢
        exact inductionHypothesis ran

/-- The loop takes no segment away, and a failure behind the first `struct segment` leaves the new
ones in the list. -/
theorem enlargeLoop_longer
    (ran : enlargeLoop fuel c array offset nlen fail = .ok (err, last, after)) :
    c.dir.length ≤ last.dir.length ∧
      ∀ before, fail = some (.segment, before + 1) → err ≠ 0 → c.dir.length < last.dir.length := by
  induction fuel generalizing c array offset nlen fail with
  | zero => cases ran
  | succ fuel inductionHypothesis =>
    unfold enlargeLoop at ran
    by_cases finished : nlen = 0
    · rw [if_pos finished] at ran
      cases ran
      exact ⟨le_refl _, fun _ _ failed => absurd rfl failed⟩
    · rw [if_neg finished] at ran
      simp only at ran
      generalize min (c.ss.alen - c.ss.len) nlen = olen at ran
      generalize (if olen = 0 then c.ss else fillSegment c.ss c.dir offset olen) = ss at ran
      have filled : ({ c with ss } : DirCursor).dir.length = c.dir.length := by
        simp only [DirCursor.dir, List.length_append, List.length_cons]
      by_cases null : olen ≠ 0 ∧ !array
      · rw [if_pos null] at ran
        cases ran
      · rw [if_neg null] at ran
        by_cases more : nlen - olen ≠ 0 ∧ c.behind = []
        · rw [if_pos more] at ran
          rcases got : xzalloc .segment fail with ⟨s, failSegment⟩
          rw [got] at ran
          cases s
          · cases ran
            refine ⟨le_of_eq filled.symm, ?_⟩
            rintro before rfl
            cases got
          · have longer := (inductionHypothesis ran).1
            have appended : ∀ s, (⟨c.front ++ [ss], s, []⟩ : DirCursor).dir.length =
                c.dir.length + 1 := by
              intro s
              simp only [DirCursor.dir, List.length_append, List.length_cons, List.length_nil,
                more.2]
            rw [appended] at longer
            exact ⟨by omega, fun _ _ _ => by omega⟩
        · rw [if_neg more] at ran
          rw [← filled]
          exact inductionHypothesis ran

/-- A cursor that is not at the end of the list goes nowhere once its segment is full. -/
theorem enlargeLoop_stuck (full : c.ss.len = c.ss.alen) (middle : c.behind ≠ []) (left : nlen ≠ 0) :
    enlargeLoop fuel c array offset nlen fail = .error .fuel := by
  induction fuel with
  | zero => rfl
  | succ fuel inductionHypothesis =>
    have olen : min (c.ss.alen - c.ss.len) nlen = 0 := by omega
    unfold enlargeLoop
    simp only [olen, if_neg left, ne_eq, not_true_eq_false, false_and, if_false, if_true, middle,
      and_false, Nat.add_zero, Nat.sub_zero]
    exact inductionHypothesis

end Loop

/-! ### A failed enlargement -/

/-- The segments of a directory with `total` slots: all have the length `alen` allocated, and those
in front of another one are full. -/
structure Uniform (dir : List Segment) (total alen : Nat) : Prop where
  layout : Layout dir total
  common : ∀ s ∈ dir, s.alen = alen
  full : ∀ s ∈ dir.dropLast, s.len = alen

/-- The second table has the directory of the first one twice. -/
def Doubled (t later : Cbht) : Prop :=
  later.dirDepth = t.dirDepth + 1 ∧ Layout later.dir (2 ^ (t.dirDepth + 1)) ∧
    ∀ j < 2 ^ (t.dirDepth + 1), dirEntry later.dir j = dirEntry t.dir (j % 2 ^ t.dirDepth)

/-- The call returns an error, with the directory as it was; a later call doubles it. -/
def Harmless (t : Cbht) (tdepth : Nat) (fail : Failure) : Prop :=
  ∃ err final after, cbhtEnlargeDir t tdepth fail = .ok (err, final, after) ∧ err ≠ 0 ∧
    final.dirDepth = t.dirDepth ∧ final.dir = t.dir ∧
    ∀ deeper, final.dirDepth < deeper →
      ∃ later, cbhtEnlargeDir final deeper none = .ok (0, later, none) ∧ Doubled final later

section Enlarge

variable {t : Cbht} {tdepth : Nat}

theorem contig_full {alen start stop : Nat} {front : List Segment}
    (contig : Contig start front stop)
    (full : ∀ s ∈ front, s.len = alen) : stop = start + front.length * alen := by
  induction front generalizing start with
  | nil =>
    cases contig
    simp
  | cons s front inductionHypothesis =>
    have rest := inductionHypothesis contig.2 fun other member =>
      full other (List.mem_cons_of_mem _ member)
    rw [rest, full s List.mem_cons_self, List.length_cons, Nat.add_mul]
    omega

/-- In a directory of its depth the search is that for unbounded lengths. -/
theorem cbhtEnlargeDir_eq {fail : Failure} (contig : Contig 0 t.dir (2 ^ t.dirDepth))
    (deeper : t.dirDepth < tdepth) (shallow : t.dirDepth < 32) :
    cbhtEnlargeDir t tdepth fail =
      enlargeDirFrom t (2 ^ t.dirDepth) fail (Hvfs.enlargeFrom (2 ^ t.dirDepth) t.dir) := by
  have length := Word.one_shiftLeft shallow
  have search := Word.enlargeFrom_eq contig length
  rw [cbhtEnlargeDir, if_neg (not_le.mpr deeper), if_neg (not_le.mpr shallow)]
  simp only [length, search, Nat.sub_zero]

/-- The call runs like the one whose allocations succeed, or a `struct segment` is missing and
nothing but the directory differs. -/
theorem cbhtEnlargeDir_cases {fail after : Failure} {site : AllocSite} {err : Int} {final : Cbht}
    (contig : Contig 0 t.dir (2 ^ t.dirDepth)) (shallow : t.dirDepth < 32) (only : fail.Only site)
    (ran : cbhtEnlargeDir t tdepth fail = .ok (err, final, after)) :
    (Hvfs.cbhtEnlargeDir t tdepth = .ok (err, final) ∧ after.Only site) ∨
      (err = -ENOMEM ∧ site = .segment ∧ ∃ dir, final = { t with dir }) := by
  unfold Hvfs.cbhtEnlargeDir
  by_cases enlarged : tdepth ≤ t.dirDepth
  · rw [cbhtEnlargeDir, if_pos enlarged] at ran
    rw [if_pos enlarged]
    cases ran
    exact Or.inl ⟨rfl, only⟩
  · rw [cbhtEnlargeDir_eq contig (not_le.mp enlarged) shallow] at ran
    rw [if_neg enlarged, Nat.one_shiftLeft]
    rcases found : Hvfs.enlargeFrom (2 ^ t.dirDepth) t.dir with _ | c
    · rw [found] at ran
      cases ran
      exact Or.inl ⟨rfl, only⟩
    · rw [found] at ran
      simp only [enlargeDirFrom] at ran ⊢
      rcases loop : enlargeLoop (2 * 2 ^ t.dirDepth + 2) c true 0 (2 ^ t.dirDepth) fail with
        stop | ⟨code, last, rest⟩
      · rw [loop] at ran
        cases ran
      · rw [loop] at ran
        rcases enlargeLoop_cases only loop with ⟨rfl, plain, onlyRest⟩ | ⟨rfl, here⟩
        · rw [plain]
          cases ran
          exact Or.inl ⟨rfl, onlyRest⟩
        · cases ran
          exact Or.inr ⟨rfl, here, last.dir, rfl⟩

/-- Where nothing fails, the call runs like the one whose allocations succeed. -/
theorem cbhtEnlargeDir_none {err : Int} {final : Cbht} (contig : Contig 0 t.dir (2 ^ t.dirDepth))
    (shallow : t.dirDepth < 32) (ran : Hvfs.cbhtEnlargeDir t tdepth = .ok (err, final)) :
    cbhtEnlargeDir t tdepth none = .ok (err, final, none) := by
  unfold Hvfs.cbhtEnlargeDir at ran
  by_cases enlarged : tdepth ≤ t.dirDepth
  · rw [cbhtEnlargeDir, if_pos enlarged]
    rw [if_pos enlarged] at ran
    cases ran
    rfl
  · rw [cbhtEnlargeDir_eq contig (not_le.mp enlarged) shallow]
    rw [if_neg enlarged, Nat.one_shiftLeft] at ran
    rcases found : Hvfs.enlargeFrom (2 ^ t.dirDepth) t.dir with _ | c
    · rw [found] at ran
      cases ran
      rfl
    · rw [found] at ran
      simp only [enlargeDirFrom] at ran ⊢
      rcases loop : Hvfs.enlargeLoop (2 * 2 ^ t.dirDepth + 2) c 0 (2 ^ t.dirDepth) with
        stop | last
      · rw [loop] at ran
        cases ran
      · rw [loop] at ran
        rw [enlargeLoop_none loop]
        cases ran
        rfl

/-- A directory that got segments without getting deeper is not doubled any more. -/
theorem cbhtEnlargeDir_stuck {fail : Failure} {c : DirCursor} (deeper : t.dirDepth < tdepth)
    (shallow : t.dirDepth < 32) (found : Word.enlargeFrom (1#32 <<< t.dirDepth) t.dir = some c)
    (full : c.ss.len = c.ss.alen) (middle : c.behind ≠ []) :
    cbhtEnlargeDir t tdepth fail = .error .fuel := by
  have left : (1#32 <<< t.dirDepth).toNat ≠ 0 := by
    rw [Word.one_shiftLeft shallow]
    exact Nat.ne_of_gt (Nat.two_pow_pos _)
  unfold cbhtEnlargeDir
  rw [if_neg (not_le.mpr deeper), if_neg (not_le.mpr shallow)]
  simp only [found, enlargeDirFrom, enlargeLoop_stuck full middle left]

/-- Where nothing fails, the directory is doubled. -/
theorem cbhtEnlargeDir_doubles (layout : Layout t.dir (2 ^ t.dirDepth))
    (deeper : t.dirDepth < tdepth) (shallow : t.dirDepth < 32) :
    ∃ later, cbhtEnlargeDir t tdepth none = .ok (0, later, none) ∧ Doubled t later := by
  obtain ⟨dir, enlarged, layoutAfter, entries⟩ := cbhtEnlargeDir_spec layout deeper
  exact ⟨_, cbhtEnlargeDir_none layout.contig shallow enlarged, rfl, layoutAfter, entries⟩

/-- The last segment of a directory that needs another one is full. -/
theorem Uniform.last {front : List Segment} {ss : Segment} {depth a : Nat}
    (uniform : Uniform (front ++ [ss]) (2 ^ depth) (2 ^ a)) (needs : 2 ^ a ≤ 2 ^ depth) :
    ss.len = ss.alen := by
  obtain ⟨middle, contigFront, offset, total⟩ := contig_append.mp uniform.layout.contig
  have place := contig_full contigFront fun s member =>
    uniform.full s (by rw [List.dropLast_concat]; exact member)
  have alen := uniform.common ss (by simp)
  obtain ⟨some, fits⟩ := uniform.layout.filled ss (by simp)
  have total : middle + ss.len = 2 ^ depth := total
  have shallow : a ≤ depth := (Nat.pow_le_pow_iff_right (by decide)).mp needs
  have whole : 2 ^ a ∣ 2 ^ depth := pow_dvd_pow 2 shallow
  rw [← total, place, Nat.zero_add] at whole
  have part : 2 ^ a ∣ ss.len := (Nat.dvd_add_right (Nat.dvd_mul_left _ _)).mp whole
  have least := Nat.le_of_dvd some part
  omega

/-- Which failures are harmless: that of the first `struct segment`, where the slots of the directory
are counted in 32 bits. -/
theorem harmless_iff {a before : Nat} {site : AllocSite}
    (uniform : Uniform t.dir (2 ^ t.dirDepth) (2 ^ a)) (deeper : t.dirDepth < tdepth)
    (needed : (before + 1) * 2 ^ a ≤ 2 ^ t.dirDepth) :
    Harmless t tdepth (some (site, before)) ↔
      t.dirDepth < 32 ∧ site = .segment ∧ before = 0 := by
  obtain ⟨front, ss, shape⟩ : ∃ front ss, t.dir = front ++ [ss] := by
    rcases List.eq_nil_or_concat t.dir with empty | ⟨front, ss, shape⟩
    · have contig := uniform.layout.contig
      rw [empty] at contig
      exact absurd contig (ne_of_lt (Nat.two_pow_pos _))
    · exact ⟨front, ss, by rw [shape, List.concat_eq_append]⟩
  have layout := uniform.layout
  rw [shape] at uniform
  have found := enlargeFrom_eq uniform.layout.contig uniform.layout.filled
  rw [Nat.sub_zero, ← shape] at found
  constructor
  · rintro ⟨err, final, after, ran, failed, _, same, _⟩
    have shallow : t.dirDepth < 32 := by
      by_contra deep
      rw [cbhtEnlargeDir, if_neg (not_le.mpr deeper), if_pos (not_lt.mp deep)] at ran
      cases ran
    refine ⟨shallow, ?_⟩
    rw [cbhtEnlargeDir_eq layout.contig deeper shallow, found] at ran
    simp only [enlargeDirFrom] at ran
    rcases loop : enlargeLoop (2 * 2 ^ t.dirDepth + 2) ⟨front, ss, []⟩ true 0 (2 ^ t.dirDepth)
      (some (site, before)) with stop | ⟨code, last, rest⟩
    · rw [loop] at ran
      cases ran
    · rw [loop] at ran
      simp only at ran
      split_ifs at ran with wrong
      · cases ran
        rcases enlargeLoop_cases (Failure.only_some site before) loop with
          ⟨right, _⟩ | ⟨_, rfl⟩
        · exact absurd right wrong
        · refine ⟨rfl, ?_⟩
          by_contra later
          obtain ⟨earlier, rfl⟩ := Nat.exists_eq_succ_of_ne_zero later
          have longer := (enlargeLoop_longer loop).2 earlier rfl wrong
          have same : last.dir = front ++ [ss] := Eq.trans same shape
          rw [same] at longer
          exact absurd longer (lt_irrefl _)
      · cases ran
        exact absurd rfl failed
  · rintro ⟨shallow, rfl, rfl⟩
    have full := uniform.last (by omega)
    have positive : 2 ^ t.dirDepth ≠ 0 := Nat.ne_of_gt (Nat.two_pow_pos _)
    refine ⟨-ENOMEM, t, none, ?_, by decide, rfl, rfl, fun later beyond =>
      cbhtEnlargeDir_doubles layout beyond shallow⟩
    rw [cbhtEnlargeDir_eq layout.contig deeper shallow, found]
    simp only [enlargeDirFrom, enlargeLoop, full, Nat.sub_self, Nat.zero_min, ne_eq,
      not_true_eq_false, false_and, if_false, if_true, positive, Nat.sub_zero, not_false_eq_true,
      and_self, xzalloc, Bool.not_false]
    rw [if_pos (by decide)]
    unfold DirCursor.dir
    rw [← shape]

end Enlarge

end Alloc

/-! ### Directories of segments of one length -/

open Alloc

/-- In a directory of any depth whose segments have a power of two allocated, the allocation
numbered `before` of a doubling is harmless when it fails exactly if the depth is below 32 and it is
the allocation of the first `struct segment`. -/
theorem cbht_enlarge_dir_failure (t : Cbht) (tdepth a before : Nat) (site : AllocSite)
    (uniform : Uniform t.dir (2 ^ t.dirDepth) (2 ^ a)) (deeper : t.dirDepth < tdepth)
    (needed : (before + 1) * 2 ^ a ≤ 2 ^ t.dirDepth) :
    Harmless t tdepth (some (site, before)) ↔
      t.dirDepth < 32 ∧ site = .segment ∧ before = 0 :=
  harmless_iff uniform deeper needed

/-- A directory of depth 15: two full segments. -/
def twoSegments : Cbht where
  dir := [⟨0, SEG_TOTAL, SEG_TOTAL, fun _ => some 0⟩,
    ⟨SEG_TOTAL, SEG_TOTAL, SEG_TOTAL, fun _ => some 0⟩]
  dirDepth := 15
  bucketDepth := 0
  buckets := 1
  bucket := fun _ => ⟨0, 0, 0, 0, fun _ => []⟩
  itb := fun _ => ⟨0, 0, 0, none⟩

theorem twoSegments_uniform : Uniform twoSegments.dir (2 ^ twoSegments.dirDepth) (2 ^ 14) where
  layout := by
    refine ⟨⟨rfl, rfl, rfl⟩, fun s member => ?_⟩
    rcases List.mem_pair.mp member with rfl | rfl
    · exact ⟨by decide, le_refl _⟩
    · exact ⟨by decide, le_refl _⟩
  common s member := by
    rcases List.mem_pair.mp member with rfl | rfl
    · rfl
    · rfl
  full s member := by
    obtain rfl := List.mem_singleton.mp member
    rfl

/-- The first `struct segment` for the doubling of two segments is missing. -/
theorem cbht_enlarge_dir_failure_first : Harmless twoSegments 16 (some (.segment, 0)) :=
  (cbht_enlarge_dir_failure twoSegments 16 14 0 .segment twoSegments_uniform (by decide)
    (by decide)).mpr ⟨by decide, rfl, rfl⟩

/-- The second `struct segment` is missing: the first one stays in the list, and no later call
returns. With the array of the first one missing, the call writes through the null pointer. -/
theorem cbht_enlarge_dir_failure_second :
    ¬Harmless twoSegments 16 (some (.segment, 1)) ∧
      (∃ final, Alloc.cbhtEnlargeDir twoSegments 16 (some (.segment, 1)) =
          .ok (-ENOMEM, final, none) ∧ final.dir.length = 3 ∧
        ∀ deeper fail, 15 < deeper → Alloc.cbhtEnlargeDir final deeper fail = .error .fuel) ∧
      Alloc.cbhtEnlargeDir twoSegments 16 (some (.array, 0)) = .error .null := by
  obtain ⟨final, third, ran, dir, depth⟩ : ∃ final third,
      Alloc.cbhtEnlargeDir twoSegments 16 (some (.segment, 1)) = .ok (-ENOMEM, final, none) ∧
        final.dir = twoSegments.dir ++ [third] ∧ final.dirDepth = 15 := ⟨_, _, rfl, rfl, rfl⟩
  refine ⟨fun harmless => ?_, ⟨final, ran, ?_, fun deeper fail beyond => ?_⟩, rfl⟩
  · have first := (harmless_iff twoSegments_uniform (by decide) (by decide)).mp harmless
    exact absurd first.2.2 (by decide)
  · rw [dir]
    rfl
  · have found : Word.enlargeFrom (1#32 <<< final.dirDepth) final.dir =
        some ⟨[⟨0, SEG_TOTAL, SEG_TOTAL, fun _ => some 0⟩],
          ⟨SEG_TOTAL, SEG_TOTAL, SEG_TOTAL, fun _ => some 0⟩, [third]⟩ := by
      rw [dir, depth]
      rfl
    exact cbhtEnlargeDir_stuck (depth.symm ▸ beyond) (by rw [depth]; decide) found rfl
      (List.cons_ne_nil _ _)

end Hvfs
