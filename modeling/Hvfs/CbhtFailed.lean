/-
This file determines when a split of a bucket that fails loses nothing.

A bucket that cannot be allocated leaves the table as the levels before made it,
which is in order. A `struct segment` that cannot be allocated comes too late: by
then the blocks are in a new bucket that the directory will never name, and the old
bucket is deeper than the directory.
-/

import Hvfs.CbhtEnds
import Hvfs.CbhtAlloc

namespace Hvfs

open Transition

/-! ### What a failed split keeps -/

/-- Every block is still found, and the buckets agree with the directory. -/
structure SplitKept (hvfsHash : U64 → U64 → U64) (t final : Cbht) : Prop where
  found : ∀ i, t.Attached i →
    mdsCbhtFind hvfsHash final (t.itb i).puuid (t.itb i).itbid = some i
  served : ∀ b < final.buckets, (final.bucket b).depth ≤ final.dirDepth ∧
    ∀ j < 2 ^ final.dirDepth, dirEntry final.dir j = some b ↔
      j % 2 ^ (final.bucket b).depth = (final.bucket b).id
  counts : Counts t → Counts final

/-- A level of a split leaves the directory. -/
theorem Leveled.contig {hvfsHash : U64 → U64 → U64} {t level : Cbht} {ob : Nat}
    {moves : Nat → Bool} (good : CbhtGood hvfsHash t) (leveled : Leveled t ob moves level) :
    Contig 0 level.dir (2 ^ level.dirDepth) := by
  rw [leveled.dir, leveled.dirDepth]
  exact good.dir.layout.contig

/-- The assertion on the depth keeps the new bucket far from 32. -/
theorem Leveled.depth_lt {t level : Cbht} {ob : Nat} {moves : Nat → Bool}
    (leveled : Leveled t ob moves level) (passed : ¬(t.bucket ob).depth + 1 ≥ 31) :
    (level.bucket t.buckets).depth < 32 := by
  obtain ⟨_, _, new, _⟩ := leveled.old
  rw [new]
  exact (not_le.mp passed).trans (by decide)

namespace Alloc

section Split

variable {hvfsHash : U64 → U64 → U64} {t final : Cbht} {ob b : Nat} {criminal : U64}
  {fail after : Failure} {site : AllocSite} {err : Int}

/-- The update of the directory runs like the one whose allocations succeed, or a `struct segment`
is missing and nothing but the directory differs. -/
theorem cbhtUpdateDir_cases (contig : Contig 0 t.dir (2 ^ t.dirDepth))
    (shallow : (t.bucket b).depth < 32) (only : fail.Only site)
    (ran : cbhtUpdateDir t b fail = .ok (err, final, after)) :
    (Hvfs.cbhtUpdateDir t b = .ok (err, final) ∧ after.Only site) ∨
      (err = -ENOMEM ∧ site = .segment ∧ (t.bucket b).depth > t.dirDepth ∧
        ∃ dir, final = { t with dir }) := by
  unfold cbhtUpdateDir at ran
  unfold Hvfs.cbhtUpdateDir
  simp only at ran ⊢
  by_cases deeper : (t.bucket b).depth > t.dirDepth
  · rw [if_pos deeper] at ran ⊢
    rcases enlarged : cbhtEnlargeDir t (t.bucket b).depth fail with stop | ⟨code, middle, rest⟩
    · rw [enlarged] at ran
      cases ran
    · rw [enlarged] at ran
      simp only at ran
      rcases cbhtEnlargeDir_cases contig (deeper.trans shallow) only enlarged with
        ⟨plain, onlyRest⟩ | ⟨rfl, here, dir, same⟩
      · rw [plain]
        simp only
        split_ifs at ran ⊢
        · cases ran
          exact Or.inl ⟨rfl, onlyRest⟩
        · cases ran
          exact Or.inl ⟨rfl, onlyRest⟩
      · rw [if_pos (by decide)] at ran
        cases ran
        exact Or.inr ⟨rfl, here, deeper, dir, same⟩
  · rw [if_neg deeper] at ran ⊢
    simp only [ne_eq, not_true_eq_false, if_false] at ran ⊢
    cases ran
    exact Or.inl ⟨rfl, only⟩

theorem cbhtBucketAlloc_only (only : fail.Only site) :
    (cbhtBucketAlloc fail).2.Only site ∧ ((cbhtBucketAlloc fail).1 = false → site = .bucket) := by
  have first := xzalloc_only only .bucket
  have failedFirst := @xzalloc_failed _ .bucket _ only
  unfold cbhtBucketAlloc
  generalize xzalloc .bucket fail = struct at first failedFirst
  obtain ⟨struct, rest⟩ := struct
  cases struct
  · exact ⟨first, fun _ => (failedFirst rfl).symm⟩
  · exact ⟨xzalloc_only first .bucket, fun failed => (xzalloc_failed first failed).symm⟩

/-- What the levels of a split leave when one of them returns an error. -/
theorem splitLoop_cases {fuel : Nat} (good : CbhtGood hvfsHash t) (present : ob < t.buckets)
    (only : fail.Only site)
    (ran : splitLoop criminal fuel t ob fail = .ok (err, final, after)) (failed : err ≠ 0) :
    (site = .bucket ∧ CbhtGood hvfsHash final ∧ SameItbs t final ∧ (Counts t → Counts final)) ∨
      (site = .segment ∧ ∃ b < final.buckets, final.dirDepth < (final.bucket b).depth) := by
  induction fuel generalizing t ob fail with
  | zero => cases ran
  | succ fuel inductionHypothesis =>
    unfold splitLoop at ran
    obtain ⟨onlyBucket, failedBucket⟩ := cbhtBucketAlloc_only only
    generalize cbhtBucketAlloc fail = allocated at ran onlyBucket failedBucket
    obtain ⟨got, rest⟩ := allocated
    cases got
    · cases ran
      exact Or.inl ⟨failedBucket rfl, good, ⟨rfl, fun _ => rfl, fun _ => rfl, fun _ => rfl,
        fun _ => Iff.rfl⟩, id⟩
    · simp only [Bool.not_true, Bool.false_eq_true, if_false] at ran
      split_ifs at ran with deep
      obtain ⟨name, leveled⟩ := splitLevel_leveled t present
      obtain ⟨middle, updated, goodMiddle, same, buckets, bucket⟩ := good.level present (by omega)
      have countsMiddle := fun counts : Counts t =>
        counts.level present same.bucketDepth buckets bucket
      -- what the following levels keep of the table in the middle is kept of this one
      have follow : ∀ side rest, side < middle.buckets → rest.Only site →
          splitLoop criminal fuel middle side rest = .ok (err, final, after) →
          (site = .bucket ∧ CbhtGood hvfsHash final ∧ SameItbs t final ∧
              (Counts t → Counts final)) ∨
            (site = .segment ∧ ∃ b < final.buckets, final.dirDepth < (final.bucket b).depth) := by
        intro side rest presentSide onlyRest ranSide
        rcases inductionHypothesis goodMiddle presentSide onlyRest ranSide with
          ⟨here, goodFinal, sameFinal, counts⟩ | unlisted
        · exact Or.inl ⟨here, goodFinal, same.trans sameFinal, fun before =>
            counts (countsMiddle before)⟩
        · exact Or.inr unlisted
      rw [name] at ran
      rcases update : cbhtUpdateDir (splitLevel t ob).2 t.buckets rest with
        stop | ⟨code, next, rest'⟩
      · rw [update] at ran
        cases ran
      · rw [update] at ran
        simp only at ran
        rcases cbhtUpdateDir_cases (leveled.contig good) (leveled.depth_lt deep) onlyBucket
          update with ⟨plain, onlyRest⟩ | ⟨rfl, here, deeper, dir, rfl⟩
        · rw [updated] at plain
          cases plain
          simp only [ne_eq, not_true_eq_false, if_false] at ran
          split_ifs at ran with deepOld deepNew
          · exact follow ob rest' (by omega) onlyRest ran
          · exact follow t.buckets rest' (by omega) onlyRest ran
          · cases ran
            exact absurd rfl failed
        · rw [if_pos (by decide)] at ran
          cases ran
          -- the old bucket has been raised with the new one
          obtain ⟨_, old, new, _⟩ := leveled.old
          rw [new] at deeper
          refine Or.inr ⟨here, ob, ?_, ?_⟩
          · show ob < (splitLevel t ob).2.buckets
            rw [leveled.buckets]
            exact Nat.lt_succ_of_lt present
          · show (splitLevel t ob).2.dirDepth < ((splitLevel t ob).2.bucket ob).depth
            rw [old]
            exact deeper

/-- Where nothing fails, the directory is updated as by the function whose allocations succeed. -/
theorem cbhtUpdateDir_none (contig : Contig 0 t.dir (2 ^ t.dirDepth))
    (shallow : (t.bucket b).depth < 32) (ran : Hvfs.cbhtUpdateDir t b = .ok (err, final)) :
    cbhtUpdateDir t b none = .ok (err, final, none) := by
  unfold Hvfs.cbhtUpdateDir at ran
  unfold cbhtUpdateDir
  simp only at ran ⊢
  by_cases deeper : (t.bucket b).depth > t.dirDepth
  · rw [if_pos deeper] at ran ⊢
    rcases enlarged : Hvfs.cbhtEnlargeDir t (t.bucket b).depth with stop | ⟨code, middle⟩
    · rw [enlarged] at ran
      cases ran
    · rw [enlarged] at ran
      rw [cbhtEnlargeDir_none contig (deeper.trans shallow) enlarged]
      simp only at ran ⊢
      split_ifs at ran ⊢ with wrong
      · cases ran
        rfl
      · cases ran
        rfl
  · rw [if_neg deeper] at ran ⊢
    simp only [ne_eq, not_true_eq_false, if_false] at ran ⊢
    cases ran
    rfl

/-- Where nothing fails, the levels of a split run like those whose allocations succeed. -/
theorem splitLoop_none {fuel : Nat} (good : CbhtGood hvfsHash t) (present : ob < t.buckets)
    (ran : Hvfs.splitLoop criminal fuel t ob = .ok (err, final)) :
    splitLoop criminal fuel t ob none = .ok (err, final, none) := by
  induction fuel generalizing t ob with
  | zero => cases ran
  | succ fuel inductionHypothesis =>
    have got : cbhtBucketAlloc none = (true, none) := rfl
    unfold Hvfs.splitLoop at ran
    unfold splitLoop
    simp only [got, Bool.not_true, Bool.false_eq_true, if_false]
    by_cases deep : (t.bucket ob).depth + 1 ≥ 31
    · rw [if_pos deep] at ran
      cases ran
    · rw [if_neg deep] at ran ⊢
      obtain ⟨name, leveled⟩ := splitLevel_leveled t present
      obtain ⟨middle, updated, goodMiddle, _, buckets, _⟩ := good.level present (by omega)
      simp only [name, updated] at ran ⊢
      have same := cbhtUpdateDir_none (leveled.contig good) (leveled.depth_lt deep) updated
      simp only [same, ne_eq, not_true_eq_false, if_false] at ran ⊢
      split_ifs at ran ⊢ with deepOld deepNew
      · exact inductionHypothesis goodMiddle (by omega) ran
      · exact inductionHypothesis goodMiddle (by omega) ran
      · cases ran
        rfl

/-- Where nothing fails, a split runs like the one whose allocations succeed. -/
theorem cbhtBucketSplit_none {sdepth : Nat} (good : CbhtGood hvfsHash t) (present : ob < t.buckets)
    (ran : Hvfs.cbhtBucketSplit t ob criminal sdepth = .ok (err, final)) :
    cbhtBucketSplit t ob criminal sdepth none = .ok (err, final, none) := by
  unfold Hvfs.cbhtBucketSplit at ran
  unfold cbhtBucketSplit
  split_ifs at ran ⊢
  · cases ran
    rfl
  · cases ran
    rfl
  · exact splitLoop_none good present ran

end Split

end Alloc

/-! ### Failed splits -/

section Failed

variable {hvfsHash : U64 → U64 → U64} {t final : Cbht}

/-- A good table with the blocks of another one keeps everything. -/
theorem CbhtGood.kept (goodFinal : CbhtGood hvfsHash final) (same : SameItbs t final)
    (counts : Counts t → Counts final) : SplitKept hvfsHash t final where
  found i attached := by
    rw [goodFinal.mdsCbhtFind_iff]
    refine ⟨fun free => attached ((same.attached i).mp free), ?_⟩
    exact Prod.ext (same.puuid i) (same.itbid i)
  served b present := by
    have dir := goodFinal.dir
    obtain ⟨k, inside, rfl⟩ := (dir.allocated b).mp present
    refine ⟨dir.directed.shallow k inside, fun j insideOther => ?_⟩
    rw [dir.entry j insideOther, Option.some_inj, dir.directed.slot_iff inside insideOther]
  counts := counts

/-- In every good table, a split of the bucket of a hash in which an allocation fails and that
returns an error keeps everything exactly when there was nothing to split or what failed is not a
`struct segment`. -/
theorem cbht_split_failure (hvfsHash : U64 → U64 → U64) (t final : Cbht) (b sdepth before : Nat)
    (criminal : U64) (site : AllocSite) (err : Int) (after : Failure)
    (good : CbhtGood hvfsHash t) (search : mdsCbhtSearchDir t criminal = some b)
    (ran : Alloc.cbhtBucketSplit t b criminal sdepth (some (site, before)) =
      .ok (err, final, after)) (failed : err ≠ 0) :
    SplitKept hvfsHash t final ↔ (Full t b → sdepth = t.dirDepth → site ≠ .segment) := by
  have present := good.dir.searchDir_lt search
  have unchanged : SplitKept hvfsHash t t :=
    good.kept ⟨rfl, fun _ => rfl, fun _ => rfl, fun _ => rfl, fun _ => Iff.rfl⟩ id
  unfold Alloc.cbhtBucketSplit at ran
  split_ifs at ran with room stale
  · cases ran
    exact ⟨fun _ full => absurd room (not_lt.mpr full), fun _ => unchanged⟩
  · cases ran
    exact ⟨fun _ _ same => absurd same stale, fun _ => unchanged⟩
  · have full : Full t b := not_lt.mp room
    have fresh : sdepth = t.dirDepth := not_not.mp stale
    simp only [full, fresh, forall_const]
    rcases Alloc.splitLoop_cases good present (Failure.only_some site before) ran failed with
      ⟨rfl, goodFinal, same, counts⟩ | ⟨rfl, raised, allocated, deeper⟩
    · exact ⟨fun _ => (by decide), fun _ => goodFinal.kept same counts⟩
    · refine ⟨fun kept => ?_, fun other => absurd rfl other⟩
      exact absurd (kept.served raised allocated).1 (not_le.mpr deeper)

end Failed

/-- A split that goes on to a second level has no bucket for it; what the first level did is in
order. -/
theorem cbht_split_failure_bucket :
    ∃ t final, run (countStep fun _ itbid => itbid)
        (mdsCbhtInit 0 (freeItbs fun i => (0, BitVec.ofNat 64 (4 * i)))) [.insert 0, .insert 1] =
        some t ∧
      Alloc.cbhtBucketSplit t 0 2 0 (some (.bucket, 2)) = .ok (-ENOMEM, final, none) ∧
      final.dirDepth = 1 ∧ SplitKept (fun _ itbid => itbid) t final := by
  obtain ⟨t, final, reached, search, ran, depth⟩ : ∃ t final,
      run (countStep fun _ itbid => itbid)
          (mdsCbhtInit 0 (freeItbs fun i => (0, BitVec.ofNat 64 (4 * i)))) [.insert 0, .insert 1] =
          some t ∧
        mdsCbhtSearchDir t 2 = some 0 ∧
        Alloc.cbhtBucketSplit t 0 2 0 (some (.bucket, 2)) = .ok (-ENOMEM, final, none) ∧
        final.dirDepth = 1 := ⟨_, _, rfl, rfl, rfl, rfl⟩
  refine ⟨t, final, reached, ran, depth, ?_⟩
  exact (cbht_split_failure (fun _ itbid => itbid) t final 0 0 2 2 .bucket (-ENOMEM) none
    (run_good reached) search ran (by decide)).mpr fun _ _ => by decide

/-! ### A directory of one segment -/

section Single

variable {hvfsHash : U64 → U64 → U64} {t : Cbht} {s : Segment} {ob b : Nat} {criminal : U64}
  {fail : Failure}

/-- A segment with room for it is doubled without an allocation. -/
theorem enlargeLoop_fits {fuel : Nat} (some : 0 < s.len) (room : 2 * s.len ≤ s.alen) :
    Alloc.enlargeLoop (fuel + 2) ⟨[], s, []⟩ true 0 s.len fail =
      .ok (0, ⟨[], fillSegment s [s] 0 s.len, []⟩, fail) := by
  have olen : min (s.alen - s.len) s.len = s.len := by omega
  have positive : s.len ≠ 0 := by omega
  unfold Alloc.enlargeLoop
  simp only [olen, positive, ne_eq, not_false_eq_true, Bool.not_true, Bool.false_eq_true, and_false,
    if_false, Nat.sub_self, not_true_eq_false, false_and]
  rfl

/-- The enlargement of a directory of one segment begins at that segment. -/
theorem cbhtEnlargeDir_one (contig : Contig 0 t.dir (2 ^ t.dirDepth)) (dir : t.dir = [s])
    (len : s.len = 2 ^ t.dirDepth) (shallow : t.dirDepth < 32)
    (depth : (t.bucket b).depth = t.dirDepth + 1) :
    Alloc.cbhtEnlargeDir t (t.bucket b).depth fail =
      Alloc.enlargeDirFrom t s.len fail (some ⟨[], s, []⟩) := by
  have found : enlargeFrom (2 ^ t.dirDepth) t.dir = some ⟨[], s, []⟩ := by
    rw [dir, enlargeFrom, len, if_pos rfl]
  rw [Alloc.cbhtEnlargeDir_eq contig (by omega) shallow, found, len]

/-- The update of a directory of one segment that has room. -/
theorem cbhtUpdateDir_fits (contig : Contig 0 t.dir (2 ^ t.dirDepth)) (dir : t.dir = [s])
    (len : s.len = 2 ^ t.dirDepth) (shallow : t.dirDepth < 32) (room : 2 * s.len ≤ s.alen)
    (depth : (t.bucket b).depth = t.dirDepth + 1) :
    ∃ middle after, Alloc.cbhtUpdateDir t b fail = .ok (0, middle, fail) ∧
      middle.dir = [after] ∧ after.alen = s.alen ∧ middle.dirDepth = t.dirDepth + 1 := by
  have loop := @enlargeLoop_fits s fail (2 * s.len) (len ▸ Nat.two_pow_pos _) room
  unfold Alloc.cbhtUpdateDir
  simp only
  rw [if_pos (show (t.bucket b).depth > t.dirDepth by omega),
    cbhtEnlargeDir_one contig dir len shallow depth, Alloc.enlargeDirFrom, loop]
  exact ⟨_, _, rfl, rfl, rfl, rfl⟩

/-- The update of a full directory of one segment, for which there is no second one. -/
theorem cbhtUpdateDir_full (contig : Contig 0 t.dir (2 ^ t.dirDepth)) (dir : t.dir = [s])
    (len : s.len = 2 ^ t.dirDepth) (shallow : t.dirDepth < 32) (full : s.len = s.alen)
    (depth : (t.bucket b).depth = t.dirDepth + 1) :
    Alloc.cbhtUpdateDir t b (some (.segment, 0)) = .ok (-ENOMEM, t, none) := by
  have positive : s.alen ≠ 0 := by
    rw [← full, len]
    exact Nat.ne_of_gt (Nat.two_pow_pos _)
  unfold Alloc.cbhtUpdateDir
  simp only
  rw [if_pos (show (t.bucket b).depth > t.dirDepth by omega),
    cbhtEnlargeDir_one contig dir len shallow depth]
  simp only [Alloc.enlargeDirFrom, Alloc.enlargeLoop, full, Nat.sub_self, Nat.zero_min, ne_eq,
    not_true_eq_false, false_and, if_false, if_true, positive, Nat.sub_zero, not_false_eq_true,
    and_self, xzalloc, Bool.not_false]
  rw [if_pos (by decide)]
  unfold DirCursor.dir
  rw [List.nil_append, ← dir]
  exact if_pos (by decide)

/-- A block that has moved into a bucket that is not in the directory is not found. -/
theorem splitLevel_lost {i o : Nat} (good : CbhtGood hvfsHash t) (present : ob < t.buckets)
    (here : (t.itb i).be = some (ob, o))
    (set : (t.high (t.itb i).hash).testBit (t.bucket ob).depth = true) :
    mdsCbhtFind hvfsHash (splitLevel t ob).2 (t.itb i).puuid (t.itb i).itbid = none := by
  obtain ⟨_, leveled⟩ := splitLevel_leveled t present
  have same := leveled.sameItbs good.blocks.hung present
  obtain ⟨hashed, place, _⟩ := good.blocks.hashed i ob o here
  have attached : t.Attached i := by
    unfold Cbht.Attached
    rw [here]
    exact Option.some_ne_none _
  obtain ⟨other, search, _, be, _⟩ := good.place attached
  rw [here] at be
  cases be
  have searchLevel : mdsCbhtSearchDir (splitLevel t ob).2
      (hvfsHash (t.itb i).puuid (t.itb i).itbid) = some ob := by
    rw [← hashed, ← search]
    unfold mdsCbhtSearchDir
    rw [leveled.dir, leveled.dirDepth, leveled.bucketDepth]
  unfold mdsCbhtFind
  simp only [searchLevel]
  split_ifs
  · rfl
  · rw [← hashed, low_eq]
    refine List.find?_eq_none.mpr fun j member keyed => ?_
    -- a block with the key on the old chain would be the same block, which has left the chain
    have low : t.low (t.itb i).hash < 2 ^ t.bucketDepth := low_lt t _
    have lowLevel : (splitLevel t ob).2.low (t.itb i).hash = t.low (t.itb i).hash := by
      unfold Cbht.low
      rw [leveled.bucketDepth]
    rw [lowLevel] at member
    rcases (leveled.mem_content present low).mp member with
      ⟨absurdity, _⟩ | ⟨_, before, stays⟩ | ⟨different, _⟩
    · exact absurd absurdity (Nat.ne_of_lt present)
    · have there := (good.blocks.placed j ob _).mpr ⟨present, low, before⟩
      obtain ⟨samePuuid, sameItbid⟩ := Prod.mk.inj ((keyIs_iff _ j).mp keyed)
      rw [same.puuid] at samePuuid
      rw [same.itbid] at sameItbid
      obtain rfl := good.blocks.keys j i (by rw [there]; exact Option.some_ne_none _) attached
        samePuuid sameItbid
      rw [hashBit_testBit, set] at stays
      cases stays
    · exact absurd rfl different

/-- The split of a bucket as deep as the directory, whose blocks agree with the hash in the bits
that the segment has room for, gets to the end of the segment and fails there. -/
theorem splitLoop_unlisted {a fuel : Nat} (good : CbhtGood hvfsHash t) (counts : Counts t)
    (present : ob < t.buckets) (dir : t.dir = [s]) (alen : s.alen = 2 ^ a) (small : a < 30)
    (depth : (t.bucket ob).depth = t.dirDepth) (shallow : t.dirDepth ≤ a)
    (enough : a < fuel + t.dirDepth)
    (together : ∀ i o, (t.itb i).be = some (ob, o) → ∀ k, t.dirDepth ≤ k → k < a →
      (t.high (t.itb i).hash).testBit k = (t.high criminal).testBit k) :
    ∃ final, Alloc.splitLoop criminal fuel t ob (some (.segment, 0)) =
        .ok (-ENOMEM, final, none) ∧
      ∀ i o, (t.itb i).be = some (ob, o) → (t.high (t.itb i).hash).testBit a = true →
        mdsCbhtFind hvfsHash final (t.itb i).puuid (t.itb i).itbid = none := by
  induction fuel generalizing t ob s with
  | zero => omega
  | succ fuel inductionHypothesis =>
    have len : s.len = 2 ^ t.dirDepth := by
      have contig := good.dir.layout.contig
      rw [dir] at contig
      have total : 0 + s.len = 2 ^ t.dirDepth := contig.2
      omega
    obtain ⟨name, leveled⟩ := splitLevel_leveled t present
    obtain ⟨_, old, new, _⟩ := leveled.old
    have dirLevel : (splitLevel t ob).2.dir = [s] := leveled.dir.trans dir
    have lenLevel : s.len = 2 ^ (splitLevel t ob).2.dirDepth := by rw [leveled.dirDepth, len]
    have depthNew : ((splitLevel t ob).2.bucket t.buckets).depth =
        (splitLevel t ob).2.dirDepth + 1 := by
      rw [new, leveled.dirDepth, ← depth]
    have got : Alloc.cbhtBucketAlloc (some (.segment, 0)) = (true, some (.segment, 0)) := rfl
    unfold Alloc.splitLoop
    simp only [got, Bool.not_true, Bool.false_eq_true, if_false]
    rw [if_neg (by omega), name]
    have contigLevel := leveled.contig good
    have shallowLevel : (splitLevel t ob).2.dirDepth < 32 := by
      rw [leveled.dirDepth]
      omega
    by_cases last : t.dirDepth = a
    · rw [cbhtUpdateDir_full contigLevel dirLevel lenLevel shallowLevel (by rw [len, alen, last])
        depthNew]
      refine ⟨_, rfl, fun i o here set => ?_⟩
      exact splitLevel_lost good present here (by rw [depth, last, set])
    · have wide : 2 * s.len ≤ s.alen := by
        rw [len, alen, ← pow_succ']
        exact Nat.pow_le_pow_right (by decide) (by omega)
      obtain ⟨middle, after, updated, dirMiddle, alenAfter, depthMiddle⟩ :=
        @cbhtUpdateDir_fits _ s t.buckets (some (.segment, 0)) contigLevel dirLevel lenLevel
          shallowLevel wide depthNew
      rw [leveled.dirDepth] at depthMiddle
      obtain ⟨sameMiddle, plain, goodMiddle, same, buckets, bucket⟩ := good.level present
        (by omega)
      obtain rfl : middle = sameMiddle := by
        rcases Alloc.cbhtUpdateDir_cases contigLevel (leveled.depth_lt (by omega))
          (Failure.only_some .segment 0) updated with
          ⟨ran, _⟩ | ⟨absurdity, _⟩
        · rw [plain] at ran
          cases ran
          rfl
        · exact absurd absurdity (by decide)
      have countsMiddle := counts.level present same.bucketDepth buckets bucket
      have be := leveled.be good.blocks present goodMiddle same.bucketDepth buckets bucket
      simp only [hashBit_testBit] at be
      have high : ∀ hash, middle.high hash = t.high hash := fun hash => by
        unfold Cbht.high
        rw [same.bucketDepth]
      -- a side without blocks counts none
      have empty : ∀ side < middle.buckets, (∀ i o, (middle.itb i).be ≠ some (side, o)) →
          (middle.bucket side).active = 0 := by
        intro side presentSide free
        rw [countsMiddle side presentSide]
        by_contra used
        obtain ⟨i, o, there⟩ := goodMiddle.exists_of_load presentSide fun zero =>
          used (by rw [zero]; rfl)
        exact free i o there
      have again : ∀ side < middle.buckets, (middle.bucket side).depth = middle.dirDepth →
          (∀ i o, (middle.itb i).be = some (side, o) ↔ (t.itb i).be = some (ob, o)) →
          ∃ final, Alloc.splitLoop criminal fuel middle side (some (.segment, 0)) =
              .ok (-ENOMEM, final, none) ∧
            ∀ i o, (t.itb i).be = some (ob, o) → (t.high (t.itb i).hash).testBit a = true →
              mdsCbhtFind hvfsHash final (t.itb i).puuid (t.itb i).itbid = none := by
        intro side presentSide depthSide before
        obtain ⟨final, ran, lost⟩ := inductionHypothesis goodMiddle countsMiddle presentSide
          dirMiddle (alenAfter.trans alen) depthSide (by omega) (by omega) (by
            intro i o there k above below
            rw [same.hash, high, high]
            exact together i o ((before i o).mp there) k (by omega) below)
        refine ⟨final, ran, fun i o here set => ?_⟩
        rw [← same.puuid, ← same.itbid]
        exact lost i o ((before i o).mpr here) (by rw [same.hash, high, set])
      have depthLevel : ((splitLevel t ob).2.bucket t.buckets).depth =
          (t.bucket ob).depth + 1 := by rw [new]
      simp only [updated, depthLevel, leveled.bucketDepth, hashBit_testBit, ne_eq,
        not_true_eq_false, if_false]
      have presentOld : ob < middle.buckets := by omega
      have presentNew : t.buckets < middle.buckets := by omega
      rcases bit : (t.high criminal).testBit (t.bucket ob).depth
      · have free : ∀ i o, (middle.itb i).be ≠ some (t.buckets, o) := by
          intro i o there
          obtain ⟨here, set⟩ := (be i o).1.mp there
          rw [depth] at set bit
          rw [together i o here _ (le_refl _) (by omega), bit] at set
          cases set
        rw [if_pos ⟨empty t.buckets presentNew free, rfl⟩]
        exact again ob presentOld (by rw [bucket, old, depthMiddle, depth])
          fun i o => ⟨fun there => ((be i o).2.mp there).1, fun here => (be i o).2.mpr ⟨here, by
            rw [depth] at bit ⊢
            rw [together i o here _ (le_refl _) (by omega), bit]⟩⟩
      · have free : ∀ i o, (middle.itb i).be ≠ some (ob, o) := by
          intro i o there
          obtain ⟨here, clear⟩ := (be i o).2.mp there
          rw [depth] at clear bit
          rw [together i o here _ (le_refl _) (by omega), bit] at clear
          cases clear
        rw [if_neg (by simp), if_pos ⟨empty ob presentOld free, rfl⟩]
        exact again t.buckets presentNew (by rw [bucket, new, depthMiddle, depth])
          fun i o => ⟨fun there => ((be i o).1.mp there).1, fun here => (be i o).1.mpr ⟨here, by
            rw [depth] at bit ⊢
            rw [together i o here _ (le_refl _) (by omega), bit]⟩⟩

end Single

/-- The hashes of the keys that agree in the 14 lowest bits of `puuid`. -/
theorem hvfsHashCbht_low (k : Nat) (low : k < 14) :
    (hvfsHashCbht (BitVec.ofNat 64 (0 <<< 14)) 0).toNat.testBit k =
        (hvfsHashCbht (BitVec.ofNat 64 (2 <<< 14)) 0).toNat.testBit k ∧
      (hvfsHashCbht (BitVec.ofNat 64 (1 <<< 14)) 0).toNat.testBit k =
        (hvfsHashCbht (BitVec.ofNat 64 (2 <<< 14)) 0).toNat.testBit k := by
  revert low
  revert k
  decide

/-- A bucket is split for a hash that agrees with those of its two blocks in the bits that one
segment has room for; there is no second segment, and a block is lost. -/
theorem cbht_split_failure_lost :
    ∃ t final, run (countStep hvfsHashCbht)
        (mdsCbhtInit 0 (freeItbs fun i => (BitVec.ofNat 64 (i <<< 14), 0)))
        [.insert 0, .insert 1] = some t ∧
      Alloc.cbhtBucketSplit t 0 (hvfsHashCbht (BitVec.ofNat 64 (2 <<< 14)) 0) 0
        (some (.segment, 0)) = .ok (-ENOMEM, final, none) ∧
      t.Attached 0 ∧
      mdsCbhtFind hvfsHashCbht final (t.itb 0).puuid (t.itb 0).itbid = none ∧
      ¬SplitKept hvfsHashCbht t final := by
  obtain ⟨t, s, reached, active, depth, chain, bucketDepth, adepth, hash, dir, dirDepth, alen,
      buckets, be⟩ :
      ∃ t s, run (countStep hvfsHashCbht)
          (mdsCbhtInit 0 (freeItbs fun i => (BitVec.ofNat 64 (i <<< 14), 0)))
          [.insert 0, .insert 1] = some t ∧
        (t.bucket 0).active = 2 ∧ (t.bucket 0).depth = 0 ∧ (t.bucket 0).content 0 = [1, 0] ∧
        t.bucketDepth = 0 ∧ (t.bucket 0).adepth = 0 ∧
        ((t.itb 0).hash = hvfsHashCbht (BitVec.ofNat 64 (0 <<< 14)) 0 ∧
          (t.itb 1).hash = hvfsHashCbht (BitVec.ofNat 64 (1 <<< 14)) 0) ∧
        t.dir = [s] ∧ t.dirDepth = 0 ∧ s.alen = SEG_TOTAL ∧ t.buckets = 1 ∧
        (t.itb 0).be = some (0, 0) :=
    ⟨_, _, rfl, rfl, rfl, rfl, rfl, rfl, ⟨rfl, rfl⟩, rfl, rfl, rfl, rfl, rfl⟩
  have good := run_good reached
  have counts : Counts t := by
    intro b inside
    rw [buckets] at inside
    obtain rfl := Nat.lt_one_iff.mp inside
    unfold Cbht.load
    rw [active, bucketDepth]
    simp [chain]
  have high : ∀ hash, t.high hash = hash.toNat := by
    intro hash
    unfold Cbht.high
    rw [bucketDepth, Nat.pow_zero, Nat.div_one]
  have attached : t.Attached 0 := by
    unfold Cbht.Attached
    rw [be]
    exact Option.some_ne_none _
  obtain ⟨final, ran, lost⟩ := @splitLoop_unlisted hvfsHashCbht t s 0
    (hvfsHashCbht (BitVec.ofNat 64 (2 <<< 14)) 0) 14 31 good counts (by omega) dir alen (by decide)
    (depth.trans dirDepth.symm) (by omega) (by omega) (by
      intro i o here k _ below
      obtain ⟨_, low, member⟩ := (good.blocks.placed i 0 o).mp here
      rw [bucketDepth] at low
      obtain rfl : o = 0 := Nat.lt_one_iff.mp low
      rw [chain] at member
      rw [high, high]
      rcases List.mem_cons.mp member with rfl | rest
      · rw [hash.2]
        exact (hvfsHashCbht_low k below).2
      · obtain rfl := List.mem_singleton.mp rest
        rw [hash.1]
        exact (hvfsHashCbht_low k below).1)
  have gone := lost 0 0 be (by rw [high, hash.1]; decide)
  refine ⟨t, final, reached, ?_, attached, gone, fun kept => ?_⟩
  · unfold Alloc.cbhtBucketSplit
    rw [active, adepth, dirDepth, if_neg (by decide), if_neg (by decide)]
    exact ran
  · rw [kept.found 0 attached] at gone
    cases gone

end Hvfs
