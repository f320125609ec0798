/-
This file determines when splitting a bucket of the CBHT ends.

A split goes on as long as all blocks are on the side of the hash that it was
made for. That hash and the blocks of the bucket have the same bits up to the
level of the bucket, so it ends at the first higher bit in which one of the
blocks differs from the hash. Nothing in the source bounds the level: when there
is no such bit below 30, the directory gets as deep as the width of the integers
that are shifted.
-/

import Hvfs.CbhtCount
import Hvfs.Hash

namespace Hvfs

open Transition

/-! ### What ends a split -/

/-- The bucket must be split before something is inserted. -/
def Full (t : Cbht) (b : Nat) : Prop :=
  (t.bucket b).active ≥ ((2 <<< (t.bucket b).adepth : Nat) : Int)

/-- There is a bit, behind those that the bucket has in common, in which a block of the bucket
differs from the hash. A bucket that counts more blocks than it has is left as it is at the first
bit that is set in the hash. -/
def Separated (t : Cbht) (b : Nat) (criminal : U64) : Prop :=
  ∃ k, (t.bucket b).depth ≤ k ∧ k < 30 ∧
    ((∃ i o, (t.itb i).be = some (b, o) ∧
        (t.high (t.itb i).hash).testBit k ≠ (t.high criminal).testBit k) ∨
      ((t.high criminal).testBit k = true ∧ (t.load b : Int) < (t.bucket b).active))

/-- A split returns, with a directory whose depth can be shifted; if it split the bucket, the
bucket of the hash has room. -/
def SplitEnds (t : Cbht) (b : Nat) (criminal : U64) (sdepth : Nat) : Prop :=
  ∃ err final, cbhtBucketSplit t b criminal sdepth = .ok (err, final) ∧ final.dirDepth < 31 ∧
    (err = -EAGAIN ∨
      err = 0 ∧ ∃ side, mdsCbhtSearchDir final criminal = some side ∧ ¬Full final side)

/-- An insertion returns, with a directory whose depth can be shifted and a bucket that had room
for the block. -/
def InsertEnds (hvfsHash : U64 → U64 → U64) (t : Cbht) (i : Nat) : Prop :=
  ∃ reply next before side, mdsCbhtInsert hvfsHash t i = .ok (reply, next) ∧ next.dirDepth < 31 ∧
    reply.ob = some side ∧ mdsCbhtSearchDir before (next.itb i).hash = some side ∧
    ¬Full before side ∧
    (reply.err = -EEXIST ∧ next = before ∨
      reply.err = 0 ∧ ∃ o, reply.oe = some (side, o) ∧ next = before.attach i side o)

section Level

variable {hvfsHash : U64 → U64 → U64} {t final : Cbht} {ob side : Nat} {criminal : U64}

theorem hashBit_testBit (t : Cbht) (hash : U64) (d : Nat) :
    hashBit t.bucketDepth hash (d + 1) = (t.high hash).testBit d := by
  unfold hashBit Cbht.high
  rw [Nat.add_sub_cancel, Nat.shiftRight_eq_div_pow, Nat.one_shiftLeft, Nat.and_two_pow]
  rcases (hash.toNat / 2 ^ t.bucketDepth).testBit d with clear | set
  · simp
  · simp

/-- Where the blocks of a table are after a level. -/
theorem Leveled.be {moves : Nat → Bool} {after : Cbht} (leveled : Leveled t ob moves after)
    (blocks : CbhtPlaced hvfsHash t) (present : ob < t.buckets)
    (goodFinal : CbhtGood hvfsHash final) (bucketDepth : final.bucketDepth = t.bucketDepth)
    (buckets : final.buckets = t.buckets + 1) (bucket : final.bucket = after.bucket) (i o : Nat) :
    ((final.itb i).be = some (t.buckets, o) ↔ (t.itb i).be = some (ob, o) ∧ moves i = true) ∧
      ((final.itb i).be = some (ob, o) ↔ (t.itb i).be = some (ob, o) ∧ moves i = false) := by
  have apart : ob ≠ t.buckets := Nat.ne_of_lt present
  have chain := blocks.placed i ob o
  constructor
  · rw [goodFinal.blocks.placed, bucketDepth, buckets, bucket, chain]
    constructor
    · rintro ⟨_, low, member⟩
      rcases (leveled.mem_content present low).mp member with
        ⟨_, before, moved⟩ | ⟨same, _⟩ | ⟨_, different, _⟩
      · exact ⟨⟨present, low, before⟩, moved⟩
      · exact absurd same.symm apart
      · exact absurd rfl different
    · rintro ⟨⟨_, low, before⟩, moved⟩
      exact ⟨Nat.lt_succ_self _, low,
        (leveled.mem_content present low).mpr (Or.inl ⟨rfl, before, moved⟩)⟩
  · rw [goodFinal.blocks.placed, bucketDepth, buckets, bucket, chain]
    constructor
    · rintro ⟨_, low, member⟩
      rcases (leveled.mem_content present low).mp member with
        ⟨same, _⟩ | ⟨_, before, stays⟩ | ⟨different, _⟩
      · exact absurd same apart
      · exact ⟨⟨present, low, before⟩, stays⟩
      · exact absurd rfl different
    · rintro ⟨⟨_, low, before⟩, stays⟩
      exact ⟨Nat.lt_succ_of_lt present, low,
        (leveled.mem_content present low).mpr (Or.inr (Or.inl ⟨rfl, before, stays⟩))⟩

/-- The side that got everything is separated from the hash by the same bits as the bucket before,
unless the bit of the level separates them. -/
theorem separated_side (bucketDepth : final.bucketDepth = t.bucketDepth)
    (hashes : ∀ i, (final.itb i).hash = (t.itb i).hash)
    (depth : (final.bucket side).depth = (t.bucket ob).depth + 1)
    (be : ∀ i o, (final.itb i).be = some (side, o) ↔ (t.itb i).be = some (ob, o))
    (drift : (final.load side : Int) < (final.bucket side).active ↔
      (t.load ob : Int) < (t.bucket ob).active)
    (bits : ∀ i o, (t.itb i).be = some (ob, o) → (t.high (t.itb i).hash).testBit
      (t.bucket ob).depth = (t.high criminal).testBit (t.bucket ob).depth)
    (counted : ¬((t.high criminal).testBit (t.bucket ob).depth = true ∧
      (t.load ob : Int) < (t.bucket ob).active)) :
    Separated final side criminal ↔ Separated t ob criminal := by
  have high : ∀ hash, final.high hash = t.high hash := fun hash => by
    unfold Cbht.high
    rw [bucketDepth]
  unfold Separated
  simp only [depth, be, hashes, high, drift]
  constructor
  · rintro ⟨k, above, small, separates⟩
    exact ⟨k, by omega, small, separates⟩
  · rintro ⟨k, above, small, separates⟩
    refine ⟨k, ?_, small, separates⟩
    -- the level itself does not separate
    by_contra below
    obtain rfl : k = (t.bucket ob).depth := by omega
    rcases separates with ⟨i, o, here, differs⟩ | drifted
    · exact differs (bits i o here)
    · exact counted drifted

theorem CbhtGood.exists_of_load (good : CbhtGood hvfsHash t) (present : ob < t.buckets)
    (used : t.load ob ≠ 0) : ∃ i o, (t.itb i).be = some (ob, o) := by
  by_contra free
  refine used (load_eq_zero.mpr fun o low => List.eq_nil_iff_forall_not_mem.mpr fun i member => ?_)
  exact free ⟨i, o, (good.blocks.placed i ob o).mpr ⟨present, low, member⟩⟩

/-- The levels of a split get too deep exactly when no bit separates the blocks from the hash. -/
theorem splitLoop_deep_iff {fuel : Nat} (good : CbhtGood hvfsHash t) (present : ob < t.buckets)
    (enough : 31 ≤ fuel + (t.bucket ob).depth) :
    splitLoop criminal fuel t ob = .error .depth ↔ ¬Separated t ob criminal := by
  induction fuel generalizing t ob with
  | zero =>
    have level := (good.dir.id_lt present).2
    have bounded := good.dir.bounded
    omega
  | succ fuel inductionHypothesis =>
    unfold splitLoop
    by_cases deep : (t.bucket ob).depth + 1 ≥ 31
    · rw [if_pos deep]
      refine ⟨fun _ => ?_, fun _ => rfl⟩
      rintro ⟨k, above, small, _⟩
      omega
    · rw [if_neg deep]
      obtain ⟨name, leveled⟩ := splitLevel_leveled t present
      obtain ⟨final, updated, goodFinal, same, buckets, bucket⟩ := good.level present (by omega)
      obtain ⟨moved, loadNew, loadOld, activeOld, activeNew, _⟩ := leveled.load
      obtain ⟨_, old, new, _⟩ := leveled.old
      have counted := good.blocks.counted ob present
      have load : ∀ b, final.load b = (splitLevel t ob).2.load b := fun b =>
        load_congr (by rw [same.bucketDepth, leveled.bucketDepth]) (by rw [bucket])
      rw [← load] at loadNew loadOld
      rw [← bucket] at old new activeOld activeNew
      have presentOld : ob < final.buckets := by omega
      have presentNew : t.buckets < final.buckets := by omega
      have countedOld := goodFinal.blocks.counted ob presentOld
      have depthOld : (final.bucket ob).depth = (t.bucket ob).depth + 1 := by rw [old]
      have depthNew : (final.bucket t.buckets).depth = (t.bucket ob).depth + 1 := by rw [new]
      have be := leveled.be good.blocks present goodFinal same.bucketDepth buckets bucket
      simp only [hashBit_testBit] at be
      have depthLevel : ((splitLevel t ob).2.bucket (splitLevel t ob).1).depth =
          (t.bucket ob).depth + 1 := by
        rw [name, ← bucket, depthNew]
      simp only [depthLevel, leveled.bucketDepth, hashBit_testBit]
      rw [name, updated]
      simp only [ne_eq, not_true_eq_false, if_false]
      split_ifs with deepOld deepNew
      · -- nothing moved, and the hash stays with the old bucket
        obtain ⟨none, clear⟩ := deepOld
        have clear : (t.high criminal).testBit (t.bucket ob).depth = false := by simpa using clear
        have stays : ∀ i o, (t.itb i).be = some (ob, o) →
            (t.high (t.itb i).hash).testBit (t.bucket ob).depth = false := by
          intro i o here
          by_contra set
          have there := (be i o).1.mpr ⟨here, by simpa using set⟩
          obtain ⟨_, low, member⟩ := (goodFinal.blocks.placed i t.buckets o).mp there
          exact goodFinal.active_ne_zero presentNew low member none
        rw [inductionHypothesis goodFinal presentOld (by omega)]
        refine not_congr (separated_side same.bucketDepth same.hash depthOld (fun i o => ?_) ?_
          (fun i o here => ?_) ?_)
        · rw [(be i o).2]
          exact ⟨And.left, fun here => ⟨here, stays i o here⟩⟩
        · omega
        · rw [stays i o here, clear]
        · rintro ⟨set, _⟩
          rw [clear] at set
          cases set
      · -- everything moved, and the hash goes to the new bucket
        obtain ⟨none, set⟩ := deepNew
        have moves : ∀ i o, (t.itb i).be = some (ob, o) →
            (t.high (t.itb i).hash).testBit (t.bucket ob).depth = true := by
          intro i o here
          by_contra clear
          have there := (be i o).2.mpr ⟨here, by simpa using clear⟩
          obtain ⟨_, low, member⟩ := (goodFinal.blocks.placed i ob o).mp there
          exact goodFinal.active_ne_zero presentOld low member none
        rw [inductionHypothesis goodFinal presentNew (by omega)]
        refine not_congr (separated_side same.bucketDepth same.hash depthNew (fun i o => ?_) ?_
          (fun i o here => ?_) ?_)
        · rw [(be i o).1]
          exact ⟨And.left, fun here => ⟨here, moves i o here⟩⟩
        · omega
        · rw [moves i o here, set]
        · omega
      · refine ⟨fun absurdity => (by cases absurdity), fun together => ?_⟩
        refine absurd ⟨(t.bucket ob).depth, le_refl _, by omega, ?_⟩ together
        -- some block is on the other side, or the count of the bucket is too high
        rcases bit : (t.high criminal).testBit (t.bucket ob).depth
        · have used : final.load t.buckets ≠ 0 := by
            intro none
            refine deepOld ⟨?_, by rw [bit]; rfl⟩
            omega
          obtain ⟨i, o, there⟩ := goodFinal.exists_of_load presentNew used
          obtain ⟨here, set⟩ := (be i o).1.mp there
          refine Or.inl ⟨i, o, here, ?_⟩
          rw [set]
          exact Bool.true_eq_false.mp
        · by_cases drift : (t.load ob : Int) < (t.bucket ob).active
          · exact Or.inr ⟨rfl, drift⟩
          · have used : final.load ob ≠ 0 := by
              intro none
              refine deepNew ⟨?_, bit⟩
              omega
            obtain ⟨i, o, there⟩ := goodFinal.exists_of_load presentOld used
            obtain ⟨here, clear⟩ := (be i o).2.mp there
            refine Or.inl ⟨i, o, here, ?_⟩
            rw [clear]
            exact Bool.false_ne_true

end Level

section Calls

variable {hvfsHash : U64 → U64 → U64} {t : Cbht} {b i : Nat} {criminal hash : U64}

/-- A split of a full bucket in the directory that it was found in: where a bit separates the blocks
from the hash, the bucket of the hash has room afterwards, and elsewhere the directory would get too
deep. -/
theorem split_full_cases (good : CbhtGood hvfsHash t)
    (search : mdsCbhtSearchDir t criminal = some b) (full : Full t b) :
    Separated t b criminal ∧
        (∃ final side, cbhtBucketSplit t b criminal t.dirDepth = .ok (0, final) ∧
          CbhtGood hvfsHash final ∧ SameItbs t final ∧
          mdsCbhtSearchDir final criminal = some side ∧ ¬Full final side) ∨
      ¬Separated t b criminal ∧ cbhtBucketSplit t b criminal t.dirDepth = .error .depth := by
  have present := good.dir.searchDir_lt search
  have serves := (good.dir.searchDir_iff present criminal).mp search
  have deepIff := @splitLoop_deep_iff hvfsHash t b criminal 31 good present (Nat.le_add_right 31 _)
  have split : cbhtBucketSplit t b criminal t.dirDepth = splitLoop criminal 31 t b := by
    unfold cbhtBucketSplit
    rw [if_neg (not_lt.mpr full), if_neg (not_not.mpr rfl)]
  rw [split]
  rcases splitLoop_spec good present serves (Nat.le_add_right 31 _) with
    stop | ⟨final, side, ended, goodFinal, moved, found, room⟩
  · exact Or.inr ⟨deepIff.mp stop, stop⟩
  · refine Or.inl ⟨?_, final, side, ended, goodFinal, moved, found, ?_⟩
    · by_contra together
      rw [deepIff.mpr together] at ended
      cases ended
    · unfold Full
      rw [goodFinal.blocks.adepth side (goodFinal.dir.searchDir_lt found), Nat.shiftLeft_eq]
      exact not_le.mpr room

/-- A split of the bucket of a hash ends exactly when there is nothing to do or a bit separates the
blocks from the hash. -/
theorem splitEnds_iff (good : CbhtGood hvfsHash t) (search : mdsCbhtSearchDir t criminal = some b)
    (sdepth : Nat) :
    SplitEnds t b criminal sdepth ↔
      (Full t b → sdepth = t.dirDepth → Separated t b criminal) := by
  have bounded := good.dir.bounded
  unfold SplitEnds
  by_cases full : Full t b
  · by_cases fresh : sdepth = t.dirDepth
    · rw [fresh]
      simp only [full, forall_const]
      rcases split_full_cases good search full with
        ⟨separated, final, side, ended, goodFinal, _, found, room⟩ | ⟨together, stop⟩
      · exact iff_of_true ⟨0, final, ended, goodFinal.dir.bounded, Or.inr ⟨rfl, side, found, room⟩⟩
          separated
      · refine iff_of_false ?_ together
        rintro ⟨err, final, ended, _⟩
        rw [stop] at ended
        cases ended
    · unfold cbhtBucketSplit
      rw [if_neg (not_lt.mpr full), if_pos fresh]
      exact ⟨fun _ _ same => absurd same fresh, fun _ => ⟨_, t, rfl, bounded, Or.inl rfl⟩⟩
  · unfold cbhtBucketSplit
    rw [if_pos (not_le.mp full)]
    exact ⟨fun _ absurdity => absurd absurdity full, fun _ => ⟨_, t, rfl, bounded, Or.inl rfl⟩⟩

/-- The last round of an insertion: its bucket has room, and the block goes there unless its key is
there. -/
theorem insertLoop_last (good : CbhtGood hvfsHash t) (noted : (t.itb i).hash = hash)
    (search : mdsCbhtSearchDir t hash = some b) (room : ¬Full t b) (fuel : Nat) :
    ∃ reply next, insertLoop i hash (fuel + 1) t = .ok (reply, next) ∧ next.dirDepth < 31 ∧
      reply.ob = some b ∧ mdsCbhtSearchDir t (next.itb i).hash = some b ∧
      (reply.err = -EEXIST ∧ next = t ∨
        reply.err = 0 ∧ ∃ o, reply.oe = some (b, o) ∧ next = t.attach i b o) := by
  have bounded := good.dir.bounded
  unfold Full at room
  unfold insertLoop
  simp only [search, if_neg room]
  rcases ((t.bucket b).content (hash.toNat &&& ((1 <<< t.bucketDepth) - 1))).find?
    (t.keyIs (t.itb i).puuid (t.itb i).itbid) with _ | first
  · refine ⟨_, _, rfl, bounded, rfl, ?_, Or.inr ⟨rfl, _, rfl, rfl⟩⟩
    simp only [Cbht.attach, Function.update_self]
    rw [noted, search]
  · refine ⟨_, _, rfl, bounded, rfl, ?_, Or.inl ⟨rfl, rfl⟩⟩
    rw [noted, search]

/-- A round of an insertion that finds its bucket full and splits it. -/
theorem insertLoop_split (search : mdsCbhtSearchDir t hash = some b) (full : Full t b)
    (fuel : Nat) :
    (∀ final, cbhtBucketSplit t b hash t.dirDepth = .ok (0, final) →
        insertLoop i hash (fuel + 1) t = insertLoop i hash fuel final) ∧
      (cbhtBucketSplit t b hash t.dirDepth = .error .depth →
        insertLoop i hash (fuel + 1) t = .error .depth) := by
  unfold Full at full
  constructor
  · intro final ended
    rw [insertLoop]
    simp only [search, if_pos full, ended, true_or, if_true]
  · intro stop
    rw [insertLoop]
    simp only [search, if_pos full, stop]

/-- The hash that an insertion writes down is that of the key, so for the attached blocks it is the
one that is there. -/
theorem separated_noteHash (good : CbhtGood hvfsHash t) (i : Nat) :
    Separated (t.noteHash i (hvfsHash (t.itb i).puuid (t.itb i).itbid)) b criminal ↔
      Separated t b criminal := by
  obtain ⟨noted, same⟩ : ∃ noted, noted =
      t.noteHash i (hvfsHash (t.itb i).puuid (t.itb i).itbid) := ⟨_, rfl⟩
  have be : ∀ j, (noted.itb j).be = (t.itb j).be := by
    intro j
    rw [same]
    simp only [Cbht.noteHash, Function.update_apply]
    split_ifs with here
    · rw [here]
    · rfl
  have hashes : ∀ j o, (t.itb j).be = some (b, o) → (noted.itb j).hash = (t.itb j).hash := by
    intro j o attached
    rw [same]
    simp only [Cbht.noteHash, Function.update_apply]
    split_ifs with here
    · rw [← here, (good.blocks.hashed j b o attached).1]
    · rfl
  have fields : noted.bucket = t.bucket ∧ noted.high = t.high ∧ noted.load = t.load := by
    rw [same]
    exact ⟨rfl, rfl, rfl⟩
  rw [← same]
  unfold Separated
  simp only [fields.1, fields.2.1, fields.2.2, be]
  refine exists_congr fun k => and_congr Iff.rfl (and_congr Iff.rfl (or_congr ?_ Iff.rfl))
  refine exists_congr fun j => exists_congr fun o => and_congr_right fun attached => ?_
  rw [hashes j o attached]

/-- The bucket of the hash has room or a bit separates its blocks from the hash. -/
def RoomFor (t : Cbht) (hash : U64) : Prop :=
  ∀ b, mdsCbhtSearchDir t hash = some b → Full t b → Separated t b hash

/-- An insertion that has or gets room ends; another one makes the directory too deep. -/
theorem insertEnds_cases (good : CbhtGood hvfsHash t) (i : Nat) :
    RoomFor t (hvfsHash (t.itb i).puuid (t.itb i).itbid) ∧ InsertEnds hvfsHash t i ∨
      ¬RoomFor t (hvfsHash (t.itb i).puuid (t.itb i).itbid) ∧
        mdsCbhtInsert hvfsHash t i = .error .depth := by
  obtain ⟨hash, hashEq⟩ : ∃ hash, hash = hvfsHash (t.itb i).puuid (t.itb i).itbid := ⟨_, rfl⟩
  obtain ⟨noted, notedEq⟩ : ∃ noted, noted = t.noteHash i hash := ⟨_, rfl⟩
  have goodNoted : CbhtGood hvfsHash noted := by
    rw [notedEq, hashEq]
    exact good.setHash i
  have hashNoted : (noted.itb i).hash = hash := by
    rw [notedEq]
    unfold Cbht.noteHash
    simp only [Function.update_self]
  have search := good.dir.searchDir hash
  generalize t.slot _ = b at search
  have searchNoted : mdsCbhtSearchDir noted hash = some b := by
    rw [notedEq]
    exact search
  have fullNoted : Full noted b ↔ Full t b := by
    rw [notedEq]
    exact Iff.rfl
  have separated : Separated noted b hash ↔ Separated t b hash := by
    rw [notedEq, hashEq]
    exact separated_noteHash good i
  have call : mdsCbhtInsert hvfsHash t i = insertLoop i hash 2 noted := by
    rw [notedEq, hashEq]
    rfl
  have roomFor : RoomFor t hash ↔ (Full t b → Separated t b hash) := by
    unfold RoomFor
    simp only [search, Option.some_inj, forall_eq']
  rw [← hashEq, roomFor, ← fullNoted, ← separated]
  unfold InsertEnds
  rw [call]
  by_cases full : Full noted b
  · simp only [full, forall_const]
    rcases split_full_cases goodNoted searchNoted full with
      ⟨apart, final, side, ended, goodFinal, moved, found, room⟩ | ⟨together, stop⟩
    · refine Or.inl ⟨apart, ?_⟩
      rw [(insertLoop_split searchNoted full 1).1 final ended]
      obtain ⟨reply, next, inserted, shallow, ob, foundNext, outcome⟩ :=
        insertLoop_last goodFinal ((moved.hash i).trans hashNoted) found room 0
      exact ⟨reply, next, final, side, inserted, shallow, ob, foundNext, room, outcome⟩
    · exact Or.inr ⟨together, (insertLoop_split searchNoted full 1).2 stop⟩
  · refine Or.inl ⟨fun absurdity => absurd absurdity full, ?_⟩
    obtain ⟨reply, next, inserted, shallow, ob, foundNext, outcome⟩ :=
      insertLoop_last goodNoted hashNoted searchNoted full 1
    exact ⟨reply, next, noted, b, inserted, shallow, ob, foundNext, full, outcome⟩

/-- An insertion ends exactly when the bucket of the block has room or a bit separates its blocks
from the new one. -/
theorem insertEnds_iff (good : CbhtGood hvfsHash t) (i : Nat) :
    InsertEnds hvfsHash t i ↔
      ∀ b, mdsCbhtSearchDir t (hvfsHash (t.itb i).puuid (t.itb i).itbid) = some b → Full t b →
        Separated t b (hvfsHash (t.itb i).puuid (t.itb i).itbid) := by
  rcases insertEnds_cases good i with ⟨room, ends⟩ | ⟨none, stop⟩
  · exact iff_of_true ends room
  · refine iff_of_false ?_ none
    rintro ⟨_, _, _, _, ended, _⟩
    rw [stop] at ended
    cases ended

end Calls

/-! ### Runs -/

theorem run_good {hvfsHash : U64 → U64 → U64} {bdepth : Nat} {key : Nat → U64 × U64}
    {calls : List CountCall} {t : Cbht}
    (reached : run (countStep hvfsHash) (mdsCbhtInit bdepth (freeItbs key)) calls = some t) :
    CbhtGood hvfsHash t :=
  run_invariant (CbhtGood hvfsHash) (fun _ _ _ good stepped => countStep_good good stepped)
    (mdsCbhtInit_tabled hvfsHash bdepth key).good reached

/-- In every table that is reached from `mds_cbht_init`, for every hash and every bucket depth, a
split of the bucket of a hash and an insertion end exactly when the bucket is not full or one of the
bits below 30 separates its blocks from the hash. -/
theorem cbht_splits_end (hvfsHash : U64 → U64 → U64) (bdepth : Nat) (key : Nat → U64 × U64)
    (calls : List CountCall) (t : Cbht)
    (reached : run (countStep hvfsHash) (mdsCbhtInit bdepth (freeItbs key)) calls = some t) :
    (∀ b criminal sdepth, mdsCbhtSearchDir t criminal = some b →
        (SplitEnds t b criminal sdepth ↔
          (Full t b → sdepth = t.dirDepth → Separated t b criminal))) ∧
      ∀ i, InsertEnds hvfsHash t i ↔
        ∀ b, mdsCbhtSearchDir t (hvfsHash (t.itb i).puuid (t.itb i).itbid) = some b → Full t b →
          Separated t b (hvfsHash (t.itb i).puuid (t.itb i).itbid) := by
  have good := run_good reached
  exact ⟨fun b criminal sdepth search => splitEnds_iff good search sdepth,
    fun i => insertEnds_iff good i⟩

/-- Two blocks fill a bucket of one chain; the second one and a third have hashes that differ in
the first bit. -/
theorem cbht_splits_end_apart :
    ∃ t, run (countStep hvfsHashCbht) (mdsCbhtInit 0 (freeItbs fun i => (BitVec.ofNat 64 i, 0)))
        [.insert 0, .insert 1] = some t ∧ Full t 0 ∧ InsertEnds hvfsHashCbht t 2 := by
  refine ⟨_, rfl, Int.le_refl 2, ?_⟩
  refine ((cbht_splits_end hvfsHashCbht 0 (fun i => (BitVec.ofNat 64 i, 0))
    [.insert 0, .insert 1] _ rfl).2 2).mpr fun b search _ => ?_
  obtain rfl : 0 = b := Option.some.inj search
  exact ⟨0, Nat.le_refl 0, by decide, Or.inl ⟨1, 0, rfl, by decide⟩⟩

/-- The hashes of the keys that differ only in the highest bits of `puuid`. -/
theorem hvfsHashCbht_high (k : Nat) (low : k < 30) :
    (hvfsHashCbht (BitVec.ofNat 64 (0 <<< 40)) 0).toNat.testBit k =
        (hvfsHashCbht (BitVec.ofNat 64 (2 <<< 40)) 0).toNat.testBit k ∧
      (hvfsHashCbht (BitVec.ofNat 64 (1 <<< 40)) 0).toNat.testBit k =
        (hvfsHashCbht (BitVec.ofNat 64 (2 <<< 40)) 0).toNat.testBit k := by
  revert low
  revert k
  decide

/-- Two blocks fill a bucket of one chain, and no bit below 30 tells them from a third one: neither
the split for it nor its insertion ends. -/
theorem cbht_splits_forever :
    ∃ t, run (countStep hvfsHashCbht)
        (mdsCbhtInit 0 (freeItbs fun i => (BitVec.ofNat 64 (i <<< 40), 0)))
        [.insert 0, .insert 1] = some t ∧
      ¬SplitEnds t 0 (hvfsHashCbht (BitVec.ofNat 64 (2 <<< 40)) 0) t.dirDepth ∧
      ¬InsertEnds hvfsHashCbht t 2 := by
  obtain ⟨t, reached, active, depth, chain, bucketDepth, adepth, hash, search⟩ :
      ∃ t, run (countStep hvfsHashCbht)
          (mdsCbhtInit 0 (freeItbs fun i => (BitVec.ofNat 64 (i <<< 40), 0)))
          [.insert 0, .insert 1] = some t ∧
        (t.bucket 0).active = 2 ∧ (t.bucket 0).depth = 0 ∧ (t.bucket 0).content 0 = [1, 0] ∧
        t.bucketDepth = 0 ∧ (t.bucket 0).adepth = 0 ∧
        ((t.itb 0).hash = hvfsHashCbht (BitVec.ofNat 64 (0 <<< 40)) 0 ∧
          (t.itb 1).hash = hvfsHashCbht (BitVec.ofNat 64 (1 <<< 40)) 0 ∧
          hvfsHashCbht (t.itb 2).puuid (t.itb 2).itbid =
            hvfsHashCbht (BitVec.ofNat 64 (2 <<< 40)) 0) ∧
        mdsCbhtSearchDir t (hvfsHashCbht (BitVec.ofNat 64 (2 <<< 40)) 0) = some 0 :=
    ⟨_, rfl, rfl, rfl, rfl, rfl, rfl, ⟨rfl, rfl, rfl⟩, rfl⟩
  have good := run_good reached
  have full : Full t 0 := by
    unfold Full
    rw [active, adepth]
    exact Int.le_refl 2
  have load : t.load 0 = 2 := by
    unfold Cbht.load
    rw [bucketDepth]
    simp [chain]
  have together : ¬Separated t 0 (hvfsHashCbht (BitVec.ofNat 64 (2 <<< 40)) 0) := by
    rintro ⟨k, _, small, ⟨i, o, be, differs⟩ | ⟨_, drift⟩⟩
    · obtain ⟨_, low, member⟩ := (good.blocks.placed i 0 o).mp be
      rw [bucketDepth] at low
      obtain rfl : o = 0 := Nat.lt_one_iff.mp low
      unfold Cbht.high at differs
      rw [bucketDepth, Nat.pow_zero, Nat.div_one, Nat.div_one] at differs
      rw [chain] at member
      rcases List.mem_cons.mp member with rfl | rest
      · rw [hash.2.1] at differs
        exact differs (hvfsHashCbht_high k small).2
      · obtain rfl := List.mem_singleton.mp rest
        rw [hash.1] at differs
        exact differs (hvfsHashCbht_high k small).1
    · rw [load, active] at drift
      exact lt_irrefl _ drift
  refine ⟨t, reached, fun ends => ?_, fun ends => ?_⟩
  · exact together ((splitEnds_iff good search t.dirDepth).mp ends full rfl)
  · have separated := (insertEnds_iff good 2).mp ends 0
    rw [hash.2.2] at separated
    exact together (separated search full)

end Hvfs
