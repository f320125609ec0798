/-
This file states the invariant of the CBHT and proves that a bucket split keeps
it: the directory stays directed in the sense of extendible hashing, and every
block moves to the bucket that serves its hash.
-/

import Hvfs.CbhtDir
import Hvfs.Library.Extendible
import Mathlib.Algebra.BigOperators.Group.List.Basic
import Mathlib.Data.Nat.Bitwise

namespace Hvfs

open Extendible

/-! ### The invariant -/

/-- The bucket in a slot of the directory. -/
def Cbht.slot (t : Cbht) (j : Nat) : Nat := (dirEntry t.dir j).getD 0

/-- The bits of a hash that the directory uses. -/
def Cbht.high (t : Cbht) (hash : U64) : Nat := hash.toNat / 2 ^ t.bucketDepth

/-- The bits of a hash that choose the chain in a bucket. -/
def Cbht.low (t : Cbht) (hash : U64) : Nat := hash.toNat % 2 ^ t.bucketDepth

/-- The number of blocks in a bucket. -/
def Cbht.load (t : Cbht) (b : Nat) : Nat :=
  ((List.range (2 ^ t.bucketDepth)).map fun o => ((t.bucket b).content o).length).sum

/-- The directory of the table. -/
structure CbhtDirected (t : Cbht) : Prop where
  layout : Layout t.dir (2 ^ t.dirDepth)
  entry : ∀ j < 2 ^ t.dirDepth, dirEntry t.dir j = some (t.slot j)
  allocated : ∀ b, b < t.buckets ↔ ∃ j < 2 ^ t.dirDepth, t.slot j = b
  directed : Directed t.dirDepth t.slot (fun b => (t.bucket b).depth) fun b => (t.bucket b).id
  bounded : t.dirDepth < 31

/-- The blocks of the table. -/
structure CbhtPlaced (hvfsHash : U64 → U64 → U64) (t : Cbht) : Prop where
  placed : ∀ i b o, (t.itb i).be = some (b, o) ↔
    b < t.buckets ∧ o < 2 ^ t.bucketDepth ∧ i ∈ (t.bucket b).content o
  hashed : ∀ i b o, (t.itb i).be = some (b, o) →
    (t.itb i).hash = hvfsHash (t.itb i).puuid (t.itb i).itbid ∧ o = t.low (t.itb i).hash ∧
      t.high (t.itb i).hash % 2 ^ (t.bucket b).depth = (t.bucket b).id
  nodup : ∀ b < t.buckets, ∀ o, ((t.bucket b).content o).Nodup
  keys : ∀ i j, (t.itb i).be ≠ none → (t.itb j).be ≠ none → (t.itb i).puuid = (t.itb j).puuid →
    (t.itb i).itbid = (t.itb j).itbid → i = j
  adepth : ∀ b < t.buckets, (t.bucket b).adepth = t.bucketDepth
  /-- The count of a bucket covers its blocks; deletions do not lower it. -/
  counted : ∀ b < t.buckets, (t.load b : Int) ≤ (t.bucket b).active
  limit : ∀ b < t.buckets, (t.bucket b).active ≤ ((2 * 2 ^ t.bucketDepth : Nat) : Int)

/-- Where the blocks hang, whatever the counts of the buckets are. -/
structure CbhtHung (hvfsHash : U64 → U64 → U64) (t : Cbht) : Prop where
  placed : ∀ i b o, (t.itb i).be = some (b, o) ↔
    b < t.buckets ∧ o < 2 ^ t.bucketDepth ∧ i ∈ (t.bucket b).content o
  hashed : ∀ i b o, (t.itb i).be = some (b, o) →
    (t.itb i).hash = hvfsHash (t.itb i).puuid (t.itb i).itbid ∧ o = t.low (t.itb i).hash ∧
      t.high (t.itb i).hash % 2 ^ (t.bucket b).depth = (t.bucket b).id
  nodup : ∀ b < t.buckets, ∀ o, ((t.bucket b).content o).Nodup
  keys : ∀ i j, (t.itb i).be ≠ none → (t.itb j).be ≠ none → (t.itb i).puuid = (t.itb j).puuid →
    (t.itb i).itbid = (t.itb j).itbid → i = j

theorem CbhtPlaced.hung {hvfsHash : U64 → U64 → U64} {t : Cbht} (blocks : CbhtPlaced hvfsHash t) :
    CbhtHung hvfsHash t :=
  ⟨blocks.placed, blocks.hashed, blocks.nodup, blocks.keys⟩

structure CbhtGood (hvfsHash : U64 → U64 → U64) (t : Cbht) : Prop where
  dir : CbhtDirected t
  blocks : CbhtPlaced hvfsHash t

/-- The blocks after a step that only moves them. -/
structure SameItbs (t after : Cbht) : Prop where
  bucketDepth : after.bucketDepth = t.bucketDepth
  puuid : ∀ i, (after.itb i).puuid = (t.itb i).puuid
  itbid : ∀ i, (after.itb i).itbid = (t.itb i).itbid
  hash : ∀ i, (after.itb i).hash = (t.itb i).hash
  attached : ∀ i, (after.itb i).be = none ↔ (t.itb i).be = none

theorem SameItbs.trans {t middle after : Cbht} (first : SameItbs t middle)
    (second : SameItbs middle after) : SameItbs t after where
  bucketDepth := second.bucketDepth.trans first.bucketDepth
  puuid i := (second.puuid i).trans (first.puuid i)
  itbid i := (second.itbid i).trans (first.itbid i)
  hash i := (second.hash i).trans (first.hash i)
  attached i := (second.attached i).trans (first.attached i)

/-! ### One level -/

/-- The bit test of the source, as arithmetic. -/
theorem hashBit_iff (t : Cbht) (hash : U64) (d : Nat) :
    hashBit t.bucketDepth hash (d + 1) = true ↔
      t.high hash % 2 ^ (d + 1) = t.high hash % 2 ^ d + 2 ^ d := by
  have wide := Nat.two_pow_pos d
  unfold hashBit Cbht.high
  rw [Nat.add_sub_cancel, Nat.shiftRight_eq_div_pow, Nat.one_shiftLeft, Nat.and_two_pow,
    Nat.mod_pow_succ, Nat.testBit_eq_decide_div_mod_eq, bne_iff_ne]
  rcases Nat.mod_two_eq_zero_or_one (hash.toNat / 2 ^ t.bucketDepth / 2 ^ d) with bit | bit <;>
    rw [bit] <;> simp

/-- What one level of a split does to the buckets and the blocks. -/
structure Leveled (t : Cbht) (ob : Nat) (moves : Nat → Bool) (after : Cbht) : Prop where
  dir : after.dir = t.dir
  dirDepth : after.dirDepth = t.dirDepth
  bucketDepth : after.bucketDepth = t.bucketDepth
  buckets : after.buckets = t.buckets + 1
  old : ∃ moved : Nat, after.bucket ob = { t.bucket ob with
      depth := (t.bucket ob).depth + 1
      active := (t.bucket ob).active - moved
      content := fun o => if o < 2 ^ t.bucketDepth then
          ((t.bucket ob).content o).filter fun ih => !moves ih
        else (t.bucket ob).content o } ∧
    after.bucket t.buckets = { active := moved
                               adepth := t.bucketDepth
                               depth := (t.bucket ob).depth + 1
                               id := (t.bucket ob).id ||| 2 ^ (t.bucket ob).depth
                               content := fun o => if o < 2 ^ t.bucketDepth then
                                   (((t.bucket ob).content o).filter moves).reverse
                                 else [] } ∧
    moved = ((List.range (2 ^ t.bucketDepth)).map fun o =>
      ((t.bucket ob).content o).countP moves).sum
  other : ∀ b, b ≠ ob → b ≠ t.buckets → after.bucket b = t.bucket b
  itb : ∀ ih, after.itb ih = match (List.range (2 ^ t.bucketDepth)).find? fun o =>
      ih ∈ (t.bucket ob).content o with
    | some o => if moves ih then { t.itb ih with be := some (t.buckets, o) } else t.itb ih
    | none => t.itb ih

theorem splitLevel_leveled (t : Cbht) {ob : Nat} (present : ob < t.buckets) :
    (splitLevel t ob).1 = t.buckets ∧
      Leveled t ob (fun ih => hashBit t.bucketDepth (t.itb ih).hash ((t.bucket ob).depth + 1))
        (splitLevel t ob).2 := by
  have apart : ob ≠ t.buckets := Nat.ne_of_lt present
  refine ⟨rfl, ⟨rfl, rfl, rfl, rfl, ⟨_, ?_, ?_, rfl⟩, ?_, ?_⟩⟩
  · simp only [splitLevel, cbhtBucketAlloc, moveItbs, Function.update_self,
      Function.update_of_ne apart, Nat.one_shiftLeft]
  · simp only [splitLevel, cbhtBucketAlloc, moveItbs, Function.update_self,
      Function.update_of_ne apart, Function.update_of_ne apart.symm, Nat.one_shiftLeft,
      Nat.add_sub_cancel, zero_add, List.append_nil]
  · intro b notOld notNew
    simp only [splitLevel, cbhtBucketAlloc, moveItbs, Function.update_of_ne notOld,
      Function.update_of_ne notNew]
  · intro ih
    cases found : (List.range (2 ^ t.bucketDepth)).find? fun o =>
        ih ∈ (t.bucket ob).content o with
    | none =>
      simp only [splitLevel, cbhtBucketAlloc, moveItbs, Function.update_self,
        Function.update_of_ne apart, Nat.one_shiftLeft, found]
    | some o =>
      simp only [splitLevel, cbhtBucketAlloc, moveItbs, Function.update_self,
        Function.update_of_ne apart, Nat.one_shiftLeft, found]

namespace Leveled

variable {hvfsHash : U64 → U64 → U64} {t after : Cbht} {ob : Nat} {moves : Nat → Bool}

/-- A block of the split bucket stays or moves to the same chain of the new one. -/
theorem itb_here (leveled : Leveled t ob moves after) (blocks : CbhtHung hvfsHash t) {i o : Nat}
    (here : (t.itb i).be = some (ob, o)) :
    after.itb i = if moves i then { t.itb i with be := some (t.buckets, o) } else t.itb i := by
  obtain ⟨present, low, member⟩ := (blocks.placed i ob o).mp here
  have found : (List.range (2 ^ t.bucketDepth)).find? (fun o => i ∈ (t.bucket ob).content o) =
      some o := by
    rcases found : (List.range (2 ^ t.bucketDepth)).find? (fun o => i ∈ (t.bucket ob).content o)
      with _ | other
    · have missed := List.find?_eq_none.mp found o (List.mem_range.mpr low)
      exact absurd (decide_eq_true member) missed
    · have inside := List.mem_range.mp (List.mem_of_find?_eq_some found)
      have hit := List.find?_some found
      have memberOther : i ∈ (t.bucket ob).content other := of_decide_eq_true hit
      have there := (blocks.placed i ob other).mpr ⟨present, inside, memberOther⟩
      rw [here] at there
      cases there
      rfl
  rw [leveled.itb i, found]

/-- The other blocks are not touched. -/
theorem itb_away (leveled : Leveled t ob moves after) (blocks : CbhtHung hvfsHash t)
    (present : ob < t.buckets) {i : Nat} (away : ∀ o, (t.itb i).be ≠ some (ob, o)) :
    after.itb i = t.itb i := by
  have missed : (List.range (2 ^ t.bucketDepth)).find? (fun o => i ∈ (t.bucket ob).content o) =
      none := by
    refine List.find?_eq_none.mpr fun o low member => away o ?_
    exact (blocks.placed i ob o).mpr ⟨present, List.mem_range.mp low, of_decide_eq_true member⟩
  rw [leveled.itb i, missed]

theorem sameItbs (leveled : Leveled t ob moves after) (blocks : CbhtHung hvfsHash t)
    (present : ob < t.buckets) : SameItbs t after := by
  have each : ∀ i, (after.itb i).puuid = (t.itb i).puuid ∧ (after.itb i).itbid = (t.itb i).itbid ∧
      (after.itb i).hash = (t.itb i).hash ∧
      ((after.itb i).be = none ↔ (t.itb i).be = none) := by
    intro i
    by_cases here : ∃ o, (t.itb i).be = some (ob, o)
    · obtain ⟨o, here⟩ := here
      rw [leveled.itb_here blocks here]
      split_ifs
      · exact ⟨rfl, rfl, rfl, by rw [here]; simp⟩
      · exact ⟨rfl, rfl, rfl, Iff.rfl⟩
    · rw [leveled.itb_away blocks present fun o same => here ⟨o, same⟩]
      exact ⟨rfl, rfl, rfl, Iff.rfl⟩
  exact ⟨leveled.bucketDepth, fun i => (each i).1, fun i => (each i).2.1, fun i => (each i).2.2.1,
    fun i => (each i).2.2.2⟩

/-- The chains after a level. -/
theorem mem_content (leveled : Leveled t ob moves after) (present : ob < t.buckets) {i b o : Nat}
    (low : o < 2 ^ t.bucketDepth) :
    i ∈ (after.bucket b).content o ↔
      (b = t.buckets ∧ i ∈ (t.bucket ob).content o ∧ moves i = true) ∨
      (b = ob ∧ i ∈ (t.bucket ob).content o ∧ moves i = false) ∨
      (b ≠ ob ∧ b ≠ t.buckets ∧ i ∈ (t.bucket b).content o) := by
  have apart : ob ≠ t.buckets := Nat.ne_of_lt present
  obtain ⟨moved, old, new, _⟩ := leveled.old
  rcases eq_or_ne b t.buckets with rfl | notNew
  · rw [new]
    simp only [if_pos low, List.mem_reverse, List.mem_filter, apart.symm, ne_eq, not_true_eq_false,
      false_and, and_false, or_false, true_and]
  · rcases eq_or_ne b ob with rfl | notOld
    · rw [old]
      simp only [if_pos low, List.mem_filter, notNew, ne_eq, not_true_eq_false, false_and, or_false,
        false_or, true_and, Bool.not_eq_true']
    · rw [leveled.other b notOld notNew]
      simp only [notOld, notNew, ne_eq, not_false_eq_true, true_and, false_and, false_or]

/-- Where a block is after a level. -/
theorem placed (leveled : Leveled t ob moves after) (blocks : CbhtHung hvfsHash t)
    (present : ob < t.buckets) (i b o : Nat) :
    (after.itb i).be = some (b, o) ↔
      b < after.buckets ∧ o < 2 ^ after.bucketDepth ∧ i ∈ (after.bucket b).content o := by
  have apart : ob ≠ t.buckets := Nat.ne_of_lt present
  have chain : ∀ o, i ∈ (t.bucket ob).content o → o < 2 ^ t.bucketDepth →
      (t.itb i).be = some (ob, o) :=
    fun o member low => (blocks.placed i ob o).mpr ⟨present, low, member⟩
  rw [leveled.buckets, leveled.bucketDepth]
  by_cases here : ∃ o, (t.itb i).be = some (ob, o)
  · obtain ⟨place, here⟩ := here
    obtain ⟨_, low, member⟩ := (blocks.placed i ob place).mp here
    rw [leveled.itb_here blocks here]
    constructor
    · intro be
      by_cases moved : moves i = true
      · rw [if_pos moved] at be
        cases be
        exact ⟨Nat.lt_succ_self _, low, (leveled.mem_content present low).mpr
          (Or.inl ⟨rfl, member, moved⟩)⟩
      · rw [if_neg moved, here] at be
        cases be
        exact ⟨Nat.lt_succ_of_lt present, low, (leveled.mem_content present low).mpr
          (Or.inr (Or.inl ⟨rfl, member, by simpa using moved⟩))⟩
    · rintro ⟨_, inside, memberAfter⟩
      rcases (leveled.mem_content present inside).mp memberAfter with
        ⟨rfl, memberOld, moved⟩ | ⟨rfl, memberOld, stays⟩ | ⟨notOld, notNew, memberOld⟩
      · have same := here.symm.trans (chain o memberOld inside)
        cases same
        rw [if_pos moved]
      · rw [stays]
        exact chain o memberOld inside
      · have below : b < t.buckets := by omega
        have there := (blocks.placed i b o).mpr ⟨below, inside, memberOld⟩
        rw [here] at there
        cases there
        exact absurd rfl notOld
  · have away : ∀ o, (t.itb i).be ≠ some (ob, o) := fun o same => here ⟨o, same⟩
    rw [leveled.itb_away blocks present away]
    constructor
    · intro be
      obtain ⟨below, inside, member⟩ := (blocks.placed i b o).mp be
      have notOld : b ≠ ob := by
        rintro rfl
        exact away o be
      exact ⟨Nat.lt_succ_of_lt below, inside, (leveled.mem_content present inside).mpr
        (Or.inr (Or.inr ⟨notOld, Nat.ne_of_lt below, member⟩))⟩
    · rintro ⟨below, inside, memberAfter⟩
      rcases (leveled.mem_content present inside).mp memberAfter with
        ⟨_, memberOld, _⟩ | ⟨_, memberOld, _⟩ | ⟨notOld, notNew, memberOld⟩
      · exact absurd (chain o memberOld inside) (away o)
      · exact absurd (chain o memberOld inside) (away o)
      · exact (blocks.placed i b o).mpr ⟨by omega, inside, memberOld⟩

/-- How the count and the load of a bucket divide. -/
theorem load (leveled : Leveled t ob moves after) :
    ∃ moved : Nat, after.load t.buckets = moved ∧ after.load ob + moved = t.load ob ∧
      (after.bucket ob).active = (t.bucket ob).active - moved ∧
      (after.bucket t.buckets).active = moved ∧
      ∀ b, b ≠ ob → b ≠ t.buckets → after.load b = t.load b := by
  obtain ⟨moved, old, new, count⟩ := leveled.old
  refine ⟨moved, ?_, ?_, by rw [old], by rw [new], fun b notOld notNew => ?_⟩
  · unfold Cbht.load
    rw [leveled.bucketDepth, new, count]
    congr 1
    refine List.map_congr_left fun o low => ?_
    simp only [if_pos (List.mem_range.mp low)]
    rw [List.length_reverse, List.countP_eq_length_filter]
  · unfold Cbht.load
    rw [leveled.bucketDepth, old, count, ← List.sum_map_add]
    congr 1
    refine List.map_congr_left fun o low => ?_
    have divided := List.length_eq_countP_add_countP moves (l := (t.bucket ob).content o)
    simp only [if_pos (List.mem_range.mp low)]
    rw [← List.countP_eq_length_filter, divided, Nat.add_comm]
    congr 1
    exact List.countP_congr fun i _ => by simp
  · unfold Cbht.load
    rw [leveled.bucketDepth, leveled.other b notOld notNew]

/-- A level keeps every block in the bucket that serves its hash. -/
theorem hung (leveled : Leveled t ob (fun ih =>
      hashBit t.bucketDepth (t.itb ih).hash ((t.bucket ob).depth + 1)) after)
    (blocks : CbhtHung hvfsHash t) (present : ob < t.buckets)
    (small : (t.bucket ob).id < 2 ^ (t.bucket ob).depth) : CbhtHung hvfsHash after := by
  have apart : ob ≠ t.buckets := Nat.ne_of_lt present
  have same := leveled.sameItbs blocks present
  have high : ∀ hash, after.high hash = t.high hash := fun hash => by
    unfold Cbht.high
    rw [leveled.bucketDepth]
  have lowBits : ∀ hash, after.low hash = t.low hash := fun hash => by
    unfold Cbht.low
    rw [leveled.bucketDepth]
  obtain ⟨_, old, new, _⟩ := leveled.old
  have below : ∀ b, b < after.buckets → b = t.buckets ∨ b < t.buckets := by
    rw [leveled.buckets]
    omega
  refine ⟨leveled.placed blocks present, ?_, ?_, ?_⟩
  · intro i b o be
    obtain ⟨_, inside, memberAfter⟩ := (leveled.placed blocks present i b o).mp be
    rw [leveled.bucketDepth] at inside
    rw [same.hash, same.puuid, same.itbid, high, lowBits]
    -- the bits that the bucket served before the level
    have served : ∀ b o, b < t.buckets → i ∈ (t.bucket b).content o → o < 2 ^ t.bucketDepth →
        (t.itb i).hash = hvfsHash (t.itb i).puuid (t.itb i).itbid ∧ o = t.low (t.itb i).hash ∧
          t.high (t.itb i).hash % 2 ^ (t.bucket b).depth = (t.bucket b).id :=
      fun b o low member inside =>
        blocks.hashed i b o ((blocks.placed i b o).mpr ⟨low, inside, member⟩)
    have bit := hashBit_iff t (t.itb i).hash (t.bucket ob).depth
    rcases (leveled.mem_content present inside).mp memberAfter with
      ⟨rfl, member, set⟩ | ⟨rfl, member, clear⟩ | ⟨notOld, notNew, member⟩
    · obtain ⟨hashed, low, bits⟩ := served ob o present member inside
      have joined := Nat.two_pow_add_eq_or_of_lt small 1
      rw [Nat.mul_one, Nat.lor_comm] at joined
      refine ⟨hashed, low, ?_⟩
      rw [new]
      simp only
      rw [bit.mp set, bits, ← joined, Nat.add_comm]
    · obtain ⟨hashed, low, bits⟩ := served b o present member inside
      refine ⟨hashed, low, ?_⟩
      rw [old]
      simp only
      rcases mod_two_pow_succ_cases (t.high (t.itb i).hash) (t.bucket b).depth with zero | one
      · rw [zero, bits]
      · rw [bit.mpr one] at clear
        cases clear
    · rw [leveled.other b notOld notNew]
      have present : b < t.buckets := by
        obtain ⟨low, _⟩ := (leveled.placed blocks present i b o).mp be
        exact (below b low).resolve_left notNew
      exact served b o present member inside
  · intro b low o
    rcases below b low with rfl | low
    · rw [new]
      simp only
      split_ifs
      · exact List.nodup_reverse.mpr ((blocks.nodup ob present o).filter _)
      · exact List.nodup_nil
    · rcases eq_or_ne b ob with rfl | notOld
      · rw [old]
        simp only
        split_ifs
        · exact (blocks.nodup b present o).filter _
        · exact blocks.nodup b present o
      · rw [leveled.other b notOld (Nat.ne_of_lt low)]
        exact blocks.nodup b low o
  · intro i j first second samePuuid sameItbid
    rw [same.puuid, same.puuid] at samePuuid
    rw [same.itbid, same.itbid] at sameItbid
    exact blocks.keys i j (fun none => first ((same.attached i).mpr none))
      (fun none => second ((same.attached j).mpr none)) samePuuid sameItbid

/-- With room for its blocks a bucket is divided into buckets with room. -/
theorem blocks (leveled : Leveled t ob (fun ih =>
      hashBit t.bucketDepth (t.itb ih).hash ((t.bucket ob).depth + 1)) after)
    (blocks : CbhtPlaced hvfsHash t) (present : ob < t.buckets)
    (small : (t.bucket ob).id < 2 ^ (t.bucket ob).depth) : CbhtPlaced hvfsHash after := by
  have hung := leveled.hung blocks.hung present small
  obtain ⟨moved, loadNew, loadOld, activeOld, activeNew, loadOther⟩ := leveled.load
  obtain ⟨_, old, new, _⟩ := leveled.old
  have counted := blocks.counted ob present
  have limit := blocks.limit ob present
  have below : ∀ b, b < after.buckets → b = t.buckets ∨ b < t.buckets := by
    rw [leveled.buckets]
    omega
  refine ⟨hung.placed, hung.hashed, hung.nodup, hung.keys, ?_, ?_, ?_⟩
  · intro b low
    rw [leveled.bucketDepth]
    rcases below b low with rfl | low
    · rw [new]
    · rcases eq_or_ne b ob with rfl | notOld
      · rw [old]
        exact blocks.adepth b present
      · rw [leveled.other b notOld (Nat.ne_of_lt low)]
        exact blocks.adepth b low
  · intro b low
    rcases below b low with rfl | low
    · rw [loadNew, activeNew]
    · rcases eq_or_ne b ob with rfl | notOld
      · rw [activeOld]
        omega
      · rw [loadOther b notOld (Nat.ne_of_lt low), leveled.other b notOld (Nat.ne_of_lt low)]
        exact blocks.counted b low
  · intro b low
    rw [leveled.bucketDepth]
    rcases below b low with rfl | low
    · rw [activeNew]
      omega
    · rcases eq_or_ne b ob with rfl | notOld
      · rw [activeOld]
        omega
      · rw [leveled.other b notOld (Nat.ne_of_lt low)]
        exact blocks.limit b low

end Leveled

/-! ### The directory after a level -/

section Directory

variable {t after : Cbht} {ob : Nat} {moves : Nat → Bool}

/-- The bucket of a hash. -/
theorem CbhtDirected.searchDir (dir : CbhtDirected t) (hash : U64) :
    mdsCbhtSearchDir t hash = some (t.slot (t.high hash % 2 ^ t.dirDepth)) := by
  unfold mdsCbhtSearchDir
  rw [Nat.shiftRight_eq_div_pow, Nat.one_shiftLeft, Nat.and_two_pow_sub_one_eq_mod]
  exact dir.entry _ (Nat.mod_lt _ (Nat.two_pow_pos _))

theorem CbhtDirected.searchDir_iff (dir : CbhtDirected t) {b : Nat} (present : b < t.buckets)
    (hash : U64) : mdsCbhtSearchDir t hash = some b ↔
      t.high hash % 2 ^ (t.bucket b).depth = (t.bucket b).id := by
  obtain ⟨j, inside, rfl⟩ := (dir.allocated b).mp present
  rw [dir.searchDir, Option.some_inj]
  exact dir.directed.lookup_iff inside (t.high hash)

theorem CbhtDirected.searchDir_lt (dir : CbhtDirected t) {hash : U64} {b : Nat}
    (found : mdsCbhtSearchDir t hash = some b) : b < t.buckets := by
  rw [dir.searchDir] at found
  cases found
  exact (dir.allocated _).mpr ⟨_, Nat.mod_lt _ (Nat.two_pow_pos _), rfl⟩

/-- The directory before a level, at the depth that the level needs. -/
theorem CbhtDirected.grown (dir : CbhtDirected t) {level : Nat} (small : level ≤ t.dirDepth + 1) :
    Directed (max t.dirDepth level) (fun j => t.slot (j % 2 ^ t.dirDepth))
      (fun b => (t.bucket b).depth) fun b => (t.bucket b).id := by
  rcases Nat.lt_or_ge t.dirDepth level with deeper | enough
  · rw [show max t.dirDepth level = t.dirDepth + 1 by omega]
    exact dir.directed.double
  · rw [Nat.max_eq_left enough]
    refine dir.directed.congr (fun j inside => ?_) (fun _ _ => rfl) fun _ _ => rfl
    rw [Nat.mod_eq_of_lt inside]

/-- The update of the directory with the new bucket of a level. -/
theorem Leveled.directed (leveled : Leveled t ob moves after) (dir : CbhtDirected t)
    (present : ob < t.buckets) (shallow : (t.bucket ob).depth + 1 < 31) :
    ∃ final, cbhtUpdateDir after t.buckets = .ok (0, final) ∧ CbhtDirected final ∧
      final.bucketDepth = after.bucketDepth ∧ final.buckets = after.buckets ∧
      final.bucket = after.bucket ∧ final.itb = after.itb := by
  obtain ⟨moved, old, new, _⟩ := leveled.old
  obtain ⟨j₀, inside₀, slot₀⟩ := (dir.allocated ob).mp present
  have apart : ob ≠ t.buckets := Nat.ne_of_lt present
  have small := dir.directed.id_lt inside₀
  have level := dir.directed.shallow j₀ inside₀
  simp only [slot₀] at small level
  have joined := Nat.two_pow_add_eq_or_of_lt small 1
  rw [Nat.mul_one, Nat.lor_comm] at joined
  have depthOld : (after.bucket ob).depth = (t.bucket ob).depth + 1 := by rw [old]
  have depthNew : (after.bucket t.buckets).depth = (t.bucket ob).depth + 1 := by rw [new]
  have idOld : (after.bucket ob).id = (t.bucket ob).id := by rw [old]
  have idNew : (after.bucket t.buckets).id =
      (t.bucket ob).id + 2 ^ (t.bucket ob).depth := by
    rw [new]
    simp only
    rw [← joined, Nat.add_comm]
  have layout : Layout after.dir (2 ^ after.dirDepth) := by
    rw [leveled.dir, leveled.dirDepth]
    exact dir.layout
  obtain ⟨segments, updated, layoutAfter, entries⟩ := cbhtUpdateDir_spec t.buckets layout
    (by rw [depthNew, leveled.dirDepth]; omega)
  rw [depthNew, idNew, leveled.dirDepth, leveled.dir] at entries
  rw [depthNew, leveled.dirDepth] at layoutAfter updated
  have wide : 2 ^ ((t.bucket ob).depth + 1) =
      2 ^ (t.bucket ob).depth + 2 ^ (t.bucket ob).depth := by
    rw [pow_succ]
    omega
  have fits : (t.bucket ob).id + 2 ^ (t.bucket ob).depth < 2 ^ ((t.bucket ob).depth + 1) := by
    omega
  have bound : ∀ j, j % 2 ^ t.dirDepth < 2 ^ t.dirDepth :=
    fun j => Nat.mod_lt _ (Nat.two_pow_pos _)
  have high : 2 ^ ((t.bucket ob).depth + 1) ≤ 2 ^ max t.dirDepth ((t.bucket ob).depth + 1) :=
    Nat.pow_le_pow_right (by decide) (Nat.le_max_right _ _)
  have slots : ∀ j < 2 ^ max t.dirDepth ((t.bucket ob).depth + 1), dirEntry segments j =
      some (if j % 2 ^ ((t.bucket ob).depth + 1) = (t.bucket ob).id + 2 ^ (t.bucket ob).depth
        then t.buckets else t.slot (j % 2 ^ t.dirDepth)) := by
    intro j inside
    rw [entries j inside, Nat.mod_eq_of_lt fits, dir.entry _ (bound j)]
    split_ifs <;> rfl
  refine ⟨_, updated, ?_, rfl, rfl, rfl, rfl⟩
  have slotsAfter : ∀ j < 2 ^ max t.dirDepth ((t.bucket ob).depth + 1),
      Cbht.slot { after with
        dir := segments, dirDepth := max t.dirDepth ((t.bucket ob).depth + 1) } j =
      if j % 2 ^ ((t.bucket ob).depth + 1) = (t.bucket ob).id + 2 ^ (t.bucket ob).depth
        then t.buckets else t.slot (j % 2 ^ t.dirDepth) := by
    intro j inside
    unfold Cbht.slot
    rw [slots j inside]
    rfl
  have belongs : ∀ j, t.slot (j % 2 ^ t.dirDepth) = ob ↔
      j % 2 ^ (t.bucket ob).depth = (t.bucket ob).id := by
    intro j
    have lookup := dir.directed.lookup_iff inside₀ j
    simp only [slot₀] at lookup
    exact lookup
  have truncated : ∀ k, k % 2 ^ ((t.bucket ob).depth + 1) % 2 ^ (t.bucket ob).depth =
      k % 2 ^ (t.bucket ob).depth := mod_mod_two_pow (Nat.le_succ _)
  refine ⟨layoutAfter, ?_, ?_, ?_, ?_⟩
  · intro j inside
    rw [slotsAfter j inside]
    exact slots j inside
  · intro b
    change b < after.buckets ↔ _
    have count := leveled.buckets
    constructor
    · intro low
      rcases eq_or_ne b t.buckets with rfl | notNew
      · refine ⟨(t.bucket ob).id + 2 ^ (t.bucket ob).depth, lt_of_lt_of_le fits high, ?_⟩
        rw [slotsAfter _ (lt_of_lt_of_le fits high), Nat.mod_eq_of_lt fits, if_pos rfl]
      · rcases eq_or_ne b ob with rfl | notOld
        · have inside : (t.bucket b).id < 2 ^ ((t.bucket b).depth + 1) := by omega
          refine ⟨(t.bucket b).id, lt_of_lt_of_le inside high, ?_⟩
          rw [slotsAfter _ (lt_of_lt_of_le inside high), Nat.mod_eq_of_lt inside,
            if_neg (by have := Nat.two_pow_pos (t.bucket b).depth; omega), belongs,
            Nat.mod_eq_of_lt small]
        · obtain ⟨j, inside, slot⟩ := (dir.allocated b).mp (by omega)
          have wider : j < 2 ^ max t.dirDepth ((t.bucket ob).depth + 1) :=
            lt_of_lt_of_le inside (Nat.pow_le_pow_right (by decide) (Nat.le_max_left _ _))
          have place : t.slot (j % 2 ^ t.dirDepth) = b := by rw [Nat.mod_eq_of_lt inside, slot]
          refine ⟨j, wider, ?_⟩
          rw [slotsAfter j wider, if_neg, place]
          intro bits
          refine notOld (place.symm.trans ((belongs j).mpr ?_))
          rw [← truncated, bits, Nat.add_mod_right, Nat.mod_eq_of_lt small]
    · rintro ⟨j, inside, slot⟩
      change j < 2 ^ max t.dirDepth ((t.bucket ob).depth + 1) at inside
      rw [slotsAfter j inside] at slot
      split_ifs at slot
      · omega
      · have low := (dir.allocated b).mpr ⟨_, bound j, slot⟩
        omega
  · refine Directed.split (dir.grown (Nat.succ_le_succ level)) ?_ (Nat.lt_of_lt_of_le
      (Nat.lt_succ_self _) (Nat.le_max_right _ _)) ?_ depthOld depthNew idOld idNew ?_ ?_
      slotsAfter
    · refine ⟨j₀, lt_of_lt_of_le inside₀
        (Nat.pow_le_pow_right (by decide) (Nat.le_max_left _ _)), ?_⟩
      rw [Nat.mod_eq_of_lt inside₀, slot₀]
    · intro j _ same
      have low := (dir.allocated _).mpr ⟨_, bound j, rfl⟩
      omega
    · exact fun b notOld notNew => congrArg Bucket.depth (leveled.other b notOld notNew)
    · exact fun b notOld notNew => congrArg Bucket.id (leveled.other b notOld notNew)
  · have bounded := dir.bounded
    change max t.dirDepth ((t.bucket ob).depth + 1) < 31
    omega

end Directory

/-! ### The whole split -/

section Split

variable {hvfsHash : U64 → U64 → U64} {t : Cbht} {ob : Nat}

theorem CbhtDirected.id_lt (dir : CbhtDirected t) (present : ob < t.buckets) :
    (t.bucket ob).id < 2 ^ (t.bucket ob).depth ∧ (t.bucket ob).depth ≤ t.dirDepth := by
  obtain ⟨j, inside, rfl⟩ := (dir.allocated ob).mp present
  exact ⟨dir.directed.id_lt inside, dir.directed.shallow j inside⟩

/-- One level with its update of the directory keeps the invariant. -/
theorem CbhtGood.level (good : CbhtGood hvfsHash t) (present : ob < t.buckets)
    (shallow : (t.bucket ob).depth + 1 < 31) :
    ∃ final, cbhtUpdateDir (splitLevel t ob).2 t.buckets = .ok (0, final) ∧
      CbhtGood hvfsHash final ∧ SameItbs t final ∧ final.buckets = t.buckets + 1 ∧
      final.bucket = (splitLevel t ob).2.bucket := by
  obtain ⟨_, leveled⟩ := splitLevel_leveled t present
  have blocks := leveled.blocks good.blocks present (good.dir.id_lt present).1
  have same := leveled.sameItbs good.blocks.hung present
  obtain ⟨final, updated, dir, depth, buckets, bucket, itb⟩ :=
    leveled.directed good.dir present shallow
  refine ⟨final, updated, ⟨dir, ?_⟩, ?_, buckets.trans leveled.buckets, bucket⟩
  · obtain ⟨_, _, _, _, _, _⟩ := final
    cases depth
    cases buckets
    cases bucket
    cases itb
    exact ⟨blocks.placed, blocks.hashed, blocks.nodup, blocks.keys, blocks.adepth, blocks.counted,
      blocks.limit⟩
  · exact ⟨depth.trans same.bucketDepth, fun i => itb ▸ same.puuid i, fun i => itb ▸ same.itbid i,
      fun i => itb ▸ same.hash i, fun i => itb ▸ same.attached i⟩

/-- A split ends, unless it would make the directory too deep, with room in the bucket of the hash
it was made for. -/
theorem splitLoop_spec {criminal : U64} {fuel : Nat} (good : CbhtGood hvfsHash t)
    (present : ob < t.buckets)
    (serves : t.high criminal % 2 ^ (t.bucket ob).depth = (t.bucket ob).id)
    (enough : 31 ≤ fuel + (t.bucket ob).depth) :
    splitLoop criminal fuel t ob = .error .depth ∨
      ∃ final b, splitLoop criminal fuel t ob = .ok (0, final) ∧ CbhtGood hvfsHash final ∧
        SameItbs t final ∧ mdsCbhtSearchDir final criminal = some b ∧
        (final.bucket b).active < ((2 * 2 ^ final.bucketDepth : Nat) : Int) := by
  induction fuel generalizing t ob with
  | zero =>
    have level := (good.dir.id_lt present).2
    have bounded := good.dir.bounded
    omega
  | succ fuel inductionHypothesis =>
    unfold splitLoop
    by_cases deep : (t.bucket ob).depth + 1 ≥ 31
    · exact Or.inl (if_pos deep)
    · rw [if_neg deep]
      obtain ⟨name, leveled⟩ := splitLevel_leveled t present
      obtain ⟨final, updated, goodFinal, same, buckets, bucket⟩ := good.level present (by omega)
      obtain ⟨moved, _, loads, activeOld, activeNew, _⟩ := leveled.load
      obtain ⟨_, old, new, _⟩ := leveled.old
      have small := (good.dir.id_lt present).1
      have joined := Nat.two_pow_add_eq_or_of_lt small 1
      rw [Nat.mul_one, Nat.lor_comm] at joined
      have counted := good.blocks.counted ob present
      have limit := good.blocks.limit ob present
      have high : final.high criminal = t.high criminal := by
        unfold Cbht.high
        rw [same.bucketDepth]
      rw [← bucket] at old new activeOld activeNew
      have depthOld : (final.bucket ob).depth = (t.bucket ob).depth + 1 := by rw [old]
      have depthNew : (final.bucket t.buckets).depth = (t.bucket ob).depth + 1 := by rw [new]
      have idOld : (final.bucket ob).id = (t.bucket ob).id := by rw [old]
      have idNew : (final.bucket t.buckets).id =
          (t.bucket ob).id + 2 ^ (t.bucket ob).depth := by
        rw [new]
        simp only
        rw [← joined, Nat.add_comm]
      have presentOld : ob < final.buckets := by omega
      have presentNew : t.buckets < final.buckets := by omega
      have bit := hashBit_iff t criminal (t.bucket ob).depth
      -- the side of the split that serves the hash
      have servesNew : hashBit t.bucketDepth criminal ((t.bucket ob).depth + 1) = true →
          final.high criminal % 2 ^ (final.bucket t.buckets).depth =
            (final.bucket t.buckets).id := by
        intro set
        rw [high, depthNew, idNew, bit.mp set, serves]
      have servesOld : hashBit t.bucketDepth criminal ((t.bucket ob).depth + 1) ≠ true →
          final.high criminal % 2 ^ (final.bucket ob).depth = (final.bucket ob).id := by
        intro clear
        rw [high, depthOld, idOld]
        rcases mod_two_pow_succ_cases (t.high criminal) (t.bucket ob).depth with zero | one
        · rw [zero, serves]
        · exact absurd (bit.mpr one) clear
      have depthLevel : ((splitLevel t ob).2.bucket (splitLevel t ob).1).depth =
          (t.bucket ob).depth + 1 := by
        rw [name, ← bucket, depthNew]
      simp only [depthLevel, leveled.bucketDepth]
      rw [name, updated]
      simp only [ne_eq, not_true_eq_false, if_false, activeNew, activeOld]
      have again : ∀ b, b < final.buckets →
          final.high criminal % 2 ^ (final.bucket b).depth = (final.bucket b).id →
          (final.bucket b).depth = (t.bucket ob).depth + 1 →
          splitLoop criminal fuel final b = .error .depth ∨
            ∃ last side, splitLoop criminal fuel final b = .ok (0, last) ∧
              CbhtGood hvfsHash last ∧ SameItbs t last ∧
              mdsCbhtSearchDir last criminal = some side ∧
              (last.bucket side).active < ((2 * 2 ^ last.bucketDepth : Nat) : Int) := by
        intro b low servesHere depth
        rcases inductionHypothesis goodFinal low servesHere (by omega) with
          stop | ⟨last, side, ended, goodLast, sameLast, found, room⟩
        · exact Or.inl stop
        · exact Or.inr ⟨last, side, ended, goodLast, same.trans sameLast, found, room⟩
      split_ifs with deepOld deepNew
      · exact again ob presentOld (servesOld (by simpa using deepOld.2)) depthOld
      · exact again t.buckets presentNew (servesNew deepNew.2) depthNew
      · right
        by_cases inNew : hashBit t.bucketDepth criminal ((t.bucket ob).depth + 1) = true
        · refine ⟨final, t.buckets, rfl, goodFinal, same,
            (goodFinal.dir.searchDir_iff presentNew criminal).mpr (servesNew inNew), ?_⟩
          have left : (t.bucket ob).active - moved ≠ 0 := fun zero => deepNew ⟨zero, inNew⟩
          rw [activeNew, same.bucketDepth]
          omega
        · refine ⟨final, ob, rfl, goodFinal, same,
            (goodFinal.dir.searchDir_iff presentOld criminal).mpr (servesOld inNew), ?_⟩
          have left : (moved : Int) ≠ 0 := fun zero => deepOld ⟨zero, by simpa using inNew⟩
          rw [activeOld, same.bucketDepth]
          omega

end Split

end Hvfs
