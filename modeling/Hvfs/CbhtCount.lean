/-
This file determines when the `active` fields of the CBHT's buckets are the
numbers of their blocks.

An insertion counts the block that it hangs into a bucket, a split counts the
blocks that it moves, and a block that is replaced by its copy stays counted.
`mds_cbht_del` takes a block off its chain and leaves the count, so the fields
are exact along a run as long as it detaches nothing.
-/

import Hvfs.CbhtMap

namespace Hvfs

open Transition

/-! ### The operations -/

/-- The exchange in `itb_dirty` of a block with its copy `n`. -/
def Cbht.exchange (t : Cbht) (i n b o : Nat) : Cbht :=
  { t with
    bucket := Function.update t.bucket b
      { t.bucket b with
        content :=
          Function.update (t.bucket b).content o (n :: ((t.bucket b).content o).erase i) }
    itb := Function.update (Function.update t.itb i { t.itb i with be := none }) n
      { t.itb i with be := some (b, o) } }

/-- An operation on the table. -/
inductive CountCall
  | insert (i : Nat)
  | del (i : Nat)
  | split (hash : U64) (sdepth : Nat)
  | cow (i n : Nat)
  deriving DecidableEq, Repr

/-- The table after an operation. A split is made for the bucket of a hash; a copy is exchanged
for an attached block and is free before. -/
def countStep (hvfsHash : U64 → U64 → U64) (t : Cbht) : CountCall → Option Cbht
  | .insert i => cbhtStep hvfsHash t (.insert i)
  | .del i => cbhtStep hvfsHash t (.del i)
  | .split hash sdepth =>
    match mdsCbhtSearchDir t hash with
    | none => none
    | some b =>
      match cbhtBucketSplit t b hash sdepth with
      | .error _ => none
      | .ok (_, t) => some t
  | .cow i n =>
    match (t.itb i).be, (t.itb n).be with
    | some (b, o), none => some (t.exchange i n b o)
    | _, _ => none

/-- The fields `active` are the numbers of blocks, so that only full buckets are split and the test
for an empty bucket is exact. -/
structure Populated (t : Cbht) : Prop where
  active : ∀ b < t.buckets, (t.bucket b).active = t.load b
  splits : ∀ b < t.buckets, (t.bucket b).active ≥ ((2 <<< (t.bucket b).adepth : Nat) : Int) →
    2 * 2 ^ (t.bucket b).adepth ≤ t.load b
  empty : ∀ b < t.buckets, (t.bucket b).active = 0 ↔
    ∀ o < 2 ^ t.bucketDepth, (t.bucket b).content o = []

/-! ### The load of a bucket -/

section Load

variable {t : Cbht} {b o i : Nat}

/-- A sum with another value at one place. -/
theorem sum_range_add {f g : Nat → Nat} {k extra : Nat} (here : f k = g k + extra)
    (other : ∀ o, o ≠ k → f o = g o) {n : Nat} (inside : k < n) :
    ((List.range n).map f).sum = ((List.range n).map g).sum + extra := by
  have below := sum_range_le (le_of_eq here) other n
  refine le_antisymm below.1 ?_
  induction n with
  | zero => omega
  | succ n inductionHypothesis =>
    have before := sum_range_le (le_of_eq here) other n
    rw [List.range_succ, List.map_append, List.sum_append, List.map_append, List.sum_append]
    simp only [List.map_cons, List.map_nil, List.sum_cons, List.sum_nil, Nat.add_zero]
    rcases eq_or_ne n k with rfl | different
    · rw [before.2 (le_refl _)]
      omega
    · rw [other n different]
      have rest := inductionHypothesis (by omega) before
      omega

/-- The load of a bucket in which one chain has `extra` more blocks than before. -/
theorem load_add {after : Cbht} {extra : Nat} (depth : after.bucketDepth = t.bucketDepth)
    (low : o < 2 ^ t.bucketDepth)
    (here : ((after.bucket b).content o).length = ((t.bucket b).content o).length + extra)
    (other : ∀ k, k ≠ o → (after.bucket b).content k = (t.bucket b).content k) :
    after.load b = t.load b + extra := by
  unfold Cbht.load
  rw [depth]
  exact sum_range_add here (fun k different => by rw [other k different]) low

theorem load_congr {after : Cbht} (depth : after.bucketDepth = t.bucketDepth)
    (same : (after.bucket b).content = (t.bucket b).content) : after.load b = t.load b := by
  unfold Cbht.load
  rw [depth, same]

theorem load_eq_zero : t.load b = 0 ↔ ∀ o < 2 ^ t.bucketDepth, (t.bucket b).content o = [] := by
  unfold Cbht.load
  rw [List.sum_eq_zero_iff]
  constructor
  · intro none o low
    exact List.length_eq_zero_iff.mp
      (none _ (List.mem_map.mpr ⟨o, List.mem_range.mpr low, rfl⟩))
  · rintro none _ member
    obtain ⟨o, low, rfl⟩ := List.mem_map.mp member
    rw [none o (List.mem_range.mp low)]
    rfl

/-- The counts are all that there is to say. -/
theorem populated_iff : Populated t ↔ ∀ b < t.buckets, (t.bucket b).active = t.load b := by
  constructor
  · exact Populated.active
  · intro active
    refine ⟨active, fun b low full => ?_, fun b low => ?_⟩
    · rw [active b low, Nat.shiftLeft_eq] at full
      exact_mod_cast full
    · rw [active b low, Int.natCast_eq_zero]
      exact load_eq_zero

end Load

/-! ### What the operations do to the counts -/

/-- Each bucket counts its blocks. -/
def Counts (t : Cbht) : Prop := ∀ b < t.buckets, (t.bucket b).active = t.load b

section Steps

variable {hvfsHash : U64 → U64 → U64} {t : Cbht} {b i n o : Nat}

theorem Counts.attach (counts : Counts t) (low : o < 2 ^ t.bucketDepth) :
    Counts (t.attach i b o) := by
  intro c inside
  have before := counts c inside
  rcases eq_or_ne c b with rfl | different
  · have more : (t.attach i c o).load c = t.load c + 1 := by
      refine @load_add t c o (t.attach i c o) 1 rfl low ?_ fun k different => ?_
      · simp only [Cbht.attach, Function.update_self, List.length_cons]
      · simp only [Cbht.attach, Function.update_self, Function.update_of_ne different]
    rw [more]
    simp only [Cbht.attach, Function.update_self]
    omega
  · have load : (t.attach i b o).load c = t.load c := load_congr rfl (by
      simp only [Cbht.attach, Function.update_of_ne different])
    rw [load]
    simp only [Cbht.attach, Function.update_of_ne different]
    exact before

/-- The load of the bucket of a block that is detached. -/
theorem CbhtPlaced.load_detach (blocks : CbhtPlaced hvfsHash t)
    (be : (t.itb i).be = some (b, o)) : t.load b = (t.detach i b o).load b + 1 := by
  obtain ⟨_, low, member⟩ := (blocks.placed i b o).mp be
  refine @load_add (t.detach i b o) b o t 1 rfl low ?_ fun k different => ?_
  · simp only [Cbht.detach, Function.update_self]
    exact (List.length_erase_add_one member).symm
  · simp only [Cbht.detach, Function.update_self, Function.update_of_ne different]

/-- A deletion leaves a table that counts its blocks exactly when it detaches nothing. -/
theorem mdsCbhtDel_counts (good : CbhtGood hvfsHash t) (counts : Counts t) :
    Counts (mdsCbhtDel t i).2 ↔ (t.itb i).be = none := by
  have search := good.dir.searchDir (t.itb i).hash
  generalize t.slot _ = b at search
  unfold mdsCbhtDel
  simp only [search, low_eq]
  by_cases here : (t.itb i).be = some (b, t.low (t.itb i).hash)
  · rw [if_neg (not_not.mpr here), here]
    have present := good.dir.searchDir_lt search
    refine ⟨fun countsAfter => ?_, fun absurdity => by cases absurdity⟩
    have fewer := good.blocks.load_detach here
    have before := counts b present
    have after : ((t.detach i b (t.low (t.itb i).hash)).bucket b).active =
        (t.detach i b (t.low (t.itb i).hash)).load b := countsAfter b present
    have same : ((t.detach i b (t.low (t.itb i).hash)).bucket b).active = (t.bucket b).active := by
      simp only [Cbht.detach, Function.update_self]
    omega
  · rw [if_pos here]
    refine ⟨fun _ => ?_, fun _ => counts⟩
    by_contra attached
    obtain ⟨place, found, _, be, _⟩ := good.place attached
    cases search.symm.trans found
    exact here be

/-- An exchange is a detachment, the copy of the header, and the copy in the place of the block. -/
theorem exchange_eq (t : Cbht) (i n b o : Nat) :
    t.exchange i n b o =
      ({ t.detach i b o with
        itb := Function.update (t.detach i b o).itb n { t.itb i with be := none } } : Cbht).hang
        n b o (t.bucket b).active := by
  unfold Cbht.exchange Cbht.hang Cbht.detach
  simp only [Function.update_self, Function.update_idem]

theorem CbhtGood.exchange (good : CbhtGood hvfsHash t) (be : (t.itb i).be = some (b, o))
    (free : (t.itb n).be = none) : CbhtGood hvfsHash (t.exchange i n b o) := by
  have other : n ≠ i := by
    rintro rfl
    rw [be] at free
    cases free
  have attached : t.Attached i := by
    unfold Cbht.Attached
    rw [be]
    exact Option.some_ne_none _
  obtain ⟨place, search, hashed, bePlace, _⟩ := good.place attached
  rw [be] at bePlace
  cases bePlace
  have present := good.dir.searchDir_lt search
  have fewer := good.blocks.load_detach be
  have counted := good.blocks.counted b present
  rw [exchange_eq]
  -- the table without the block, with the copied header
  obtain ⟨middle, middleEq⟩ : ∃ middle : Cbht, middle =
      { t.detach i b (t.low (t.itb i).hash) with
        itb := Function.update (t.detach i b (t.low (t.itb i).hash)).itb n
          { t.itb i with be := none } } := ⟨_, rfl⟩
  have header : middle.itb n = { t.itb i with be := none } := by
    rw [middleEq]
    exact Function.update_self _ _ _
  have goodMiddle : CbhtGood hvfsHash middle := by
    rw [middleEq]
    refine (good.detach be).setHeader ?_ rfl
    simp only [Cbht.detach, Function.update_of_ne other]
    exact free
  have others : ∀ j, middle.Attached j → t.Attached j ∧ j ≠ i ∧ middle.key j = t.key j := by
    intro j there
    have notCopy : j ≠ n := by
      rintro rfl
      unfold Cbht.Attached at there
      rw [header] at there
      exact there rfl
    have same : middle.itb j = Function.update t.itb i { t.itb i with be := none } j := by
      rw [middleEq]
      exact Function.update_of_ne notCopy _ _
    have different : j ≠ i := by
      rintro rfl
      unfold Cbht.Attached at there
      rw [same, Function.update_self] at there
      exact there rfl
    rw [Function.update_of_ne different] at same
    unfold Cbht.Attached at there
    unfold Cbht.Attached Cbht.key
    rw [same] at there ⊢
    exact ⟨there, different, rfl⟩
  have hung := @CbhtGood.hang hvfsHash middle n b goodMiddle
    (by
      rw [header, middleEq]
      exact search)
    (by rw [header]; exact hashed)
    (by
      intro j there same
      obtain ⟨attachedOther, different, key⟩ := others j there
      have sameKey : t.key j = t.key i := by
        rw [← key, same]
        unfold Cbht.key
        rw [header]
      exact different (good.blocks.keys j i attachedOther attached (congrArg Prod.fst sameKey)
        (congrArg Prod.snd sameKey)))
    (t.bucket b).active
    (by
      have load : middle.load b = (t.detach i b (t.low (t.itb i).hash)).load b := by
        rw [middleEq]
        rfl
      omega)
    (by
      have depth : middle.bucketDepth = t.bucketDepth := by rw [middleEq]; rfl
      rw [depth]
      exact good.blocks.limit b present)
  have low : middle.low (middle.itb n).hash = t.low (t.itb i).hash := by
    rw [header, middleEq]
    rfl
  rw [low, middleEq] at hung
  exact hung

theorem Counts.exchange (counts : Counts t) (blocks : CbhtPlaced hvfsHash t)
    (be : (t.itb i).be = some (b, o)) : Counts (t.exchange i n b o) := by
  intro c inside
  have before := counts c inside
  obtain ⟨_, _, member⟩ := (blocks.placed i b o).mp be
  have lengths : ∀ k, (((t.exchange i n b o).bucket c).content k).length =
      ((t.bucket c).content k).length := by
    intro k
    simp only [Cbht.exchange]
    rw [Function.update_apply]
    split_ifs with here
    · subst here
      simp only [Function.update_apply]
      split_ifs with same
      · rw [same, List.length_cons, List.length_erase_add_one member]
      · rfl
    · rfl
  have load : (t.exchange i n b o).load c = t.load c := by
    unfold Cbht.load
    exact congrArg List.sum (List.map_congr_left fun k _ => lengths k)
  have active : ((t.exchange i n b o).bucket c).active = (t.bucket c).active := by
    simp only [Cbht.exchange]
    rw [Function.update_apply]
    split_ifs with here
    · rw [here]
    · rfl
  rw [load, active, before]

/-! ### Splits and insertions -/

/-- A level counts the blocks that it moves. -/
theorem Counts.level (counts : Counts t) (present : b < t.buckets) {middle : Cbht}
    (bucketDepth : middle.bucketDepth = t.bucketDepth) (buckets : middle.buckets = t.buckets + 1)
    (bucket : middle.bucket = (splitLevel t b).2.bucket) : Counts middle := by
  obtain ⟨_, leveled⟩ := splitLevel_leveled t present
  obtain ⟨moved, loadNew, loadOld, activeOld, activeNew, loadOther⟩ := leveled.load
  have load : ∀ c, middle.load c = (splitLevel t b).2.load c := fun c =>
    load_congr (by rw [leveled.bucketDepth, bucketDepth]) (by rw [bucket])
  intro c inside
  have beforeOld := counts b present
  rw [load, bucket]
  rcases eq_or_ne c t.buckets with rfl | notNew
  · rw [activeNew, loadNew]
  · rcases eq_or_ne c b with rfl | notOld
    · omega
    · rw [loadOther c notOld notNew, leveled.other c notOld notNew]
      exact counts c (by omega)

/-- The levels of a split keep the invariant and the counts. -/
theorem splitLoop_counts {criminal : U64} {fuel : Nat} {err : Int} {final : Cbht}
    (good : CbhtGood hvfsHash t) (counts : Counts t) (present : b < t.buckets)
    (ran : splitLoop criminal fuel t b = .ok (err, final)) :
    CbhtGood hvfsHash final ∧ Counts final := by
  induction fuel generalizing t b with
  | zero => cases ran
  | succ fuel inductionHypothesis =>
    unfold splitLoop at ran
    split_ifs at ran with deep
    obtain ⟨name, leveled⟩ := splitLevel_leveled t present
    obtain ⟨middle, updated, goodMiddle, same, buckets, bucket⟩ := good.level present (by omega)
    have countsMiddle := counts.level present same.bucketDepth buckets bucket
    simp only [name, updated, ne_eq, not_true_eq_false, if_false] at ran
    split_ifs at ran with deepOld deepNew
    · exact inductionHypothesis goodMiddle countsMiddle (by omega) ran
    · exact inductionHypothesis goodMiddle countsMiddle (by omega) ran
    · cases ran
      exact ⟨goodMiddle, countsMiddle⟩

theorem cbhtBucketSplit_counts {criminal : U64} {sdepth : Nat} {err : Int} {final : Cbht}
    (good : CbhtGood hvfsHash t) (counts : Counts t) (present : b < t.buckets)
    (ran : cbhtBucketSplit t b criminal sdepth = .ok (err, final)) :
    CbhtGood hvfsHash final ∧ Counts final := by
  unfold cbhtBucketSplit at ran
  split_ifs at ran
  · cases ran
    exact ⟨good, counts⟩
  · cases ran
    exact ⟨good, counts⟩
  · exact splitLoop_counts good counts present ran

theorem cbhtBucketSplit_good {criminal : U64} {sdepth : Nat} {err : Int} {final : Cbht}
    (good : CbhtGood hvfsHash t) (search : mdsCbhtSearchDir t criminal = some b)
    (ran : cbhtBucketSplit t b criminal sdepth = .ok (err, final)) : CbhtGood hvfsHash final := by
  have present := good.dir.searchDir_lt search
  unfold cbhtBucketSplit at ran
  split_ifs at ran
  · cases ran
    exact good
  · cases ran
    exact good
  · rcases splitLoop_spec good present ((good.dir.searchDir_iff present criminal).mp search)
      (Nat.le_add_right 31 _) with stop | ⟨after, side, ended, goodAfter, _⟩
    · rw [stop] at ran
      cases ran
    · rw [ended] at ran
      cases ran
      exact goodAfter

theorem insertLoop_counts {hash : U64} {fuel : Nat} {reply : InsertReply} {next : Cbht}
    (good : CbhtGood hvfsHash t) (counts : Counts t)
    (ran : insertLoop i hash fuel t = .ok (reply, next)) : Counts next := by
  induction fuel generalizing t with
  | zero => cases ran
  | succ fuel inductionHypothesis =>
    have search := good.dir.searchDir hash
    generalize t.slot _ = b at search
    have present := good.dir.searchDir_lt search
    unfold insertLoop at ran
    simp only [search, low_eq] at ran
    split_ifs at ran with full
    · rcases split : cbhtBucketSplit t b hash t.dirDepth with stop | ⟨err, middle⟩
      · rw [split] at ran
        cases ran
      · obtain ⟨goodMiddle, countsMiddle⟩ := cbhtBucketSplit_counts good counts present split
        rw [split] at ran
        simp only at ran
        split_ifs at ran with again
        · exact inductionHypothesis goodMiddle countsMiddle ran
        · cases ran
          exact countsMiddle
    · rcases found : ((t.bucket b).content (t.low hash)).find?
        (t.keyIs (t.itb i).puuid (t.itb i).itbid) with _ | first
      · rw [found] at ran
        cases ran
        exact counts.attach (low_lt t hash)
      · rw [found] at ran
        cases ran
        exact counts

/-- The operations keep the table good. -/
theorem countStep_good {call : CountCall} {next : Cbht} (good : CbhtGood hvfsHash t)
    (stepped : countStep hvfsHash t call = some next) : CbhtGood hvfsHash next := by
  cases call with
  | insert i =>
    have stepped : cbhtStep hvfsHash t (.insert i) = some next := stepped
    unfold cbhtStep at stepped
    rcases mdsCbhtInsert_spec good i with stop | ⟨reply, after, ran, inserted⟩
    · simp only [stop] at stepped
      cases stepped
    · simp only [ran] at stepped
      cases stepped
      exact inserted.good
  | del i =>
    have stepped : cbhtStep hvfsHash t (.del i) = some next := stepped
    cases stepped
    exact (mdsCbhtDel_spec good i).2.1
  | split hash sdepth =>
    have search := good.dir.searchDir hash
    generalize t.slot _ = b at search
    unfold countStep at stepped
    simp only [search] at stepped
    rcases split : cbhtBucketSplit t b hash sdepth with stop | ⟨err, middle⟩
    · rw [split] at stepped
      cases stepped
    · rw [split] at stepped
      cases stepped
      exact cbhtBucketSplit_good good search split
  | cow i n =>
    unfold countStep at stepped
    rcases be : (t.itb i).be with _ | ⟨b, o⟩
    · simp only [be] at stepped
      cases stepped
    · rcases free : (t.itb n).be with _ | _
      · simp only [be, free] at stepped
        cases stepped
        exact good.exchange be free
      · simp only [be, free] at stepped
        cases stepped

/-- An insertion, a split or an exchange leaves a table that counts its blocks; a deletion does so
exactly when it detaches nothing. -/
theorem countStep_counts {call : CountCall} {next : Cbht} (good : CbhtGood hvfsHash t)
    (counts : Counts t) (stepped : countStep hvfsHash t call = some next) :
    Counts next ↔ ∀ i, call = .del i → (t.itb i).be = none := by
  cases call with
  | insert i =>
    have stepped : cbhtStep hvfsHash t (.insert i) = some next := stepped
    unfold cbhtStep at stepped
    rcases mdsCbhtInsert_spec good i with stop | ⟨reply, after, ran, inserted⟩
    · simp only [stop] at stepped
      cases stepped
    · simp only [ran] at stepped
      cases stepped
      refine ⟨fun _ _ other => (by cases other), fun _ => ?_⟩
      exact insertLoop_counts (good.setHash i) (fun c inside => counts c inside) ran
  | del i =>
    have stepped : cbhtStep hvfsHash t (.del i) = some next := stepped
    cases stepped
    rw [mdsCbhtDel_counts good counts]
    constructor
    · rintro free _ ⟨⟩
      exact free
    · exact fun free => free i rfl
  | split hash sdepth =>
    have search := good.dir.searchDir hash
    generalize t.slot _ = b at search
    unfold countStep at stepped
    simp only [search] at stepped
    rcases split : cbhtBucketSplit t b hash sdepth with stop | ⟨err, middle⟩
    · rw [split] at stepped
      cases stepped
    · rw [split] at stepped
      cases stepped
      refine ⟨fun _ _ other => (by cases other), fun _ => ?_⟩
      exact (cbhtBucketSplit_counts good counts (good.dir.searchDir_lt search) split).2
  | cow i n =>
    unfold countStep at stepped
    rcases be : (t.itb i).be with _ | ⟨b, o⟩
    · simp only [be] at stepped
      cases stepped
    · rcases free : (t.itb n).be with _ | _
      · simp only [be, free] at stepped
        cases stepped
        exact ⟨fun _ _ other => (by cases other), fun _ => counts.exchange good.blocks be⟩
      · simp only [be, free] at stepped
        cases stepped

end Steps

/-! ### Runs -/

/-- From `mds_cbht_init` on, for every hash and every bucket depth, each operation of a run leaves
buckets that count their blocks exactly when no deletion of the run is of an attached block. -/
theorem mds_cbht_counts (hvfsHash : U64 → U64 → U64) (bdepth : Nat) (key : Nat → U64 × U64)
    (calls : List CountCall) :
    Populated (mdsCbhtInit bdepth (freeItbs key)) ∧
      (Guarded (countStep hvfsHash)
          (fun t call => ∀ next, countStep hvfsHash t call = some next → Populated next)
          (mdsCbhtInit bdepth (freeItbs key)) calls ↔
        Guarded (countStep hvfsHash)
          (fun t call => ∀ i, call = .del i → (t.itb i).be = none)
          (mdsCbhtInit bdepth (freeItbs key)) calls) := by
  have init : Populated (mdsCbhtInit bdepth (freeItbs key)) := by
    rw [populated_iff]
    intro b low
    obtain rfl : b = 0 := Nat.lt_one_iff.mp low
    exact congrArg Nat.cast (load_eq_zero.mpr fun o _ => rfl).symm
  refine ⟨init, ?_⟩
  have same : ∀ t call, CbhtGood hvfsHash t ∧ Counts t →
      ((∀ next, countStep hvfsHash t call = some next → Populated next) ↔
        ∀ i, call = .del i → (t.itb i).be = none) := by
    rintro t call ⟨good, counts⟩
    constructor
    · rintro populated i rfl
      have after := populated_iff.mp (populated _ rfl)
      exact ((countStep_counts good counts rfl).mp after) i rfl
    · intro free next stepped
      exact populated_iff.mpr ((countStep_counts good counts stepped).mpr free)
  refine guarded_iff_of_invariant (fun t => CbhtGood hvfsHash t ∧ Counts t) same ?_
    ⟨(mdsCbhtInit_tabled hvfsHash bdepth key).good, populated_iff.mp init⟩
  rintro t call next ⟨good, counts⟩ populated stepped
  exact ⟨countStep_good good stepped, populated_iff.mp (populated next stepped)⟩

/-- A block is inserted and deleted: its bucket counts one block and has none. -/
theorem mds_cbht_counts_deleted :
    ∃ t, run (countStep fun _ itbid => itbid)
        (mdsCbhtInit 1 (freeItbs fun i => (0, BitVec.ofNat 64 i))) [.insert 0, .del 0] = some t ∧
      (t.bucket 0).active = 1 ∧ t.load 0 = 0 ∧ ¬Populated t := by
  refine ⟨_, rfl, rfl, rfl, fun populated => ?_⟩
  exact absurd (populated.active 0 Nat.one_pos) (by decide)

end Hvfs
